import Mathlib.Tactic

/-!
# Workspaces

`bin/varnishd/cache_ws.c`, for pointers of 8 bytes. A position is its distance from `ws->s`. What `WS_Assert` checks is
part of the type. A failed assertion is `none`.
-/

namespace VarnishCache

/-- `PRNDUP`. -/
def prndup (n : Nat) : Nat := (n + 7) / 8 * 8

/-- `PRNDDN`. -/
def prnddn (n : Nat) : Nat := n / 8 * 8

lemma le_prndup (n : Nat) : n ≤ prndup n := by
  unfold prndup
  omega

lemma prndup_mod (n : Nat) : prndup n % 8 = 0 := by
  unfold prndup
  omega

lemma prndup_le {n k : Nat} (hk : k % 8 = 0) (h : n ≤ k) : prndup n ≤ k := by
  unfold prndup
  omega

lemma prnddn_eq {k : Nat} (hk : k % 8 = 0) : prnddn k = k := by
  unfold prnddn
  omega

/-- `struct ws`. -/
structure Ws where
  e : Nat
  f : Nat
  /-- The end of what is reserved. -/
  r : Option Nat
  pos : 0 < e
  e_ok : e % 8 = 0
  f_ok : f % 8 = 0
  le : f ≤ e
  r_ok : ∀ p ∈ r, p % 8 = 0 ∧ f ≤ p ∧ p ≤ e
  deriving DecidableEq

namespace Ws

/-- The bytes that are left. -/
def free (ws : Ws) : Nat := ws.e - ws.f

lemma free_ok (ws : Ws) : ws.free % 8 = 0 := by
  have he := ws.e_ok
  have hf := ws.f_ok
  have hle := ws.le
  unfold free
  omega

/-- `WS_Alloc`: a place, or `NULL`. -/
def alloc (ws : Ws) (bytes : Nat) : Option (Option Nat × Ws) :=
  if ws.r.isSome then none
  else if h : ws.f + prndup bytes ≤ ws.e then
    some (some ws.f,
      { ws with
        f := ws.f + prndup bytes, r := none, le := h, r_ok := by simp
        f_ok := by
          have hf := ws.f_ok
          have hb := prndup_mod bytes
          omega })
  else some (none, ws)

/-- `WS_Reserve` of all that is left, with its size. -/
def reserve (ws : Ws) : Option (Nat × Ws) :=
  if ws.r.isSome then none
  else
    some (prnddn ws.free,
      { ws with
        r := some (ws.f + prnddn ws.free)
        r_ok := by
          intro p hp
          cases hp
          have hle := ws.le
          have hf := ws.f_ok
          rw [prnddn_eq ws.free_ok]
          unfold free
          have he := ws.e_ok
          exact ⟨by omega, by omega, by omega⟩ })

/-- `WS_Release`, and `WS_ReleaseP` of the place `bytes` behind `ws->f`. -/
def release (ws : Ws) (bytes : Nat) : Option Ws :=
  match hr : ws.r with
  | none => none
  | some r =>
    if h : ws.f + prndup bytes ≤ r then
      some { ws with
        f := ws.f + prndup bytes, r := none, r_ok := by simp
        le := by
          have hle := (ws.r_ok r hr).2.2
          omega
        f_ok := by
          have hf := ws.f_ok
          have hb := prndup_mod bytes
          omega }
    else none

/-- `WS_Init` of `len` bytes. -/
def init (len : Nat) : Option Ws :=
  if h : len % 8 = 0 ∧ 0 < len then
    some {
      e := len, f := 0, r := none, pos := h.2, e_ok := h.1, f_ok := rfl, le := Nat.zero_le _
      r_ok := fun _ hp => nomatch hp }
  else none

/-- `WS_Reset`, to the start for `NULL`. -/
def reset (ws : Ws) (p : Option Nat) : Option Ws :=
  if ws.r.isSome then none
  else
    match p with
    | none => some { ws with f := 0, r := none, f_ok := rfl, le := Nat.zero_le _, r_ok := by simp }
    | some p =>
      if h : p < ws.e ∧ p % 8 = 0 then some { ws with f := p, r := none, f_ok := h.2, le := h.1.le, r_ok := by simp }
      else none

/-- `WS_Snapshot`. -/
def snapshot (ws : Ws) : Option Nat := if ws.r.isSome then none else some ws.f

/-- `WS_Dup`: the text and its end. -/
def dup (ws : Ws) (s : List UInt8) : Option (Option Nat × Ws) := ws.alloc (s.length + 1)

/-- What `WS_Reserve` makes of the bytes it is asked for. -/
def reserveSize (ws : Ws) (bytes : Nat) : Nat :=
  prnddn (if bytes = 0 then ws.free else if ws.free < bytes then ws.free else bytes)

lemma reserveSize_le (ws : Ws) (bytes : Nat) : ws.reserveSize bytes ≤ ws.free := by
  refine (Nat.div_mul_le_self _ 8).trans ?_
  split
  · exact le_rfl
  · split <;> omega

/-- `WS_Reserve`, with the size of what it reserves. Its end must not be the start of the workspace. -/
def reserveBytes (ws : Ws) (bytes : Nat) : Option (Nat × Ws) :=
  if ws.r.isSome then none
  else if ws.f + ws.reserveSize bytes = 0 then none
  else
    some (ws.reserveSize bytes,
      { ws with
        r := some (ws.f + ws.reserveSize bytes)
        r_ok := by
          intro p hp
          cases hp
          have hle := ws.le
          have hf := ws.f_ok
          have hb := ws.reserveSize_le bytes
          have hmod : ws.reserveSize bytes % 8 = 0 := Nat.mul_mod_left _ _
          unfold free at hb
          exact ⟨by omega, by omega, by omega⟩ })

end Ws

/-- An allocation: where it is, and the bytes that were asked for. -/
structure WsPlace where
  p : Nat
  bytes : Nat
  deriving DecidableEq

/-- What `WS_Snapshot` has returned, with the workspace and the allocations at that time. -/
structure WsSnap where
  p : Nat
  ws : Ws
  live : List WsPlace

/-- The calls on one workspace, with the allocations that have not been discarded, the last one first, and the
snapshots that may still be used. A reset discards what ends behind the place it goes to, and the snapshots behind
it. -/
inductive WsRun : Ws → List WsPlace → List WsSnap → Prop
  | init {len : Nat} {ws : Ws} (hlen : len < 2 ^ 32) (h : Ws.init len = some ws) : WsRun ws [] []
  | alloc {ws ws' : Ws} {live : List WsPlace} {snaps : List WsSnap} {bytes : Nat} {p : Option Nat}
      (run : WsRun ws live snaps) (hbytes : bytes < 2 ^ 31) (h : ws.alloc bytes = some (p, ws')) :
      WsRun ws' (p.elim live fun p => ⟨p, bytes⟩ :: live) snaps
  | dup {ws ws' : Ws} {live : List WsPlace} {snaps : List WsSnap} {s : List UInt8} {p : Option Nat}
      (run : WsRun ws live snaps) (hs : s.length + 1 < 2 ^ 31) (h : ws.dup s = some (p, ws')) :
      WsRun ws' (p.elim live fun p => ⟨p, s.length + 1⟩ :: live) snaps
  | reserve {ws ws' : Ws} {live : List WsPlace} {snaps : List WsSnap} {bytes b2 : Nat}
      (run : WsRun ws live snaps) (hbytes : bytes < 2 ^ 31) (h : ws.reserveBytes bytes = some (b2, ws')) :
      WsRun ws' live snaps
  | release {ws ws' : Ws} {live : List WsPlace} {snaps : List WsSnap} {bytes : Nat}
      (run : WsRun ws live snaps) (hbytes : bytes < 2 ^ 31) (h : ws.release bytes = some ws') :
      WsRun ws' (⟨ws.f, bytes⟩ :: live) snaps
  | snapshot {ws : Ws} {live : List WsPlace} {snaps : List WsSnap} {p : Nat}
      (run : WsRun ws live snaps) (h : ws.snapshot = some p) : WsRun ws live (⟨p, ws, live⟩ :: snaps)
  | reset {ws ws' : Ws} {live : List WsPlace} {snaps : List WsSnap} {p : Option Nat}
      (run : WsRun ws live snaps) (hp : ∀ q ∈ p, ∃ s ∈ snaps, s.p = q) (h : ws.reset p = some ws') :
      WsRun ws' (live.filter fun a => a.p + a.bytes ≤ p.getD 0) (snaps.filter fun s => s.p ≤ p.getD 0)

/-- `Tadd`, and the copies like it, to a text of less than `ml` bytes: the text so far, or `none` where `b` has come to
`e`. -/
def tadd (ml : Nat) (b : Option (List UInt8)) (x : List UInt8) : Option (List UInt8) :=
  b.bind fun t => if t.length + x.length < ml then some (t ++ x) else none

end VarnishCache
