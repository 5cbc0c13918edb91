import VarnishCache.Workspace

/-!
# Reserving and releasing

What a reservation of all the space gives, and what is left of the workspace when it is released.
-/

namespace VarnishCache.Proofs

variable {ws ws' : Ws} {ml n : Nat}

lemma zero_ok : 0 % 8 = 0 := rfl

/-- An empty workspace of `n + 1` pointers. -/
def emptyWs (n : Nat) : Ws where
  e := 8 * (n + 1)
  f := 0
  r := none
  pos := Nat.mul_pos (Nat.succ_pos 7) (Nat.succ_pos n)
  e_ok := Nat.mul_mod_right 8 (n + 1)
  f_ok := zero_ok
  le := Nat.zero_le _
  r_ok := fun _ hp => nomatch hp

lemma ws_ext (he : ws'.e = ws.e) (hf : ws'.f = ws.f) (hr : ws'.r = ws.r) : ws' = ws := by
  cases ws
  cases ws'
  cases he
  cases hf
  cases hr
  rfl

/-- A reservation takes all that is free. -/
lemma reserve_free (hr : ws.r = none) :
    ∃ ws', ws.reserve = some (ws.free, ws') ∧ ws'.e = ws.e ∧ ws'.f = ws.f ∧ ws'.r = some (ws.f + ws.free) := by
  have hfree := prnddn_eq ws.free_ok
  simp [Ws.reserve, hr, hfree]

/-- What is released of a reservation is rounded up. -/
lemma release_reserved (hws : ws'.e = ws.e ∧ ws'.f = ws.f ∧ ws'.r = some (ws.f + ws.free)) (hn : n ≤ ws.free) :
    ∃ ws'', ws'.release n = some ws'' ∧ ws''.e = ws.e ∧ ws''.f = ws.f + prndup n ∧ ws''.r = none := by
  obtain ⟨he, hf, hr⟩ := hws
  have hround := prndup_le ws.free_ok hn
  unfold Ws.release
  split
  next hnone =>
    rw [hr] at hnone
    cases hnone
  next r hsome =>
    rw [hr] at hsome
    cases hsome
    rw [dif_pos (by omega)]
    refine ⟨_, rfl, he, ?_, rfl⟩
    change ws'.f + prndup n = _
    rw [hf]

/-- A reservation that is given back leaves the workspace as it was. -/
lemma release_zero (hr : ws.r = none) (hws : ws'.e = ws.e ∧ ws'.f = ws.f ∧ ws'.r = some (ws.f + ws.free)) :
    ws'.release 0 = some ws := by
  obtain ⟨ws'', hrel, he, hf, hr''⟩ := release_reserved hws (Nat.zero_le _)
  have hsame : ws'' = ws := by
    refine ws_ext he ?_ (hr''.trans hr.symm)
    rw [hf]
    rfl
  rw [hrel, hsame]

/-! ## Texts that are put together -/

lemma tadd_append (ml : Nat) (b : Option (List UInt8)) (x y : List UInt8) :
    tadd ml (tadd ml b x) y = tadd ml b (x ++ y) := by
  cases b with
  | none => rfl
  | some t =>
    simp only [tadd, Option.bind_some, List.length_append]
    by_cases hx : t.length + x.length < ml
    · rw [if_pos hx]
      simp only [Option.bind_some, List.length_append, List.append_assoc, Nat.add_assoc]
    · rw [if_neg hx, if_neg (by omega)]
      rfl

lemma tadd_nil (ml : Nat) (x : List UInt8) : tadd ml (some []) x = if x.length < ml then some x else none := by
  simp [tadd]

end VarnishCache.Proofs

/-!
## Snapshots

Allocations that have not been discarded lie one behind the other, and a snapshot can be gone back to as long as it
was not taken of a full workspace: `WS_Reset` takes no place that is not before the end.
-/

namespace VarnishCache.Proofs

variable {ws ws' : Ws} {live : List WsPlace} {snaps : List WsSnap} {bytes p : Nat}

/-! ## What the calls do -/

lemma ws_alloc_spec {q : Option Nat} (h : ws.alloc bytes = some (q, ws')) : ws.r = none ∧
    (q = none ∧ ws' = ws ∨ q = some ws.f ∧ ws'.f = ws.f + prndup bytes ∧ ws'.e = ws.e ∧ ws'.r = none) := by
  unfold Ws.alloc at h
  split at h
  · cases h
  · rename_i hr
    refine ⟨by simpa using hr, ?_⟩
    split at h
    all_goals
      simp only [Option.some.injEq, Prod.mk.injEq] at h
      obtain ⟨rfl, rfl⟩ := h
    · exact .inr ⟨rfl, rfl, rfl, rfl⟩
    · exact .inl ⟨rfl, rfl⟩

lemma reserveBytes_spec {b2 : Nat} (h : ws.reserveBytes bytes = some (b2, ws')) : ws'.f = ws.f ∧ ws'.e = ws.e := by
  unfold Ws.reserveBytes at h
  split at h
  · cases h
  · split at h
    · cases h
    · simp only [Option.some.injEq, Prod.mk.injEq] at h
      obtain ⟨-, rfl⟩ := h
      exact ⟨rfl, rfl⟩

lemma release_spec (h : ws.release bytes = some ws') :
    ws'.f = ws.f + prndup bytes ∧ ws'.e = ws.e ∧ ws'.r = none := by
  unfold Ws.release at h
  split at h
  · cases h
  · split at h
    · obtain rfl := Option.some.inj h
      exact ⟨rfl, rfl, rfl⟩
    · cases h

lemma snapshot_spec (h : ws.snapshot = some p) : ws.r = none ∧ p = ws.f := by
  unfold Ws.snapshot at h
  split at h
  · cases h
  · rename_i hr
    exact ⟨by simpa using hr, (Option.some.inj h).symm⟩

lemma reset_spec {q : Option Nat} (h : ws.reset q = some ws') : ws'.f = q.getD 0 ∧ ws'.e = ws.e ∧ ws'.r = none := by
  unfold Ws.reset at h
  split at h
  · cases h
  · split at h
    · obtain rfl := Option.some.inj h
      exact ⟨rfl, rfl, rfl⟩
    · split at h
      · obtain rfl := Option.some.inj h
        exact ⟨rfl, rfl, rfl⟩
      · cases h

/-- Going to a place of pointers fails at the end, and nowhere else. -/
lemma reset_isSome (hr : ws.r = none) (hp : p % 8 = 0) : (ws.reset (some p)).isSome ↔ p < ws.e := by
  unfold Ws.reset
  rw [if_neg (by simp [hr])]
  by_cases hlt : p < ws.e
  · simp [hlt, hp]
  · simp [hlt]

/-! ## What holds in a run -/

/-- The allocations lie one behind the other and before `ws->f`, and each snapshot is of a state that may come back. -/
structure WsOk (ws : Ws) (live : List WsPlace) (snaps : List WsSnap) : Prop where
  apart : live.Pairwise fun a b => b.p + prndup b.bytes ≤ a.p
  below : ∀ a ∈ live, a.p + prndup a.bytes ≤ ws.f
  place : ∀ s ∈ snaps, s.p = s.ws.f ∧ s.p ≤ ws.f
  same : ∀ s ∈ snaps, s.ws.e = ws.e ∧ s.ws.r = none
  kept : ∀ s ∈ snaps, ∀ a ∈ s.live, a ∈ live ∧ a.p + prndup a.bytes ≤ s.p

/-- A step that discards nothing and puts no more than one allocation behind the others. -/
lemma WsOk.grow (h : WsOk ws live snaps) (he : ws'.e = ws.e) (hf : ws'.f = ws.f + prndup bytes) :
    WsOk ws' (⟨ws.f, bytes⟩ :: live) snaps where
  apart := List.pairwise_cons.mpr ⟨fun a ha => h.below a ha, h.apart⟩
  below := by
    refine List.forall_mem_cons.mpr ⟨hf.ge, fun a ha => ?_⟩
    have hle := h.below a ha
    omega
  place s hs := by
    obtain ⟨hp, hle⟩ := h.place s hs
    exact ⟨hp, by omega⟩
  same s hs := by
    rw [he]
    exact h.same s hs
  kept s hs a ha := by
    obtain ⟨hmem, hle⟩ := h.kept s hs a ha
    exact ⟨List.mem_cons_of_mem _ hmem, hle⟩

lemma WsOk.stay (h : WsOk ws live snaps) (he : ws'.e = ws.e) (hf : ws'.f = ws.f) : WsOk ws' live snaps where
  apart := h.apart
  below a ha := by
    rw [hf]
    exact h.below a ha
  place s hs := by
    rw [hf]
    exact h.place s hs
  same s hs := by
    rw [he]
    exact h.same s hs
  kept := h.kept

lemma WsOk.allocated {q : Option Nat} (h : WsOk ws live snaps) (hrun : ws.alloc bytes = some (q, ws')) :
    WsOk ws' (q.elim live fun p => ⟨p, bytes⟩ :: live) snaps := by
  obtain ⟨-, ⟨rfl, rfl⟩ | ⟨rfl, hf, he, -⟩⟩ := ws_alloc_spec hrun
  · exact h
  · exact h.grow he hf

lemma WsOk.snapped (h : WsOk ws live snaps) (hrun : ws.snapshot = some p) : WsOk ws live (⟨p, ws, live⟩ :: snaps) := by
  obtain ⟨hr, rfl⟩ := snapshot_spec hrun
  exact {
    apart := h.apart
    below := h.below
    place := List.forall_mem_cons.mpr ⟨⟨rfl, le_rfl⟩, h.place⟩
    same := List.forall_mem_cons.mpr ⟨⟨rfl, hr⟩, h.same⟩
    kept := List.forall_mem_cons.mpr ⟨fun a ha => ⟨ha, h.below a ha⟩, h.kept⟩ }

/-- What is rounded up ends before a place of pointers where what was asked for does. -/
lemma prndup_end {q : Nat} (hp : p % 8 = 0) (hq : q % 8 = 0) : q + prndup bytes ≤ p ↔ q + bytes ≤ p := by
  unfold prndup
  omega

lemma WsRun.aligned (h : WsRun ws live snaps) : (∀ a ∈ live, a.p % 8 = 0) ∧ ∀ s ∈ snaps, s.p % 8 = 0 := by
  have hgrow : ∀ {ws ws' : Ws} {live : List WsPlace} {bytes : Nat} {q : Option Nat},
      (∀ a ∈ live, a.p % 8 = 0) → ws.alloc bytes = some (q, ws') →
        ∀ a ∈ q.elim live fun p => (⟨p, bytes⟩ : WsPlace) :: live, a.p % 8 = 0 := by
    intro ws ws' live bytes q hlive hrun
    obtain ⟨-, ⟨rfl, -⟩ | ⟨rfl, -⟩⟩ := ws_alloc_spec hrun
    · exact hlive
    · exact List.forall_mem_cons.mpr ⟨ws.f_ok, hlive⟩
  induction h with
  | init => exact ⟨fun a ha => absurd ha List.not_mem_nil, fun s hs => absurd hs List.not_mem_nil⟩
  | alloc _ _ hrun ih => exact ⟨hgrow ih.1 hrun, ih.2⟩
  | dup _ _ hrun ih => exact ⟨hgrow ih.1 hrun, ih.2⟩
  | reserve _ _ _ ih => exact ih
  | @release ws _ _ _ _ _ _ _ ih => exact ⟨List.forall_mem_cons.mpr ⟨ws.f_ok, ih.1⟩, ih.2⟩
  | @snapshot ws _ _ _ _ hrun ih =>
    obtain ⟨-, rfl⟩ := snapshot_spec hrun
    exact ⟨ih.1, List.forall_mem_cons.mpr ⟨ws.f_ok, ih.2⟩⟩
  | reset _ _ _ ih =>
    exact ⟨fun a ha => ih.1 a (List.mem_of_mem_filter ha), fun s hs => ih.2 s (List.mem_of_mem_filter hs)⟩

lemma WsOk.discarded {q : Option Nat} (h : WsOk ws live snaps)
    (haligned : (∀ a ∈ live, a.p % 8 = 0) ∧ ∀ s ∈ snaps, s.p % 8 = 0)
    (hrun : ws.reset q = some ws') :
    WsOk ws' (live.filter fun a => a.p + a.bytes ≤ q.getD 0) (snaps.filter fun s => s.p ≤ q.getD 0) := by
  obtain ⟨hf, he, -⟩ := reset_spec hrun
  have hmod : q.getD 0 % 8 = 0 := by
    rw [← hf]
    exact ws'.f_ok
  constructor
  · exact h.apart.filter _
  · intro a ha
    obtain ⟨ha, hle⟩ := List.mem_filter.mp ha
    rw [hf]
    exact (prndup_end hmod (haligned.1 a ha)).mpr (of_decide_eq_true hle)
  · intro s hs
    obtain ⟨hs, hle⟩ := List.mem_filter.mp hs
    rw [hf]
    exact ⟨(h.place s hs).1, of_decide_eq_true hle⟩
  · intro s hs
    rw [he]
    exact h.same s (List.mem_of_mem_filter hs)
  · intro s hs a ha
    obtain ⟨hs, hle⟩ := List.mem_filter.mp hs
    obtain ⟨hmem, hend⟩ := h.kept s hs a ha
    have hend' := (prndup_end (haligned.2 s hs) (haligned.1 a hmem)).mp hend
    exact ⟨List.mem_filter.mpr ⟨hmem, decide_eq_true (hend'.trans (of_decide_eq_true hle))⟩, hend⟩

lemma WsRun.ok (h : WsRun ws live snaps) : WsOk ws live snaps := by
  induction h with
  | init => exact ⟨.nil, by simp, by simp, by simp, by simp⟩
  | alloc _ _ hrun ih => exact ih.allocated hrun
  | dup _ _ hrun ih => exact ih.allocated hrun
  | reserve _ _ hrun ih =>
    obtain ⟨hf, he⟩ := reserveBytes_spec hrun
    exact ih.stay he hf
  | release _ _ hrun ih =>
    obtain ⟨hf, he, -⟩ := release_spec hrun
    exact ih.grow he hf
  | snapshot _ hrun ih => exact ih.snapped hrun
  | reset run _ hrun ih => exact ih.discarded (WsRun.aligned run) hrun

/-! ## Going back -/

/-- Going back to `s` succeeds, with the workspace as it was and all that was allocated then. -/
def Restores (ws : Ws) (live : List WsPlace) (s : WsSnap) : Prop :=
  ws.reset (some s.p) = some s.ws ∧ ∀ a ∈ s.live, a ∈ live.filter fun a => a.p + a.bytes ≤ s.p

/-- Allocations do not overlap and are not smaller than what was asked for, and a snapshot can be gone back to if
and only if the workspace was not full. -/
theorem snapshots_restored (run : WsRun ws live snaps) :
    live.Pairwise (fun a b => b.p + b.bytes ≤ a.p) ∧ (∀ a ∈ live, a.p + a.bytes ≤ ws.e) ∧
      (ws.r = none → ∀ s ∈ snaps, Restores ws live s ↔ s.ws.f < s.ws.e) := by
  have hok := WsRun.ok run
  have haligned := WsRun.aligned run
  refine ⟨?_, ?_, ?_⟩
  · refine hok.apart.imp fun hle => ?_
    exact le_trans (Nat.add_le_add_left (le_prndup _) _) hle
  · intro a ha
    have hle := hok.below a ha
    have hround := le_prndup a.bytes
    have hws := ws.le
    omega
  · intro hr s hs
    obtain ⟨hp, -⟩ := hok.place s hs
    obtain ⟨he, hsr⟩ := hok.same s hs
    have hreset := reset_isSome hr (haligned.2 s hs)
    rw [← hp, he]
    constructor
    · rintro ⟨hsome, -⟩
      exact hreset.mp (Option.isSome_iff_exists.mpr ⟨_, hsome⟩)
    · intro hlt
      obtain ⟨ws', hws'⟩ := Option.isSome_iff_exists.mp (hreset.mpr hlt)
      obtain ⟨hf', he', hr'⟩ := reset_spec hws'
      have hsame : s.ws = ws' := ws_ext (he.trans he'.symm) (hp.symm.trans hf'.symm) (hsr.trans hr'.symm)
      refine ⟨hws'.trans (congrArg some hsame.symm), fun a ha => ?_⟩
      obtain ⟨hmem, hend⟩ := hok.kept s hs a ha
      exact List.mem_filter.mpr ⟨hmem, decide_eq_true ((prndup_end (haligned.2 s hs) (haligned.1 a hmem)).mp hend)⟩

/-- A workspace of 16 bytes with one allocation and a snapshot. -/
theorem snapshots_restored_half : ∃ ws live s, WsRun ws live [s] ∧ ws.r = none ∧ s.ws.f < s.ws.e ∧
    Restores ws live s := by
  have hinit : Ws.init 16 = some (emptyWs 1) := rfl
  have run1 := WsRun.init (by decide) hinit
  obtain ⟨ws, hws⟩ : ∃ ws, (emptyWs 1).alloc 5 = some (some 0, ws) := ⟨_, rfl⟩
  have run2 := WsRun.alloc run1 (by decide) hws
  obtain ⟨-, ⟨hnone, -⟩ | ⟨-, hf, he, hr⟩⟩ := ws_alloc_spec hws
  · cases hnone
  · have hsnap : ws.snapshot = some ws.f := by simp [Ws.snapshot, hr]
    have run3 := WsRun.snapshot run2 hsnap
    have hlt : ws.f < ws.e := by
      rw [hf, he]
      decide
    exact ⟨ws, _, _, run3, hr, hlt, ((snapshots_restored run3).2.2 hr _ (List.mem_cons_self)).mpr hlt⟩

/-- A snapshot of a full workspace cannot be gone back to. -/
theorem snapshot_of_full_lost : ¬ ∀ (ws : Ws) (live : List WsPlace) (snaps : List WsSnap), WsRun ws live snaps →
    ws.r = none → ∀ s ∈ snaps, Restores ws live s := by
  intro hall
  have hinit : Ws.init 8 = some (emptyWs 0) := rfl
  have run1 := WsRun.init (by decide) hinit
  obtain ⟨ws, hws⟩ : ∃ ws, (emptyWs 0).alloc 8 = some (some 0, ws) := ⟨_, rfl⟩
  have run2 := WsRun.alloc run1 (by decide) hws
  obtain ⟨-, ⟨hnone, -⟩ | ⟨-, hf, he, hr⟩⟩ := ws_alloc_spec hws
  · cases hnone
  · have hsnap : ws.snapshot = some ws.f := by simp [Ws.snapshot, hr]
    have run3 := WsRun.snapshot run2 hsnap
    have hback := (hall _ _ _ run3 hr _ List.mem_cons_self).1
    have hlt := (reset_isSome hr ws.f_ok).mp (Option.isSome_iff_exists.mpr ⟨_, hback⟩)
    rw [hf, he] at hlt
    exact absurd hlt (by decide)

end VarnishCache.Proofs
