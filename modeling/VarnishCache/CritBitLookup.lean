import VarnishCache.CritBitMap

/-!
# Concurrent lookups

Model of `hcb_lookup` and `hcb_deref` run by any number of sessions. A walk without `hcb_mtx` takes
one step for every pointer it reads; a critical section is one step. Memory that cools off stays
readable, so nothing is freed here and no address is used twice.
-/

namespace VarnishCache

/-- Where a session is in `hcb_lookup`. -/
inductive LookupPc where
  | idle
  | walk (pp : Ptr)
  | lock
  | inserted (oh : Nat)
  | found (oh : Nat)
  deriving DecidableEq

structure HcbSystem where
  hcb : Hcb
  nobjhead : Nat → Option Nat
  nhashpriv : Nat → Option Nat
  digest : Nat → Digest
  pc : Nat → LookupPc
  /-- `oh->mtx` is held by an `hcb_deref` that has counted down to zero. -/
  mtx : Nat → Bool
  /-- References that lookups have returned and nobody has given back. -/
  refs : Nat → Nat

/-- `prealloc` is `HSH_Prealloc` with `hcb_prep`, `start` enters `hcb_lookup` and reads the root, `walk`
is one turn of the walk, `insert` is the retry under `hcb_mtx`, `leave` and `raise` are the two ends of
`hcb_lookup`, and `deref` and `delete` are the two halves of `hcb_deref`. -/
inductive LookupAct where
  | prealloc (s oh i : Nat)
  | start (s : Nat) (d : Digest)
  | walk (s : Nat)
  | insert (s : Nat)
  | leave (s : Nat)
  | raise (s : Nat)
  | deref (oh : Nat)
  | delete (oh : Nat)

namespace HcbSystem

def init : HcbSystem :=
  { hcb := .start, nobjhead := fun _ => none, nhashpriv := fun _ => none, digest := fun _ _ => 0
    pc := fun _ => .idle, mtx := fun _ => false, refs := fun _ => 0 }

def setPc (σ : HcbSystem) (s : Nat) (pc : LookupPc) : HcbSystem := { σ with pc := Function.update σ.pc s pc }

/-- `oh->refcnt`, `none` when there is no such objhead. -/
def refcnt (σ : HcbSystem) (oh : Nat) : Option Nat := (σ.hcb.ohs oh).map ObjHead.refcnt

def preallocHead (σ : HcbSystem) (s oh : Nat) : HcbSystem :=
  match σ.nobjhead s with
  | some _ => σ
  | none =>
    { σ with
      hcb := σ.hcb.setOh oh { digest := fun _ => 0, refcnt := 1 }
      nobjhead := Function.update σ.nobjhead s (some oh) }

def preallocY (σ : HcbSystem) (s i : Nat) : HcbSystem :=
  match σ.nhashpriv s with
  | some _ => σ
  | none => { σ with hcb := σ.hcb.allocY i, nhashpriv := Function.update σ.nhashpriv s (some i) }

/-- `HSH_Lookup` copies `sp->digest` into the objhead in hand; the walk then reads `root->origo`. -/
def start (σ : HcbSystem) (s : Nat) (d : Digest) : Option HcbSystem := do
  let noh ← σ.nobjhead s
  let o ← σ.hcb.ohs noh
  some { σ with
    hcb := σ.hcb.setOh noh { o with digest := d }
    digest := Function.update σ.digest s d
    pc := Function.update σ.pc s (.walk σ.hcb.origo) }

/-- What the walk does with the pointer it has just read, `has_lock` being zero. -/
def walk (σ : HcbSystem) (s : Nat) (pp : Ptr) : Option HcbSystem := do
  let noh ← σ.nobjhead s
  match pp with
  | .y i =>
    let o ← σ.hcb.ohs noh
    let pp' ← σ.hcb.follow o.digest i
    some (σ.setPc s (.walk pp'))
  | _ =>
    match ← σ.hcb.arrive (σ.nhashpriv s) noh false pp with
    | (_, _, none) => some (σ.setPc s .lock)
    | (_, _, some oh) => if oh = noh then none else some (σ.setPc s (.found oh))

/-- The turn of `hcb_lookup` with `with_lock` set. The worker gives up its objhead where that goes into
the tree; `HSH_Lookup` does it when it sees the result, and nobody else looks at the field. -/
def insert (σ : HcbSystem) (s : Nat) : Option HcbSystem := do
  let noh ← σ.nobjhead s
  let _ ← σ.nhashpriv s
  if σ.refcnt noh ≠ some 1 then none
  let (m, np, oh) ← σ.hcb.hcbInsert (σ.nhashpriv s) noh true
  let oh ← oh
  let σ := { σ with hcb := m, nhashpriv := Function.update σ.nhashpriv s np }
  if oh = noh then
    some { σ with nobjhead := Function.update σ.nobjhead s none, pc := Function.update σ.pc s (.inserted oh) }
  else some (σ.setPc s (.found oh))

def leave (σ : HcbSystem) (s oh : Nat) : Option HcbSystem := do
  let u ← σ.refcnt oh
  if u = 0 then none
  let σ := { σ with refs := Function.update σ.refs oh (σ.refs oh + 1) }
  some (σ.setPc s .idle)

/-- The end of `hcb_lookup` under `oh->mtx`, with whether the objhead is returned. -/
def raise (σ : HcbSystem) (s oh : Nat) : Option (HcbSystem × Bool) := do
  let o ← σ.hcb.ohs oh
  if 0 < o.refcnt then
    let σ := { σ with
      hcb := σ.hcb.setOh oh { o with refcnt := o.refcnt + 1 }
      refs := Function.update σ.refs oh (σ.refs oh + 1) }
    some (σ.setPc s .idle, true)
  else some (σ.setPc s .lock, false)

/-- `hcb_deref` up to its test for zero. The mutex stays held when the count is zero. -/
def deref (σ : HcbSystem) (oh : Nat) : Option HcbSystem := do
  let o ← σ.hcb.ohs oh
  if o.refcnt = 0 then none
  some { σ with
    hcb := σ.hcb.setOh oh { o with refcnt := o.refcnt - 1 }
    mtx := Function.update σ.mtx oh (o.refcnt - 1 = 0)
    refs := Function.update σ.refs oh (σ.refs oh - 1) }

/-- The rest of `hcb_deref`: the critical section under `hcb_mtx` and the release of `oh->mtx`. -/
def delete (σ : HcbSystem) (oh : Nat) : Option HcbSystem :=
  (σ.hcb.derefDelete oh).map (fun m => { σ with hcb := m, mtx := Function.update σ.mtx oh false })

/-- When an action can be taken: the session is there, allocated memory was never used, a mutex to be
taken is free, and a reference that is given back was returned by a lookup. -/
def Enabled (σ : HcbSystem) : LookupAct → Prop
  | .prealloc s oh i => σ.pc s = .idle ∧ σ.hcb.ohs oh = none ∧ σ.hcb.ys i = none
  | .start s _ => σ.pc s = .idle ∧ (σ.nobjhead s).isSome ∧ (σ.nhashpriv s).isSome
  | .walk s => ∃ pp, σ.pc s = .walk pp
  | .insert s => σ.pc s = .lock
  | .leave s => ∃ oh, σ.pc s = .inserted oh
  | .raise s => ∃ oh, σ.pc s = .found oh ∧ σ.mtx oh = false
  | .deref oh => 0 < σ.refs oh ∧ σ.mtx oh = false
  | .delete oh => σ.mtx oh = true

/-- The state after an action with the session that returned from `hcb_lookup` in it, and with what. -/
def exec (σ : HcbSystem) : LookupAct → Option (HcbSystem × Option (Nat × Nat))
  | .prealloc s oh i => some ((σ.preallocHead s oh).preallocY s i, none)
  | .start s d => (σ.start s d).map (·, none)
  | .walk s =>
    match σ.pc s with
    | .walk pp => (σ.walk s pp).map (·, none)
    | _ => none
  | .insert s => (σ.insert s).map (·, none)
  | .leave s =>
    match σ.pc s with
    | .inserted oh => (σ.leave s oh).map (·, some (s, oh))
    | _ => none
  | .raise s =>
    match σ.pc s with
    | .found oh => (σ.raise s oh).map (fun r => (r.1, if r.2 then some (s, oh) else none))
    | _ => none
  | .deref oh => (σ.deref oh).map (·, none)
  | .delete oh => (σ.delete oh).map (·, none)

/-- The states that interleaved sessions reach. -/
inductive Reach : HcbSystem → Prop
  | init : Reach init
  | step {σ σ' : HcbSystem} {a : LookupAct} {r : Option (Nat × Nat)} :
      Reach σ → σ.Enabled a → σ.exec a = some (σ', r) → Reach σ'

/-- An objhead in a session's hand that has not been put into the tree. -/
def Private (σ : HcbSystem) (oh : Nat) : Prop := ∃ s, σ.nobjhead s = some oh

end HcbSystem

end VarnishCache
