import VarnishCache.Ban
import VarnishCache.Expire

/-!
# The pointer from an objcore to its ban

`ban_check_object` leaves its critical section before it writes `exp` and `oc->ban`, and `BAN_RefBan` leaves its own
before its caller writes `oc->ban`. Here each of these writes is a step of its own, next to the steps of `Ban.lean`.
The silo threads of the persistent stevedore take references to bans, and sessions and purges that hold a reference to
an objcore write the `exp` of its object.
-/

namespace VarnishCache

/-- What is still to be written for an objcore whose list of objcores has been changed: `oc->ban = b`, or `EXP_Clr`
and then `oc->ban = NULL`, or only the latter. -/
inductive BanLate where
  | move (b : Nat)
  | clear
  | null
  deriving DecidableEq

/-- Where `smp_load_seg` is with an objcore: in the loop of `BAN_RefBan` at ban `b`, before the write of `oc->ban`, or
before `HSH_Insert`. -/
inductive BanLoad where
  | no
  | walking (x : Nat) (t0 : Int) (b : Nat)
  | storing (x : Nat)
  | stored (x : Nat)
  deriving DecidableEq

/-- A silo thread with its tail reference. -/
structure BanSilo where
  tail : Nat
  load : BanLoad

/-- What a session or a purge does with a reference to an objcore: `setting` is `VRT_l_obj_ttl` before `EXP_Set_ttl`,
`purging` is `HSH_Purge` before it writes `exp`. -/
inductive BanUser where
  | idle
  | has (x : Nat)
  | setting (x : Nat) (v : Int)
  | purging (x : Nat) (ttl grace : Int)
  deriving DecidableEq

/-- `time` has the times of the specs of bans, `loading` says that `oc->objhead` is `NULL` still, and `refs` has the
references to an objcore that sessions and purges have. -/
structure BanRefState where
  core : BanState
  time : Nat → Int
  exp : Nat → Exp
  late : Nat → Option BanLate
  silos : Nat → Option BanSilo
  loading : Nat → Bool
  refs : Nat → Nat
  users : Nat → BanUser

inductive BanRefAct where
  | core (act : BanAct)
  | insert (spec : List BanTest) (dups : Bool) (t0 : Int)
  | newObject (x : Nat) (e : Exp)
  | commit (h : BanHolder)
  | clear (h : BanHolder)
  | store (h : BanHolder)
  | tailRef (t : Nat)
  | tailDeref (t : Nat)
  | load (t x : Nat) (t0 : Int) (http : BanHttp) (e : Exp)
  | refWalk (t : Nat)
  | refBan (t : Nat)
  | refStore (t : Nat)
  | hshInsert (t oh : Nat)
  | take (s x : Nat)
  | release (s : Nat)
  | setTtl (s : Nat) (a now : Int)
  | expSetTtl (s : Nat)
  | purge (s x : Nat) (ttl grace : Int)
  | purgeStore (s : Nat)

namespace BanRefState

open BanState

def setExp (st : BanRefState) (x : Nat) (e : Exp) : BanRefState := { st with exp := Function.update st.exp x e }

def setLate (st : BanRefState) (x : Nat) (l : Option BanLate) : BanRefState :=
  { st with late := Function.update st.late x l }

def setSilo (st : BanRefState) (t : Nat) (p : Option BanSilo) : BanRefState :=
  { st with silos := Function.update st.silos t p }

def setLoading (st : BanRefState) (x : Nat) (l : Bool) : BanRefState :=
  { st with loading := Function.update st.loading x l }

def setRefs (st : BanRefState) (x n : Nat) : BanRefState := { st with refs := Function.update st.refs x n }

def setUser (st : BanRefState) (s : Nat) (u : BanUser) : BanRefState :=
  { st with users := Function.update st.users s u }

/-- `BAN_Compile`: the bans from 1 to `n` have been read from silos. -/
def init (n : Nat) (ban : Nat → Ban) (time : Nat → Int) : BanRefState :=
  { core := { BanState.init with
      first := n, ban := fun b => { ban b with refcount := 0, objcore := [], lurk := 0 } }
    time := time, exp := fun _ => { entered := 0, ttl := 0, grace := 0, keep := 0 }, late := fun _ => none
    silos := fun _ => none, loading := fun _ => false, refs := fun _ => 0, users := fun _ => .idle }

/-- The call of `ban_check_object` of a session or the lurker. -/
def check (st : BanRefState) : BanHolder → Option BanCheck
  | .sess s => (st.core.sess s).bind BanSess.check
  | .lurker =>
    match st.core.lurker with
    | .checking _ _ c => some c
    | _ => none

/-- The lurker comes to an objcore that `BAN_RefBan` has put on the list and that has no objhead. -/
def lurkerMeetsLoad (st : BanRefState) : Bool :=
  match st.core.lurker with
  | .working b _ =>
    match (st.core.ban b).objcore with
    | [] => false
    | x :: _ => st.loading x
  | _ => false

/-- Whether the lurker could not test all bans. -/
def lurkUnsure (st : BanRefState) : Bool :=
  match st.core.lurker with
  | .checking _ _ c => (st.late c.oc).isNone && (st.core.checkFinish c).any (fun r => r.2 = .unsure)
  | _ => false

/-- The steps of `Ban.lean` that stay as they are: an objcore goes when no reference is left, a lookup does not check
an object without time, and the lurker asserts that there is an objhead. -/
def allows (st : BanRefState) : BanAct → Bool
  | .insert _ _ => false
  | .attach _ => false
  | .finish _ => false
  | .unlink x => st.refs x = 0 ∧ st.loading x = false
  | .destroy x => st.refs x = 0 ∧ st.loading x = false
  | .check _ x => decide (0 < (st.exp x).ttl)
  | .look => !st.lurkerMeetsLoad
  | .lurkFinish => st.lurkUnsure
  | _ => true

/-- The critical section of `BAN_Insert`, with the time of the new ban. -/
def banInsert (st : BanRefState) (spec : List BanTest) (dups : Bool) (t0 : Int) : BanRefState :=
  { st with core := st.core.banInsert spec dups, time := Function.update st.time (st.core.first + 1) t0 }

/-- `STV_MkObject`. -/
def newObject (st : BanRefState) (x : Nat) (e : Exp) : Option BanRefState :=
  (st.core.banNewObjCore x).map (fun core => { st with core := core }.setExp x e)

/-- The critical section of `ban_check_object`. -/
def commit (st : BanRefState) (h : BanHolder) : Option BanRefState := do
  let c ← st.check h
  if (st.late c.oc).isSome then none
  else
    let (core, v) ← st.core.checkFinish c
    match v with
    | .unsure => none
    | .notBanned => some ({ st with core := { core with ocs := st.core.ocs } }.setLate c.oc (some (.move c.b0)))
    | .banned => some ({ st with core := { core with ocs := st.core.ocs } }.setLate c.oc (some .clear))

def clear (st : BanRefState) (h : BanHolder) : Option BanRefState := do
  let c ← st.check h
  if st.late c.oc = some .clear then some ((st.setExp c.oc (st.exp c.oc).clr).setLate c.oc (some .null))
  else none

/-- `ban_check_object` returns. -/
def endCheck (core : BanState) (oc : BanOc) : BanHolder → Option BanState
  | .sess s => (core.sess s).map (fun σ => core.setSess s (some { σ with check := none }))
  | .lurker =>
    match core.lurker with
    | .checking b b0 _ => some { core.setMtx oc.objhead none with lurker := .working b b0 }
    | _ => none

/-- The value for `oc->ban` when it is written. -/
def BanLate.value : BanLate → Option (Option Nat)
  | .move b => some (some b)
  | .clear => none
  | .null => some none

def store (st : BanRefState) (h : BanHolder) : Option BanRefState := do
  let c ← st.check h
  let l ← st.late c.oc
  let b ← BanLate.value l
  let oc ← st.core.ocs c.oc
  let core ← endCheck (st.core.setOc c.oc (some { oc with ban := b })) oc h
  some ({ st with core := core }.setLate c.oc none)

def banTailRef (st : BanRefState) (t : Nat) : Option BanRefState :=
  if (st.silos t).isSome then none
  else
    let core := st.core.setBan st.core.last (fun b => { b with refcount := b.refcount + 1 })
    some ({ st with core := core }.setSilo t (some { tail := st.core.last, load := .no }))

def banTailDeref (st : BanRefState) (t : Nat) : Option BanRefState := do
  let p ← st.silos t
  if p.load ≠ .no then none
  else
    let core := st.core.setBan p.tail (fun b => { b with refcount := b.refcount - 1 })
    some ({ st with core := core }.setSilo t none)

/-- `smp_load_seg` makes an objcore and calls `BAN_RefBan`. -/
def loadObj (st : BanRefState) (t x : Nat) (t0 : Int) (http : BanHttp) (e : Exp) : Option BanRefState := do
  let p ← st.silos t
  if p.load ≠ .no ∨ (st.core.ocs x).isSome then none
  else
    let oc : BanOc := { objhead := 0, busy := false, onHead := false, lurk := 0, ban := none, http := http }
    let st := { st with core := st.core.setOc x (some oc) }
    some (((st.setExp x e).setLoading x true).setSilo t (some { p with load := .walking x t0 st.core.first }))

/-- A round of the loop of `BAN_RefBan`. -/
def refWalk (st : BanRefState) (t : Nat) : Option BanRefState := do
  let p ← st.silos t
  match p.load with
  | .walking x t0 b =>
    if st.time b ≤ t0 ∨ b = p.tail then none
    else some (st.setSilo t (some { p with load := .walking x t0 (b - 1) }))
  | _ => none

/-- The critical section of `BAN_RefBan`. -/
def banRefBan (st : BanRefState) (t : Nat) : Option BanRefState := do
  let p ← st.silos t
  match p.load with
  | .walking x t0 b =>
    if st.time b ≤ t0 ∨ b = p.tail then
      if st.time b ≠ t0 then none
      else
        let core := st.core.setBan b (fun y => { y with refcount := y.refcount + 1, objcore := y.objcore ++ [x] })
        some (({ st with core := core }.setLate x (some (.move b))).setSilo t (some { p with load := .storing x }))
    else none
  | _ => none

def refStore (st : BanRefState) (t : Nat) : Option BanRefState := do
  let p ← st.silos t
  match p.load with
  | .storing x => do
    let l ← st.late x
    let b ← BanLate.value l
    let oc ← st.core.ocs x
    let core := st.core.setOc x (some { oc with ban := b })
    some (({ st with core := core }.setLate x none).setSilo t (some { p with load := .stored x }))
  | _ => none

/-- `HSH_Insert`; the reference of the silo thread goes on to the LRU list. -/
def hshInsert (st : BanRefState) (t oh : Nat) : Option BanRefState := do
  let p ← st.silos t
  match p.load with
  | .stored x => do
    let oc ← st.core.ocs x
    if (st.core.mtx oh).isSome then none
    else
      let core := st.core.setOc x (some { oc with objhead := oh, onHead := true })
      some (({ st with core := core }.setLoading x false).setSilo t (some { p with load := .no }))
  | _ => none

/-- `HSH_Lookup` has found an object and takes a reference. -/
def take (st : BanRefState) (s x : Nat) : Option BanRefState := do
  let σ ← st.core.sess s
  let oc ← st.core.ocs x
  if σ.check.isSome ∨ oc.objhead ≠ σ.objhead ∨ oc.onHead = false ∨ oc.busy ∨ st.users s ≠ .idle then none
  else some ((st.setRefs x (st.refs x + 1)).setUser s (.has x))

def release (st : BanRefState) (s : Nat) : Option BanRefState :=
  match st.users s with
  | .has x => some ((st.setRefs x (st.refs x - 1)).setUser s .idle)
  | _ => none

/-- `VRT_l_obj_ttl` at time `now`, up to the call of `EXP_Set_ttl`. -/
def vrtSetObjTtl (st : BanRefState) (s : Nat) (a now : Int) : Option BanRefState :=
  match st.users s with
  | .has x => some (st.setUser s (.setting x (if 0 < a then a + (now - (st.exp x).entered) else a)))
  | _ => none

def expSetTtl (st : BanRefState) (s : Nat) : Option BanRefState :=
  match st.users s with
  | .setting x v => some ((st.setExp x ((st.exp x).setTtl v)).setUser s (.has x))
  | _ => none

/-- `HSH_Purge` takes a reference to an objcore of the objhead. -/
def hshPurge (st : BanRefState) (s x : Nat) (ttl grace : Int) : Option BanRefState := do
  let oc ← st.core.ocs x
  if (st.core.mtx oc.objhead).isSome ∨ oc.onHead = false ∨ oc.busy ∨ st.users s ≠ .idle then none
  else
    let ttl := if 0 < ttl then ttl else -1
    let grace := if 0 < grace then grace else -1
    some ((st.setRefs x (st.refs x + 1)).setUser s (.purging x ttl grace))

/-- `HSH_Purge` writes the timers of the object and drops its reference. -/
def purgeStore (st : BanRefState) (s : Nat) : Option BanRefState :=
  match st.users s with
  | .purging x ttl grace =>
    some (((st.setExp x { st.exp x with ttl := ttl, grace := grace }).setRefs x (st.refs x - 1)).setUser s .idle)
  | _ => none

def exec (re : String → String → Bool) (st : BanRefState) : BanRefAct → Option BanRefState
  | .core act => if st.allows act then (st.core.exec re act).map (fun r => { st with core := r.1 }) else none
  | .insert spec dups t0 => some (st.banInsert spec dups t0)
  | .newObject x e => st.newObject x e
  | .commit h => st.commit h
  | .clear h => st.clear h
  | .store h => st.store h
  | .tailRef t => st.banTailRef t
  | .tailDeref t => st.banTailDeref t
  | .load t x t0 http e => st.loadObj t x t0 http e
  | .refWalk t => st.refWalk t
  | .refBan t => st.banRefBan t
  | .refStore t => st.refStore t
  | .hshInsert t oh => st.hshInsert t oh
  | .take s x => st.take s x
  | .release s => st.release s
  | .setTtl s a now => st.vrtSetObjTtl s a now
  | .expSetTtl s => st.expSetTtl s
  | .purge s x ttl grace => st.hshPurge s x ttl grace
  | .purgeStore s => st.purgeStore s

end BanRefState

/-- The states after runs whose steps all meet `P`, from the bans that were read from silos. -/
inductive BanRefReach (re : String → String → Bool) (P : BanRefState → BanRefAct → Prop) : BanRefState → Prop
  | init {n : Nat} {ban : Nat → Ban} {time : Nat → Int} (hn : 1 ≤ n) : BanRefReach re P (.init n ban time)
  | step {st st' : BanRefState} {act : BanRefAct} (h : BanRefReach re P st) (hP : P st act)
      (hexec : st.exec re act = some st') : BanRefReach re P st'

end VarnishCache
