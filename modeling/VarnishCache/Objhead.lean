import Mathlib.Data.List.Basic
import Mathlib.Logic.Function.Basic
import Mathlib.Tactic

/-!
# Objheads, objcores and waiting lists

Model of `HSH_Lookup`, `hsh_rush`, `HSH_Unbusy`, `HSH_Ref` and `HSH_Deref` of `bin/varnishd/cache_hash.c`
as any number of sessions and background threads interleave. A critical section under `oh->mtx` is one
step, and so are `hash->lookup` and `hash->deref`, which see and keep a map from digests to objheads.
`HSH_Drop` is `HSH_Unbusy` and then `HSH_Deref`. Memory has numbers; `none` is memory that is not in use.
A failed assertion, like a step that cannot be taken, is `none`. Statistics are left out.
-/

namespace VarnishCache

structure Objcore where
  objhead : Nat
  busy : Bool
  refcnt : Nat
  deriving DecidableEq

structure Objhead (D : Type) where
  digest : D
  refcnt : Nat
  objcs : List Nat
  waitinglist : Option (List Nat)

/-- Where a session is. `waiting` has `sp->hash_objhead` set; it is parked as long as it is on the list
of the objhead. `has` owns a reference to an objcore, and so do the LRU lists, purges and the lurker,
which count as sessions here. `dropping` is in `HSH_Deref` with the last reference given up. -/
inductive HshSess where
  | idle
  | lookup (oh : Nat)
  | hit (oh oc : Nat)
  | waiting (oh : Nat)
  | has (oc : Nat)
  | dropping (oc : Nat)
  deriving DecidableEq

/-- The objhead that the session has a reference to. -/
def HshSess.objhead : HshSess → Option Nat
  | .lookup oh => some oh
  | .hit oh _ => some oh
  | .waiting oh => some oh
  | _ => none

/-- The objcore that the session has a reference to. -/
def HshSess.objcore : HshSess → Option Nat
  | .hit _ oc => some oc
  | .has oc => some oc
  | _ => none

structure HshState (D : Type) where
  index : D → Option Nat
  heads : Nat → Option (Objhead D)
  cores : Nat → Option Objcore
  sess : Nat → HshSess

/-- What a session brings to the loop of `HSH_Lookup` and what it finds out about each objcore: whether
the Vary of a busy one matches, and for the object of any other whether its ttl is above zero, a ban
hits it, its Vary matches, and it is valid or in grace, with the time at which it ceases to be valid. -/
structure LookupEnv where
  hashIgnoreBusy : Bool
  hashAlwaysMiss : Bool
  esiLevel : Nat
  healthy : Bool
  busyVary : Nat → Bool
  live : Nat → Bool
  banned : Nat → Bool
  vary : Nat → Bool
  valid : Nat → Bool
  inGrace : Nat → Bool
  expires : Nat → Int

/-- The variables of the loop of `HSH_Lookup`. -/
structure LookupScan where
  oc : Option Nat
  busyOc : Option Nat
  graceOc : Option Nat

/-- The least expired object in grace. -/
def graceBetter (env : LookupEnv) (graceOc : Option Nat) (oc : Nat) : Bool :=
  match graceOc with
  | none => true
  | some g => decide (env.expires g < env.expires oc)

/-- The loop of `HSH_Lookup` over the objcores of `oh`. -/
def hshScan (env : LookupEnv) (oh refcnt : Nat) (cores : Nat → Option Objcore) :
    List Nat → Option Nat → Option Nat → Option LookupScan
  | [], busyOc, graceOc => some ⟨none, busyOc, graceOc⟩
  | oc :: objcs, busyOc, graceOc =>
    match cores oc with
    | none => none
    | some o =>
      if refcnt ≤ 1 ∨ o.objhead ≠ oh then none
      else if o.busy then
        if env.hashIgnoreBusy || env.hashAlwaysMiss then hshScan env oh refcnt cores objcs busyOc graceOc
        else if !env.busyVary oc then hshScan env oh refcnt cores objcs busyOc graceOc
        else hshScan env oh refcnt cores objcs (some oc) graceOc
      else if !env.live oc then hshScan env oh refcnt cores objcs busyOc graceOc
      else if env.banned oc then hshScan env oh refcnt cores objcs busyOc graceOc
      else if !env.vary oc then hshScan env oh refcnt cores objcs busyOc graceOc
      else if env.valid oc then some ⟨some oc, busyOc, graceOc⟩
      else if env.inGrace oc && graceBetter env graceOc oc then
        hshScan env oh refcnt cores objcs busyOc (some oc)
      else hshScan env oh refcnt cores objcs busyOc graceOc

/-- The object that `HSH_Lookup` likes, after its tests for grace. -/
def LookupScan.liked (scan : LookupScan) (env : LookupEnv) : Option Nat :=
  let oc := if scan.oc.isNone && scan.graceOc.isSome && (scan.busyOc.isSome || !env.healthy) then scan.graceOc
    else scan.oc
  if env.hashAlwaysMiss then none else oc

/-- What `hsh_rush` depends on: the parameter `rush_exponent`, which is at least two, and the sessions
that `WRK_QueueSession` would queue. -/
structure Rush where
  exponent : Nat
  queued : Nat → Bool
  two_le : 2 ≤ exponent

/-- The loop of `hsh_rush`: what is left of the list, and the session that could not be queued. -/
def rushLoop (queued : Nat → Bool) : Nat → List Nat → List Nat × Option Nat
  | 0, wl => (wl, none)
  | _ + 1, [] => ([], none)
  | u + 1, sp :: wl => if queued sp then rushLoop queued u wl else (wl, some sp)

namespace HshState

variable {D : Type} [DecidableEq D]

def init : HshState D :=
  { index := fun _ => none, heads := fun _ => none, cores := fun _ => none, sess := fun _ => .idle }

def setHead (st : HshState D) (oh : Nat) (h : Option (Objhead D)) : HshState D :=
  { st with heads := Function.update st.heads oh h }

def setCore (st : HshState D) (x : Nat) (o : Option Objcore) : HshState D :=
  { st with cores := Function.update st.cores x o }

def setSess (st : HshState D) (s : Nat) (σ : HshSess) : HshState D :=
  { st with sess := Function.update st.sess s σ }

/-- `hash->lookup`; `noh` is the worker's `nobjhead`. -/
def hashLookup (st : HshState D) (digest : D) (noh : Nat) : Option (HshState D × Nat) :=
  match st.index digest with
  | some oh => do
    let h ← st.heads oh
    some (st.setHead oh (some { h with refcnt := h.refcnt + 1 }), oh)
  | none =>
    if (st.heads noh).isSome then none
    else
      let st := { st with index := Function.update st.index digest (some noh) }
      some (st.setHead noh (some { digest := digest, refcnt := 1, objcs := [], waitinglist := none }), noh)

/-- `hash->deref`, and `HSH_DeleteObjHead` when no reference is left. -/
def hashDeref (st : HshState D) (oh : Nat) : Option (HshState D) := do
  let h ← st.heads oh
  if h.refcnt = 0 then none
  else if h.refcnt = 1 then
    if h.objcs ≠ [] then none
    else
      let st := { st with index := Function.update st.index h.digest none }
      some (st.setHead oh none)
  else some (st.setHead oh (some { h with refcnt := h.refcnt - 1 }))

/-- `hsh_rush`, where there is a waiting list. A session that cannot be queued is deleted. -/
def hshRush (st : HshState D) (oh : Nat) (h : Objhead D) (rush : Rush) : HshState D :=
  match h.waitinglist with
  | none => st.setHead oh (some h)
  | some wl =>
    let (wl, dropped) := rushLoop rush.queued rush.exponent wl
    let st := st.setHead oh (some { h with waitinglist := if wl = [] then none else some wl })
    match dropped with
    | none => st
    | some sp => st.setSess sp .idle

/-- `HSH_Lookup` up to its critical section, for a session that does not come off a waiting list. -/
def lookupEnter (st : HshState D) (s : Nat) (digest : D) (noh : Nat) : Option (HshState D) :=
  if st.sess s ≠ .idle then none
  else (st.hashLookup digest noh).map (fun r => r.1.setSess s (.lookup r.2))

/-- `HSH_Lookup` up to its critical section, for a session that comes off a waiting list or polls. -/
def lookupAgain (st : HshState D) (s : Nat) : Option (HshState D) :=
  match st.sess s with
  | .waiting oh => do
    let h ← st.heads oh
    if s ∈ h.waitinglist.getD [] then none else some (st.setSess s (.lookup oh))
  | _ => none

/-- The critical section of `HSH_Lookup`; `noc` is the worker's `nobjcore`. -/
def lookupScan (st : HshState D) (s : Nat) (env : LookupEnv) (noc : Nat) : Option (HshState D) :=
  match st.sess s with
  | .lookup oh => do
    let h ← st.heads oh
    if h.refcnt = 0 then none
    else
      let scan ← hshScan env oh h.refcnt st.cores h.objcs none none
      match scan.liked env with
      | some oc => do
        let o ← st.cores oc
        if h.refcnt ≤ 1 ∨ o.objhead ≠ oh then none
        else some ((st.setCore oc (some { o with refcnt := o.refcnt + 1 })).setSess s (.hit oh oc))
      | none =>
        if scan.busyOc.isSome then
          if env.esiLevel = 0 then
            let wl := h.waitinglist.getD [] ++ [s]
            some ((st.setHead oh (some { h with waitinglist := some wl })).setSess s (.waiting oh))
          else some (st.setSess s (.waiting oh))
        else if (st.cores noc).isSome then none
        else
          let st := st.setCore noc (some { objhead := oh, busy := true, refcnt := 1 })
          some ((st.setHead oh (some { h with objcs := h.objcs ++ [noc] })).setSess s (.has noc))
  | _ => none

/-- The end of `HSH_Lookup` that has found an object. -/
def lookupHit (st : HshState D) (s : Nat) : Option (HshState D) :=
  match st.sess s with
  | .hit oh oc => do
    let h ← st.heads oh
    if h.refcnt ≤ 1 then none
    else
      let st ← st.hashDeref oh
      some (st.setSess s (.has oc))
  | _ => none

/-- `HSH_Ref`, `HSH_Purge` and the lurker: one more reference to an objcore. -/
def hshRef (st : HshState D) (s x : Nat) : Option (HshState D) :=
  if st.sess s ≠ .idle then none
  else do
    let o ← st.cores x
    if o.refcnt = 0 then none
    else some ((st.setCore x (some { o with refcnt := o.refcnt + 1 })).setSess s (.has x))

def hshUnbusy (st : HshState D) (s : Nat) (rush : Rush) : Option (HshState D) :=
  match st.sess s with
  | .has x => do
    let o ← st.cores x
    let h ← st.heads o.objhead
    if o.busy = false ∨ o.refcnt = 0 ∨ h.refcnt = 0 then none
    else
      let st := st.setCore x (some { o with busy := false })
      some (st.hshRush o.objhead { h with objcs := x :: h.objcs.erase x } rush)
  | _ => none

/-- `HSH_Deref` to the end of its critical section. -/
def hshDeref (st : HshState D) (s : Nat) (rush : Rush) : Option (HshState D) :=
  match st.sess s with
  | .has x => do
    let o ← st.cores x
    let h ← st.heads o.objhead
    if h.refcnt = 0 ∨ o.refcnt = 0 then none
    else
      let st := st.setCore x (some { o with refcnt := o.refcnt - 1 })
      if o.refcnt = 1 then
        let st := st.setSess s (.dropping x)
        some (st.hshRush o.objhead { h with objcs := h.objcs.erase x } rush)
      else some ((st.setSess s .idle).hshRush o.objhead h rush)
  | _ => none

/-- The rest of `HSH_Deref`, which frees the objcore and drops its reference to the objhead. -/
def hshFree (st : HshState D) (s : Nat) : Option (HshState D) :=
  match st.sess s with
  | .dropping x => do
    let o ← st.cores x
    let st := (st.setCore x none).setSess s .idle
    st.hashDeref o.objhead
  | _ => none

end HshState

inductive HshAct (D : Type) where
  | enter (s : Nat) (digest : D) (noh : Nat)
  | again (s : Nat)
  | scan (s : Nat) (env : LookupEnv) (noc : Nat)
  | leave (s : Nat)
  | ref (s x : Nat)
  | unbusy (s : Nat) (rush : Rush)
  | deref (s : Nat) (rush : Rush)
  | free (s : Nat)

namespace HshState

variable {D : Type} [DecidableEq D]

def step (st : HshState D) : HshAct D → Option (HshState D)
  | .enter s digest noh => st.lookupEnter s digest noh
  | .again s => st.lookupAgain s
  | .scan s env noc => st.lookupScan s env noc
  | .leave s => st.lookupHit s
  | .ref s x => st.hshRef s x
  | .unbusy s rush => st.hshUnbusy s rush
  | .deref s rush => st.hshDeref s rush
  | .free s => st.hshFree s

def run (st : HshState D) : List (HshAct D) → Option (HshState D)
  | [] => some st
  | a :: acts => (st.step a).bind (fun st' => st'.run acts)

/-- The waiting list that `HSH_Unbusy` or `HSH_Deref` of session `s` finds, and its objhead. -/
def waitersAt (st : HshState D) (s : Nat) : Option (Nat × List Nat) :=
  match st.sess s with
  | .has x => do
    let o ← st.cores x
    let h ← st.heads o.objhead
    let wl ← h.waitinglist
    some (o.objhead, wl)
  | _ => none

/-- What a step runs `hsh_rush` with. -/
def rushed (st : HshState D) : HshAct D → Option (Nat × List Nat × Rush)
  | .unbusy s rush => (st.waitersAt s).map (fun r => (r.1, r.2, rush))
  | .deref s rush => (st.waitersAt s).map (fun r => (r.1, r.2, rush))
  | _ => none

end HshState

end VarnishCache
