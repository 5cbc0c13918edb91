import Mathlib.Data.List.Basic
import Mathlib.Logic.Function.Basic
import Mathlib.Tactic

/-!
# Bans and the ban lurker

Model of `bin/varnishd/cache_ban.c` as sessions and the lurker thread interleave. Bans have numbers, the
first one being 1, and `ban_head` is the bans from `first` (the newest, `ban_start`) down to `last`: bans
enter at the front and leave at the end only, so `VTAILQ_NEXT` and `VTAILQ_PREV` are the numbers below and
above. A critical section is one step, and so is each round of a loop that runs without `ban_mtx`. A
failed assertion, like a step that cannot be taken, is `none`. Statistics are left out.
-/

namespace VarnishCache

/-- The variables of `ban_vars.h`. -/
inductive BanArg where
  | reqUrl
  | reqHttp (name : String)
  | objHttp (name : String)
  | objStatus
  deriving DecidableEq

/-- `PVAR_REQ`. -/
def BanArg.isReq : BanArg → Bool
  | .reqUrl => true
  | .reqHttp _ => true
  | .objHttp _ => false
  | .objStatus => false

inductive BanOper where
  | eq
  | neq
  | regex
  | notRegex
  deriving DecidableEq

structure BanTest where
  arg1 : BanArg
  oper : BanOper
  arg2 : String
  deriving DecidableEq

/-- What a ban can see of a `struct http`. -/
structure BanHttp where
  url : Option String
  hdr : String → Option String
  status : Nat

/-- One test of `ban_evaluate`; `re` says whether a regular expression matches a string. -/
def BanTest.holds (re : String → String → Bool) (t : BanTest) (objhttp reqhttp : BanHttp) : Bool :=
  let arg1 := match t.arg1 with
    | .reqUrl => reqhttp.url
    | .reqHttp name => reqhttp.hdr name
    | .objHttp name => objhttp.hdr name
    | .objStatus => some (toString objhttp.status)
  match t.oper with
  | .eq => arg1 = some t.arg2
  | .neq => arg1 ≠ some t.arg2
  | .regex => arg1.any (re t.arg2)
  | .notRegex => !arg1.any (re t.arg2)

def banEvaluate (re : String → String → Bool) (spec : List BanTest) (objhttp reqhttp : BanHttp) : Bool :=
  spec.all (fun t => t.holds re objhttp reqhttp)

structure Ban where
  gone : Bool
  lurk : Nat
  refcount : Nat
  objcore : List Nat
  spec : List BanTest

/-- `BAN_F_REQ`, which `BAN_AddTest` sets. -/
def Ban.req (b : Ban) : Bool := b.spec.any (fun t => t.arg1.isReq)

/-- An objcore, with whether it is on the list of its objhead, and the headers of its object. -/
structure BanOc where
  objhead : Nat
  busy : Bool
  onHead : Bool
  lurk : Nat
  ban : Option Nat
  http : BanHttp

/-- The variables of `ban_check_object`; `hit` once a ban has matched. -/
structure BanCheck where
  hasReq : Bool
  oc : Nat
  b0 : Nat
  b : Nat
  skipped : Nat
  hit : Bool

inductive BanVerdict where
  | unsure
  | notBanned
  | banned
  deriving DecidableEq

inductive BanHolder where
  | sess (s : Nat)
  | lurker
  deriving DecidableEq

/-- A session in `HSH_Lookup`, which holds the mutex of the objhead. -/
structure BanSess where
  objhead : Nat
  req : BanHttp
  check : Option BanCheck

/-- Where the lurker thread is: between passes, at ban `b` of the loop that tags bans, at ban `b` of the
loop that tests the objects of each ban, or testing one of them. -/
inductive BanLurker where
  | idle
  | tagging (b : Nat) (b0 : Option Nat)
  | working (b b0 : Nat)
  | got (b b0 oc : Nat)
  | checking (b b0 : Nat) (c : BanCheck)

/-- `hunts` has the calls of `BAN_Insert` that have not hunted down duplicates yet, as `b` and `be`. -/
structure BanState where
  first : Nat
  last : Nat
  ban : Nat → Ban
  ocs : Nat → Option BanOc
  mtx : Nat → Option BanHolder
  sess : Nat → Option BanSess
  hunts : List (Nat × Nat)
  pass : Nat
  lurker : BanLurker

inductive BanAct where
  | insert (spec : List BanTest) (dups : Bool)
  | hunt (p : Nat × Nat)
  | create (x oh : Nat)
  | attach (x : Nat)
  | unbusy (x : Nat) (http : BanHttp)
  | unlink (x : Nat)
  | destroy (x : Nat)
  | lock (s oh : Nat) (req : BanHttp)
  | check (s x : Nat)
  | walk (s : Nat)
  | finish (s : Nat)
  | unlock (s : Nat)
  | checkLast
  | startPass
  | tag
  | look
  | lurkBegin
  | lurkWalk
  | lurkFinish

namespace BanState

def setBan (st : BanState) (b : Nat) (f : Ban → Ban) : BanState :=
  { st with ban := Function.update st.ban b (f (st.ban b)) }

def setOc (st : BanState) (x : Nat) (o : Option BanOc) : BanState :=
  { st with ocs := Function.update st.ocs x o }

def setMtx (st : BanState) (oh : Nat) (h : Option BanHolder) : BanState :=
  { st with mtx := Function.update st.mtx oh h }

def setSess (st : BanState) (s : Nat) (σ : Option BanSess) : BanState :=
  { st with sess := Function.update st.sess s σ }

/-- `BAN_Init`. -/
def init : BanState :=
  { first := 1, last := 1, ban := fun b => { gone := b == 1, lurk := 0, refcount := 0, objcore := [], spec := [] }
    ocs := fun _ => none, mtx := fun _ => none, sess := fun _ => none, hunts := [], pass := 1, lurker := .idle }

/-- The first critical section of `BAN_Insert`; `dups` is the parameter `ban_dups`. -/
def banInsert (st : BanState) (spec : List BanTest) (dups : Bool) : BanState :=
  let b := st.first + 1
  let st1 := { st with
    first := b
    ban := Function.update st.ban b { gone := false, lurk := 0, refcount := 0, objcore := [], spec := spec } }
  if dups then
    { st1.setBan st.last (fun be => { be with refcount := be.refcount + 1 }) with
      hunts := st.hunts ++ [(b, st.last)] }
  else st1

/-- The duplicates of ban `p.1` down to ban `p.2`. -/
def isDup (st : BanState) (p : Nat × Nat) (i : Nat) : Bool :=
  decide (p.2 ≤ i ∧ i < p.1) && !(st.ban i).gone && decide ((st.ban i).spec = (st.ban p.1).spec)

/-- The second critical section of `BAN_Insert`. -/
def banHunt (st : BanState) (p : Nat × Nat) : Option BanState :=
  if p ∉ st.hunts then none
  else
    let st1 := { st with
      ban := fun i => if st.isDup p i then { st.ban i with gone := true } else st.ban i
      hunts := st.hunts.erase p }
    some (st1.setBan p.2 (fun be => { be with refcount := be.refcount - 1 }))

/-- A busy objcore enters the objhead in `HSH_Lookup`. -/
def create (st : BanState) (x oh : Nat) : Option BanState :=
  if (st.ocs x).isSome ∨ (st.mtx oh).isSome then none
  else some (st.setOc x (some { objhead := oh, busy := true, onHead := true, lurk := 0, ban := none,
                                http := { url := none, hdr := fun _ => none, status := 0 } }))

def banNewObjCore (st : BanState) (x : Nat) : Option BanState := do
  let oc ← st.ocs x
  if oc.busy = false ∨ oc.ban.isSome then none
  else
    let st := st.setBan st.first (fun b => { b with refcount := b.refcount + 1, objcore := b.objcore ++ [x] })
    some (st.setOc x (some { oc with ban := some st.first }))

/-- `HSH_Unbusy`; the headers of the object are complete by then. -/
def hshUnbusy (st : BanState) (x : Nat) (http : BanHttp) : Option BanState := do
  let oc ← st.ocs x
  if oc.busy = false ∨ oc.ban = none ∨ (st.mtx oc.objhead).isSome then none
  else some (st.setOc x (some { oc with busy := false, http := http }))

/-- `HSH_Deref` takes the objcore off the objhead. -/
def unlink (st : BanState) (x : Nat) : Option BanState := do
  let oc ← st.ocs x
  if (st.mtx oc.objhead).isSome then none else some (st.setOc x (some { oc with onHead := false }))

def banDestroyObj (st : BanState) (x : Nat) : Option BanState := do
  let oc ← st.ocs x
  if oc.onHead then none
  else
    let st := st.setOc x none
    match oc.ban with
    | none => some st
    | some a => some (st.setBan a (fun b => { b with refcount := b.refcount - 1, objcore := b.objcore.erase x }))

/-- The start of `ban_check_object`. -/
def checkBegin (st : BanState) (hasReq : Bool) (x : Nat) (oc : BanOc) : Option BanCheck :=
  if oc.ban = some st.first then none
  else some { hasReq := hasReq, oc := x, b0 := st.first, b := st.first, skipped := 0, hit := false }

/-- A round of the loop of `ban_check_object`. -/
def checkWalk (re : String → String → Bool) (st : BanState) (req : BanHttp) (c : BanCheck) : Option BanCheck := do
  let oc ← st.ocs c.oc
  let b := st.ban c.b
  if c.hit ∨ oc.ban = some c.b then none
  else if b.gone then some { c with b := c.b - 1 }
  else if b.lurk ≠ 0 ∧ b.lurk = oc.lurk then
    if b.req then none else some { c with b := c.b - 1 }
  else if c.hasReq = false ∧ b.req then some { c with b := c.b - 1, skipped := c.skipped + 1 }
  else if banEvaluate re b.spec oc.http req then some { c with hit := true }
  else some { c with b := c.b - 1 }

/-- The rest of `ban_check_object`, once the loop is done. -/
def checkFinish (st : BanState) (c : BanCheck) : Option (BanState × BanVerdict) := do
  let oc ← st.ocs c.oc
  let a ← oc.ban
  if c.hit = false ∧ c.b ≠ a then none
  else if c.b = a ∧ 0 < c.skipped then
    if c.hasReq then none else some (st, .unsure)
  else
    let st1 := st.setBan a (fun b => { b with refcount := b.refcount - 1, objcore := b.objcore.erase c.oc })
    if c.b = a then
      let st2 := st1.setBan a (fun b => { b with lurk := 0 })
      let st3 := st2.setBan c.b0 (fun b => { b with refcount := b.refcount + 1, objcore := b.objcore ++ [c.oc] })
      some (st3.setOc c.oc (some { oc with ban := some c.b0 }), .notBanned)
    else some (st1.setOc c.oc (some { oc with ban := none }), .banned)

def lock (st : BanState) (s oh : Nat) (req : BanHttp) : Option BanState :=
  if (st.sess s).isSome ∨ (st.mtx oh).isSome then none
  else some ((st.setMtx oh (some (.sess s))).setSess s (some { objhead := oh, req := req, check := none }))

def unlock (st : BanState) (s : Nat) : Option BanState := do
  let σ ← st.sess s
  if σ.check.isSome then none else some ((st.setMtx σ.objhead none).setSess s none)

/-- `HSH_Lookup` checks an objcore of the objhead. -/
def lookupBegin (st : BanState) (s x : Nat) : Option (BanState × Option BanVerdict) := do
  let σ ← st.sess s
  let oc ← st.ocs x
  if σ.check.isSome ∨ oc.objhead ≠ σ.objhead ∨ oc.onHead = false ∨ oc.busy ∨ oc.ban = none then none
  else
    match st.checkBegin true x oc with
    | none => some (st, some .notBanned)
    | some c => some (st.setSess s (some { σ with check := some c }), none)

def lookupWalk (re : String → String → Bool) (st : BanState) (s : Nat) : Option BanState := do
  let σ ← st.sess s
  let c ← σ.check
  let c ← st.checkWalk re σ.req c
  some (st.setSess s (some { σ with check := some c }))

def lookupFinish (st : BanState) (s : Nat) : Option (BanState × Option BanVerdict) := do
  let σ ← st.sess s
  let c ← σ.check
  let (st, v) ← st.checkFinish c
  some (st.setSess s (some { σ with check := none }), some v)

/-- `ban_CheckLast` and `BAN_Free`. -/
def banCheckLast (st : BanState) : Option BanState :=
  match st.lurker with
  | .idle =>
    if st.last ≠ st.first ∧ (st.ban st.last).refcount = 0 then
      if (st.ban st.last).objcore ≠ [] then none else some { st with last := st.last + 1 }
    else some st
  | _ => none

def nextPass (pass : Nat) : Nat := if (pass + 1) % 4 = 0 then 1 else (pass + 1) % 4

def startPass (st : BanState) : Option BanState :=
  match st.lurker with
  | .idle => some { st with lurker := .tagging st.first none }
  | _ => none

/-- A round of the loop that tags bans; at the end of the list, the lurker goes on with the last ban or
is done. -/
def tagBan (st : BanState) : Option BanState :=
  match st.lurker with
  | .tagging b b0 =>
    if b < st.last then
      match b0 with
      | none => some { st with lurker := .idle }
      | some b0 => some { st with lurker := .working st.last b0 }
    else if (st.ban b).gone ∨ (st.ban b).req ∨ b = st.last then some { st with lurker := .tagging (b - 1) b0 }
    else
      some { st.setBan b (fun x => { x with lurk := st.pass }) with
        lurker := .tagging (b - 1) (some (b0.getD b)) }
  | _ => none

/-- The end of the loop over the objects of ban `b`. -/
def banDone (st : BanState) (b b0 : Nat) : BanState :=
  let st := if (st.ban b).req then st else st.setBan b (fun x => { x with gone := true })
  if b = b0 then { st with pass := nextPass st.pass, lurker := .idle }
  else { st with lurker := .working (b + 1) b0 }

/-- The lurker looks at the first object of ban `b`. -/
def lurkLook (st : BanState) : Option BanState :=
  match st.lurker with
  | .working b b0 =>
    match (st.ban b).objcore with
    | [] => some (st.banDone b b0)
    | x :: l => do
      let oc ← st.ocs x
      if oc.lurk = st.pass then some (st.banDone b b0)
      else if (st.mtx oc.objhead).isSome then some st
      else if oc.onHead = false then some st
      else if oc.busy then
        some ((st.setBan b (fun y => { y with objcore := l ++ [x] })).setOc x
          (some { oc with lurk := oc.lurk ||| st.pass }))
      else
        some { (st.setMtx oc.objhead (some .lurker)).setOc x (some { oc with lurk := 0 }) with
          lurker := .got b b0 x }
  | _ => none

def lurkBegin (st : BanState) : Option BanState :=
  match st.lurker with
  | .got b b0 x => do
    let oc ← st.ocs x
    match st.checkBegin false x oc with
    | none => some { st.setMtx oc.objhead none with lurker := .working b b0 }
    | some c => some { st with lurker := .checking b b0 c }
  | _ => none

/-- The lurker's session has no request. -/
def noReq : BanHttp := { url := none, hdr := fun _ => none, status := 0 }

def lurkWalk (re : String → String → Bool) (st : BanState) : Option BanState :=
  match st.lurker with
  | .checking b b0 c => do
    let c ← st.checkWalk re noReq c
    some { st with lurker := .checking b b0 c }
  | _ => none

def lurkFinish (st : BanState) : Option BanState :=
  match st.lurker with
  | .checking b b0 c => do
    let (st, v) ← st.checkFinish c
    let oc ← st.ocs c.oc
    let st := if v = .unsure then
        (st.setBan b (fun x => { x with objcore := x.objcore.erase c.oc ++ [c.oc] })).setOc c.oc
          (some { oc with lurk := oc.lurk ||| st.pass })
      else st
    some { st.setMtx oc.objhead none with lurker := .working b b0 }
  | _ => none

/-- A step; when it ends a lookup's check of an object, with the verdict. -/
def exec (re : String → String → Bool) (st : BanState) : BanAct → Option (BanState × Option BanVerdict)
  | .insert spec dups => some (st.banInsert spec dups, none)
  | .hunt p => (st.banHunt p).map (·, none)
  | .create x oh => (st.create x oh).map (·, none)
  | .attach x => (st.banNewObjCore x).map (·, none)
  | .unbusy x http => (st.hshUnbusy x http).map (·, none)
  | .unlink x => (st.unlink x).map (·, none)
  | .destroy x => (st.banDestroyObj x).map (·, none)
  | .lock s oh req => (st.lock s oh req).map (·, none)
  | .check s x => st.lookupBegin s x
  | .walk s => (st.lookupWalk re s).map (·, none)
  | .finish s => st.lookupFinish s
  | .unlock s => (st.unlock s).map (·, none)
  | .checkLast => st.banCheckLast.map (·, none)
  | .startPass => st.startPass.map (·, none)
  | .tag => st.tagBan.map (·, none)
  | .look => st.lurkLook.map (·, none)
  | .lurkBegin => st.lurkBegin.map (·, none)
  | .lurkWalk => (st.lurkWalk re).map (·, none)
  | .lurkFinish => st.lurkFinish.map (·, none)

end BanState

/-- The states after runs whose steps all meet `P`. -/
inductive BanReach (re : String → String → Bool) (P : BanState → BanAct → Prop) : BanState → Prop
  | init : BanReach re P .init
  | step {st st' act v} (h : BanReach re P st) (hP : P st act) (hexec : st.exec re act = some (st', v)) :
      BanReach re P st'

/-- The lookups of object `x` that end with a step, each as the first ban when it began and its request. -/
def BanState.lookupsOf (st : BanState) (x : Nat) : BanAct → List (Nat × BanHttp)
  | .finish s =>
    match st.sess s with
    | some σ =>
      match σ.check with
      | some c => if c.oc = x then [(c.b0, σ.req)] else []
      | none => []
    | none => []
  | _ => []

/-- The states since `BAN_NewObjCore` attached object `x` to ban `a0`, the first one then, with the lookups of `x`
that have ended since. -/
inductive BanSince (re : String → String → Bool) (P : BanState → BanAct → Prop) (x a0 : Nat) :
    BanState → List (Nat × BanHttp) → Prop
  | attach {st st' v} (h : BanReach re P st) (ha : st.first = a0) (hP : P st (.attach x))
      (hexec : st.exec re (.attach x) = some (st', v)) : BanSince re P x a0 st' []
  | step {st st' rs act v} (h : BanSince re P x a0 st rs) (hP : P st act) (hact : act ≠ .destroy x)
      (hexec : st.exec re act = some (st', v)) : BanSince re P x a0 st' (rs ++ st.lookupsOf x act)

/-- Steps that all meet `P`, none of which is the end of the check of session `s`. -/
inductive BanSteps (re : String → String → Bool) (P : BanState → BanAct → Prop) (s : Nat) : BanState → BanState → Prop
  | refl {st} : BanSteps re P s st st
  | step {st st1 st2 act v} (h : BanSteps re P s st st1) (hP : P st1 act) (hact : act ≠ .finish s)
      (hexec : st1.exec re act = some (st2, v)) : BanSteps re P s st st2

/-- The verdict `v` of the check of object `x` that session `s` begins in state `st`. -/
inductive LookupVerdict (re : String → String → Bool) (P : BanState → BanAct → Prop) (s x : Nat) :
    BanState → BanVerdict → Prop
  | atOnce {st st' v} (h : st.exec re (.check s x) = some (st', some v)) : LookupVerdict re P s x st v
  | later {st st1 st2 st' v} (h : st.exec re (.check s x) = some (st1, none)) (hrun : BanSteps re P s st1 st2)
      (hfin : st2.exec re (.finish s) = some (st', some v)) : LookupVerdict re P s x st v

end VarnishCache
