import Mathlib.Data.List.Basic
import Mathlib.Logic.Function.Basic
import Mathlib.Tactic

/-!
# Checks of subroutine calls

Model of the second half of `lib/libvcl/vcc_xref.c`. A `struct proc` is a number below `n`; what the checks write is in
`XrefState`, with the text that goes to `tl->sb` and with `tl->err`. A recursion that is not done after `fuel` calls
inside of each other is `none`.
-/

namespace VarnishCache

/-- `struct method`. -/
structure VccMethod where
  name : String
  retBitmap : BitVec 32
  bitval : BitVec 32

/-- The names of `vcl_returns.h`, in the order of their numbers. -/
def vclReturns : List String :=
  ["deliver", "error", "fetch", "hash", "hit_for_pass", "lookup", "ok", "pass", "pipe", "restart"]

/-- A bit for each return of a list of their numbers. -/
def retBits (rs : List Nat) : BitVec 32 := rs.foldl (fun b r => b ||| 1#32 <<< r) 0

/-- `method_tab`. -/
def methodTab : List VccMethod :=
  [⟨"vcl_recv", retBits [1, 7, 8, 5], 1#32 <<< 0⟩, ⟨"vcl_pipe", retBits [1, 8], 1#32 <<< 1⟩,
    ⟨"vcl_pass", retBits [1, 9, 7], 1#32 <<< 2⟩, ⟨"vcl_hash", retBits [3], 1#32 <<< 3⟩,
    ⟨"vcl_miss", retBits [1, 9, 7, 2], 1#32 <<< 4⟩, ⟨"vcl_hit", retBits [1, 9, 7, 0], 1#32 <<< 5⟩,
    ⟨"vcl_fetch", retBits [1, 9, 4, 0], 1#32 <<< 6⟩, ⟨"vcl_deliver", retBits [9, 0], 1#32 <<< 7⟩,
    ⟨"vcl_error", retBits [9, 0], 1#32 <<< 8⟩, ⟨"vcl_init", retBits [6], 1#32 <<< 9⟩,
    ⟨"vcl_fini", retBits [6], 1#32 <<< 10⟩]

/-- `IsMethod`. -/
def isMethod (name : String) : Option VccMethod := methodTab.find? (fun m => m.name = name)

/-- `struct proccall`. -/
structure ProcCall (n : Nat) where
  p : Fin n
  t : String

/-- `struct procuse`. -/
structure ProcUse where
  t : String
  mask : BitVec 32
  use : String

/-- `struct proc` as parsing leaves it. -/
structure Proc (n : Nat) where
  calls : List (ProcCall n)
  uses : List ProcUse
  name : String
  retBitmap : BitVec 32
  defined : Bool
  returnTok : Nat → String

/-- All procs, with the list of their symbols. -/
structure VclProgram (n : Nat) where
  proc : Fin n → Proc n
  symbols : List (Fin n)
  complete : ∀ p, p ∈ symbols

inductive XrefMsg where
  | notExist (name : String)
  | recurses
  | invalidReturn (l : String)
  | inSubroutine (name : String)
  | calledFrom (name : String)
  | whichIs (name : String)
  | legalReturns (ls : List String)
  | unused
  | justWarning
  | useFrom (t use name : String)
  | useIn (t use name : String)
  | errWhere (t : String)
  deriving DecidableEq

structure XrefState (n : Nat) where
  active : Fin n → Bool
  called : Fin n → UInt32
  sb : List XrefMsg
  err : Bool

namespace XrefState

variable {n : Nat}

def print (st : XrefState n) (m : XrefMsg) : XrefState n := { st with sb := st.sb ++ [m] }

/-- `vcc_ErrWhere`. -/
def errWhere (st : XrefState n) (t : String) : XrefState n := { st.print (.errWhere t) with err := true }

def setActive (st : XrefState n) (p : Fin n) (b : Bool) : XrefState n :=
  { st with active := Function.update st.active p b }

def init : XrefState n := { active := fun _ => false, called := fun _ => 0, sb := [], err := false }

/-- The complaints about returns that are not legal. -/
def invalidReturns (st : XrefState n) (p : Proc n) (u : BitVec 32) : XrefState n :=
  vclReturns.zipIdx.foldl
    (fun st r => if u.getLsbD r.2 then (st.print (.invalidReturn r.1)).errWhere (p.returnTok r.2) else st) st

end XrefState

/-- A loop over the calls of `p` that goes into each of them. -/
def callLoop {n : Nat} (recurse : XrefState n → Fin n → Option (Bool × XrefState n)) (name : String) :
    List (ProcCall n) → XrefState n → Option (Bool × XrefState n)
  | [], st => some (false, st)
  | pc :: calls, st =>
    match recurse st pc.p with
    | none => none
    | some (true, st) => some (true, (st.print (.calledFrom name)).errWhere pc.t)
    | some (false, st) => callLoop recurse name calls st

def vccCheckActionRecurse {n : Nat} (vcl : VclProgram n) (bitmap : BitVec 32) :
    Nat → XrefState n → Fin n → Option (Bool × XrefState n)
  | 0, _, _ => none
  | fuel + 1, st, i =>
    let p := vcl.proc i
    if p.defined = false then some (true, st.print (.notExist p.name))
    else if st.active i then some (true, (st.print .recurses).errWhere p.name)
    else if p.retBitmap &&& ~~~bitmap ≠ 0 then
      some (true, ((st.invalidReturns p (p.retBitmap &&& ~~~bitmap)).print (.inSubroutine p.name)).errWhere p.name)
    else
      match callLoop (vccCheckActionRecurse vcl bitmap fuel) p.name p.calls (st.setActive i true) with
      | none => none
      | some (true, st) => some (true, st)
      | some (false, st) =>
        some (false, { st.setActive i false with called := Function.update st.called i (st.called i + 1) })

/-- `vcc_checkaction1`. -/
def checkAction1 {n : Nat} (vcl : VclProgram n) (fuel : Nat) (st : XrefState n) (i : Fin n) : Option (XrefState n) :=
  match isMethod (vcl.proc i).name with
  | none => some st
  | some m =>
    match vccCheckActionRecurse vcl m.retBitmap fuel st i with
    | none => none
    | some (true, st) =>
      let legal := (vclReturns.zipIdx.filter (fun r => m.retBitmap.getLsbD r.2)).map (·.1)
      some { (st.print (.whichIs m.name)).print (.legalReturns legal) with err := true }
    | some (false, st) => some st

/-- `vcc_checkaction2`; `errUnref` is `tl->err_unref`. -/
def checkAction2 {n : Nat} (vcl : VclProgram n) (errUnref : Bool) (st : XrefState n) (i : Fin n) : XrefState n :=
  if st.called i ≠ 0 then st
  else
    let st := (st.print .unused).errWhere (vcl.proc i).name
    if errUnref then st else { st.print .justWarning with err := false }

/-- `VCC_WalkSymbols`. -/
def walkSymbols {n : Nat} (func : XrefState n → Fin n → Option (XrefState n)) :
    List (Fin n) → XrefState n → Option (XrefState n)
  | [], st => some st
  | i :: syms, st =>
    match func st i with
    | none => none
    | some st => if st.err then some st else walkSymbols func syms st

def vccCheckAction {n : Nat} (vcl : VclProgram n) (errUnref : Bool) (fuel : Nat) (st : XrefState n) :
    Option (XrefState n) :=
  match walkSymbols (checkAction1 vcl fuel) vcl.symbols st with
  | none => none
  | some st =>
    if st.err then some st
    else walkSymbols (fun st i => some (checkAction2 vcl errUnref st i)) vcl.symbols st

def vccFindIllegalUse {n : Nat} (p : Proc n) (m : VccMethod) : Option ProcUse :=
  p.uses.find? (fun pu => pu.mask &&& m.bitval = 0)

def vccCheckUseRecurse {n : Nat} (vcl : VclProgram n) (m : VccMethod) :
    Nat → XrefState n → Fin n → Option (Bool × XrefState n)
  | 0, _, _ => none
  | fuel + 1, st, i =>
    let p := vcl.proc i
    match vccFindIllegalUse p m with
    | some pu =>
      let st := (st.print (.useFrom pu.t pu.use p.name)).errWhere pu.t
      some (true, (st.print (.inSubroutine p.name)).errWhere p.name)
    | none => callLoop (vccCheckUseRecurse vcl m fuel) p.name p.calls st

/-- `vcc_checkuses`. -/
def checkUses {n : Nat} (vcl : VclProgram n) (fuel : Nat) (st : XrefState n) (i : Fin n) : Option (XrefState n) :=
  let p := vcl.proc i
  match isMethod p.name with
  | none => some st
  | some m =>
    match vccFindIllegalUse p m with
    | some pu => some ((st.print (.useIn pu.t pu.use p.name)).errWhere pu.t)
    | none =>
      match vccCheckUseRecurse vcl m fuel st i with
      | none => none
      | some (true, st) => some (st.print (.whichIs m.name))
      | some (false, st) => some st

def vccCheckUses {n : Nat} (vcl : VclProgram n) (fuel : Nat) (st : XrefState n) : Option (XrefState n) :=
  walkSymbols (checkUses vcl fuel) vcl.symbols st

end VarnishCache
