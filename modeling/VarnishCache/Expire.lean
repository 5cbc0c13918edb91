import VarnishCache.BinaryHeap
import Mathlib.Data.List.Basic
import Mathlib.Tactic

/-!
# Expiry and LRU lists

Model of `bin/varnishd/cache_expire.c` as sessions, the timer thread and threads in need of storage
interleave. `exp_heap` is the heap of `binary_heap.c`, whose elements are objcores: `timer_when` is their key
and `timer_idx` their index. A region under `exp_mtx` or the mutex of an LRU list is one step. Times are
numbers of some unit. A failed assertion, like a step that cannot be taken, is `none`.
-/

namespace VarnishCache

/-- `struct exp`. -/
structure Exp where
  entered : Int
  ttl : Int
  grace : Int
  keep : Int
  deriving DecidableEq

/-- The parameters `default_keep` and `default_grace`. -/
structure ExpParams where
  defaultKeep : Int
  defaultGrace : Int

namespace Exp

def clr (_ : Exp) : Exp := { entered := 0, ttl := -1, grace := -1, keep := -1 }

def setTtl (e : Exp) (v : Int) : Exp :=
  if 0 < v then { e with ttl := v } else { e with ttl := -1, grace := -1, keep := -1 }

/-- `EXP_Ttl`, `EXP_Keep` and `EXP_Grace` without a session. -/
def effTtl (e : Exp) : Int := e.entered + e.ttl

def effKeep (e : Exp) (par : ExpParams) : Int := e.effTtl + if 0 < e.keep then e.keep else par.defaultKeep

def effGrace (e : Exp) (par : ExpParams) : Int := e.effTtl + if 0 ≤ e.grace then e.grace else par.defaultGrace

/-- The time that `update_object_when` computes. -/
def timerWhen (e : Exp) (par : ExpParams) : Int :=
  if e.effKeep par < e.effGrace par then e.effGrace par else e.effKeep par

end Exp

/-- An objcore with its object: `lru` is what `oc_getlru` returns, and `dontMove` is `OC_F_LRUDONTMOVE`. -/
structure ExpOc where
  refcnt : Nat
  busy : Bool
  lru : Nat
  dontMove : Bool
  exp : Exp

/-- What a thread does with a reference to an objcore: a session, a purge or the lurker has one;
`EXP_Insert` has taken one for the LRU list; the timer or `EXP_NukeOne` has the one of the LRU list. -/
inductive ExpThread where
  | idle
  | has (oc : Nat)
  | inserting (oc : Nat)
  | dropping (oc : Nat)
  deriving DecidableEq

def ExpThread.objcore : ExpThread → Option Nat
  | .idle => none
  | .has oc => some oc
  | .inserting oc => some oc
  | .dropping oc => some oc

structure ExpState where
  ocs : Nat → Option ExpOc
  heap : Binheap Nat Int
  lrus : Nat → List Nat
  threads : Nat → ExpThread

/-- `object_cmp`. -/
def objectCmp (a b : Int) : Bool := decide (a < b)

inductive ExpAct where
  | create (t x : Nat) (oc : ExpOc)
  | ref (t x : Nat)
  | deref (t : Nat)
  | unbusy (t : Nat)
  | setExp (x : Nat) (e : Exp)
  | inject (t : Nat) (w : Int)
  | insertRef (t u : Nat)
  | insert (u : Nat) (par : ExpParams)
  | touch (x : Nat) (locked : Bool)
  | rearm (x : Nat) (par : ExpParams)
  | timer (u : Nat) (t now : Int) (locked : Bool)
  | nuke (u l : Nat)

namespace ExpState

/-- `EXP_Init`; `junk` is what stands in fresh memory. -/
def init (junk : Nat → Option Nat) (pagesize : Nat) : Option ExpState :=
  (Binheap.new junk pagesize (fun _ => 0) (fun _ => binheapNoidx)).map (fun heap =>
    { ocs := fun _ => none, heap := heap, lrus := fun _ => [], threads := fun _ => .idle })

def setOc (st : ExpState) (x : Nat) (oc : Option ExpOc) : ExpState :=
  { st with ocs := Function.update st.ocs x oc }

def setThread (st : ExpState) (t : Nat) (σ : ExpThread) : ExpState :=
  { st with threads := Function.update st.threads t σ }

def setLru (st : ExpState) (l : Nat) (xs : List Nat) : ExpState :=
  { st with lrus := Function.update st.lrus l xs }

/-- `HSH_Lookup` or `HSH_Insert` makes a new objcore with one reference. -/
def create (st : ExpState) (t x : Nat) (oc : ExpOc) : Option ExpState :=
  if st.threads t ≠ .idle ∨ (st.ocs x).isSome then none
  else
    let heap := { st.heap with idx := Function.update st.heap.idx x binheapNoidx }
    some (({ st with heap := heap }.setOc x (some { oc with refcnt := 1 })).setThread t (.has x))

/-- `HSH_Ref`, a hit in `HSH_Lookup`, `HSH_Purge` and the lurker. -/
def hshRef (st : ExpState) (t x : Nat) : Option ExpState := do
  let oc ← st.ocs x
  if st.threads t ≠ .idle ∨ oc.refcnt = 0 then none
  else some ((st.setOc x (some { oc with refcnt := oc.refcnt + 1 })).setThread t (.has x))

/-- `HSH_Deref`. -/
def hshDeref (st : ExpState) (t : Nat) : Option ExpState :=
  match st.threads t with
  | .idle => none
  | .inserting _ => none
  | .has x | .dropping x => do
    let oc ← st.ocs x
    if oc.refcnt = 0 then none
    else
      let st := st.setThread t .idle
      some (st.setOc x (if oc.refcnt = 1 then none else some { oc with refcnt := oc.refcnt - 1 }))

/-- `HSH_Unbusy`. -/
def hshUnbusy (st : ExpState) (t : Nat) : Option ExpState :=
  match st.threads t with
  | .has x => (st.ocs x).map (fun oc => st.setOc x (some { oc with busy := false }))
  | _ => none

/-- A ban hit, a purge or VCL changes the timers of an object. -/
def setExp (st : ExpState) (x : Nat) (e : Exp) : Option ExpState :=
  (st.ocs x).map (fun oc => st.setOc x (some { oc with exp := e }))

/-- `exp_insert`, with `timer_when` set before. -/
def expInsert (junk : Nat → Option Nat) (st : ExpState) (x : Nat) (oc : ExpOc) (w : Int) : Option ExpState :=
  if st.heap.idx x ≠ binheapNoidx then none
  else do
    let heap ← Binheap.insert objectCmp junk { st.heap with key := Function.update st.heap.key x w } x
    if heap.idx x = binheapNoidx then none
    else some ({ st with heap := heap }.setLru oc.lru (st.lrus oc.lru ++ [x]))

/-- `EXP_Inject` takes over the reference of its caller. -/
def expInject (junk : Nat → Option Nat) (st : ExpState) (t : Nat) (w : Int) : Option ExpState :=
  match st.threads t with
  | .has x => do
    let oc ← st.ocs x
    let st ← st.expInsert junk x oc w
    some (st.setThread t .idle)
  | _ => none

/-- `EXP_Insert` takes a reference to the busy object of thread `t`. -/
def insertRef (st : ExpState) (t u : Nat) : Option ExpState :=
  match st.threads t with
  | .has x => do
    let oc ← st.ocs x
    if oc.busy = false ∨ oc.refcnt = 0 ∨ st.threads u ≠ .idle then none
    else some ((st.setOc x (some { oc with refcnt := oc.refcnt + 1 })).setThread u (.inserting x))
  | _ => none

/-- The rest of `EXP_Insert`. -/
def insertObj (junk : Nat → Option Nat) (st : ExpState) (u : Nat) (par : ExpParams) : Option ExpState :=
  match st.threads u with
  | .inserting x => do
    let oc ← st.ocs x
    let st ← st.expInsert junk x oc (oc.exp.timerWhen par)
    some (st.setThread u .idle)
  | _ => none

/-- `EXP_Touch`; `locked` is whether `Lck_Trylock` gets the mutex of the list. -/
def expTouch (st : ExpState) (x : Nat) (locked : Bool) : Option ExpState := do
  let oc ← st.ocs x
  if oc.dontMove || !locked || st.heap.idx x == binheapNoidx then some st
  else some (st.setLru oc.lru ((st.lrus oc.lru).erase x ++ [x]))

/-- `EXP_Rearm`; `HSH_Lookup` runs it under `oh->mtx` on a ban hit, without a reference of its own. -/
def expRearm (st : ExpState) (x : Nat) (par : ExpParams) : Option ExpState := do
  let oc ← st.ocs x
  let w := oc.exp.timerWhen par
  if st.heap.idx x = binheapNoidx ∨ w = st.heap.key x then some st
  else
    let heap ← Binheap.reorder objectCmp { st.heap with key := Function.update st.heap.key x w } (st.heap.idx x)
    if heap.idx x = binheapNoidx then none
    else some { st with heap := heap }

/-- An objcore leaves the heap and its LRU list, and thread `u` has the reference they had. -/
def expRemove (st : ExpState) (u x : Nat) (oc : ExpOc) : Option ExpState := do
  let heap ← Binheap.delete objectCmp st.heap (st.heap.idx x)
  if heap.idx x ≠ binheapNoidx then none
  else some (({ st with heap := heap }.setLru oc.lru ((st.lrus oc.lru).erase x)).setThread u (.dropping x))

/-- A turn of the loop of `exp_timer`: `t` is the time it remembers, `now` what a refresh gives. -/
def expTimer (st : ExpState) (u : Nat) (t now : Int) (locked : Bool) : Option ExpState :=
  if st.threads u ≠ .idle then none
  else
    match st.heap.root with
    | none => none
    | some none => some st
    | some (some x) => do
      let oc ← st.ocs x
      if t < st.heap.key x ∧ now < st.heap.key x then some st
      else if oc.busy then some st
      else if !locked then some st
      else if st.heap.idx x = binheapNoidx then none
      else st.expRemove u x oc

/-- The loop of `EXP_NukeOne` over an LRU list. -/
def nukeFind (st : ExpState) : List Nat → Option (Option (Nat × ExpOc))
  | [] => some none
  | x :: xs =>
    match st.ocs x with
    | none => none
    | some oc =>
      if st.heap.idx x = binheapNoidx then none
      else if oc.refcnt = 1 ∧ oc.busy = false then some (some (x, oc))
      else st.nukeFind xs

def expNukeOne (st : ExpState) (u l : Nat) : Option ExpState :=
  if st.threads u ≠ .idle then none
  else
    match st.nukeFind (st.lrus l) with
    | none => none
    | some none => some st
    | some (some (x, oc)) => st.expRemove u x { oc with lru := l }

def step (junk : Nat → Option Nat) (st : ExpState) : ExpAct → Option ExpState
  | .create t x oc => st.create t x oc
  | .ref t x => st.hshRef t x
  | .deref t => st.hshDeref t
  | .unbusy t => st.hshUnbusy t
  | .setExp x e => st.setExp x e
  | .inject t w => st.expInject junk t w
  | .insertRef t u => st.insertRef t u
  | .insert u par => st.insertObj junk u par
  | .touch x locked => st.expTouch x locked
  | .rearm x par => st.expRearm x par
  | .timer u t now locked => st.expTimer u t now locked
  | .nuke u l => st.expNukeOne u l

end ExpState

/-- The states after runs whose steps all meet `P`, on a machine with pages of that size. -/
inductive ExpReach (junk : Nat → Option Nat) (pagesize : Nat) (P : ExpState → ExpAct → Prop) : ExpState → Prop
  | init {st : ExpState} (h : ExpState.init junk pagesize = some st) : ExpReach junk pagesize P st
  | step {st st' : ExpState} {a : ExpAct} (h : ExpReach junk pagesize P st) (hP : P st a)
      (hstep : st.step junk a = some st') : ExpReach junk pagesize P st'

end VarnishCache
