import Mathlib.Logic.Function.Basic
import Mathlib.Tactic

/-!
# The critical-bit hash

Model of `bin/varnishd/hash_critbit.c`. Objheads and `hcb_y` nodes live at addresses; an address
that holds nothing is `none`, which is what the magic checks catch. The overloaded `uintptr_t`
is the type `Ptr`, and a failed `assert` is `none`.
-/

namespace VarnishCache

def digestLen : Nat := 32

abbrev Digest := Fin digestLen → UInt8

inductive Ptr where
  | null
  | node (oh : Nat)
  | y (i : Nat)
  deriving DecidableEq, Repr

structure HcbY where
  critbit : Nat
  ptr : Nat
  bitmask : UInt8
  leaf : Bool → Ptr

structure ObjHead where
  digest : Digest
  refcnt : Nat

/-- The tree with the memory it lives in and the cool-off lists. -/
structure Hcb where
  origo : Ptr
  ys : Nat → Option HcbY
  ohs : Nat → Option ObjHead
  coolY : List Nat
  deadY : List Nat
  coolH : List Nat
  deadH : List Nat

/-- A place that holds a tree pointer. -/
inductive Loc where
  | origo
  | leaf (i : Nat) (s : Bool)
  deriving DecidableEq

/-- The inner loop of `hcb_build_bittbl`, which runs `y` up to `1U << x`. -/
def fillBittbl (st : List Nat × Nat) (x : Nat) : List Nat × Nat :=
  ((List.range' st.2 (1 <<< x - st.2)).foldl (fun tbl y => tbl.set y (8 - x)) st.1, max st.2 (1 <<< x))

def hcbBittbl : List Nat := ((List.range 8).foldl fillBittbl (List.replicate 256 0, 0)).1

def hcbBits (x y : UInt8) : Nat := hcbBittbl.getD (x ^^^ y).toNat 0

/-- The loop of `hcb_crit_bit`: the first byte in which the digests differ. -/
def diffByte (d1 d2 : Digest) : Option (Fin digestLen) :=
  (List.finRange digestLen).find? (fun u => d1 u ≠ d2 u)

/-- `hcb_crit_bit`, which fills in `ptr`, `bitmask` and `critbit` of the new node. -/
def hcbCritBit (d1 d2 : Digest) (y : HcbY) : Option HcbY :=
  (diffByte d1 d2).map (fun u =>
    let r := hcbBits (d1 u) (d2 u)
    { y with ptr := u, bitmask := UInt8.ofNat (0x80 >>> r), critbit := u * 8 + r })

/-- `s = (oh->digest[y->ptr] & y->bitmask) != 0`, after `assert(y->ptr < DIGEST_LEN)`. -/
def HcbY.side (y : HcbY) (d : Digest) : Option Bool :=
  if h : y.ptr < digestLen then some (d ⟨y.ptr, h⟩ &&& y.bitmask != 0) else none

/-- More turns than any loop over a path takes: the critical bits increase and stay below 256. -/
def pathFuel : Nat := digestLen * 8 + 1

namespace Hcb

def start : Hcb :=
  { origo := .null, ys := fun _ => none, ohs := fun _ => none, coolY := [], deadY := []
    coolH := [], deadH := [] }

/-- `*p` -/
def load (m : Hcb) : Loc → Option Ptr
  | .origo => some m.origo
  | .leaf i s => (m.ys i).map (fun y => y.leaf s)

def setY (m : Hcb) (i : Nat) (y : HcbY) : Hcb := { m with ys := Function.update m.ys i (some y) }

def setOh (m : Hcb) (oh : Nat) (o : ObjHead) : Hcb := { m with ohs := Function.update m.ohs oh (some o) }

/-- `*p = v` -/
def store (m : Hcb) (p : Loc) (v : Ptr) : Option Hcb :=
  match p with
  | .origo => some { m with origo := v }
  | .leaf i s => (m.ys i).map (fun y => m.setY i { y with leaf := Function.update y.leaf s v })

/-- One turn of the loop that follows a digest: from a node to the pointer on its side. -/
def follow (m : Hcb) (d : Digest) (i : Nat) : Option Ptr := do
  let y ← m.ys i
  let s ← y.side d
  some (y.leaf s)

def walk (m : Hcb) (d : Digest) : Nat → Ptr → Option Ptr
  | 0, _ => none
  | fuel + 1, .y i => do
    let pp ← m.follow d i
    m.walk d fuel pp
  | _ + 1, pp => some pp

/-- The second loop of `hcb_insert`, which finds where the new node goes. -/
def place (m : Hcb) (d : Digest) (critbit : Nat) : Nat → Loc → Option Loc
  | 0, _ => none
  | fuel + 1, p => do
    match ← m.load p with
    | .y i =>
      let y ← m.ys i
      if y.critbit = critbit then none
      else if critbit < y.critbit then some p
      else
        let s ← y.side d
        m.place d critbit fuel (.leaf i s)
    | _ => some p

/-- The insertion proper: `i` is the node taken from `wrk->nhashpriv` and `oh2` the objhead found. -/
def graft (m : Hcb) (i oh : Nat) (o o2 : ObjHead) : Option Hcb := do
  let y0 ← m.ys i
  let y2 ← hcbCritBit o.digest o2.digest y0
  let s2 ← y2.side o.digest
  if m.origo = .null then none
  let p ← m.place o.digest y2.critbit pathFuel .origo
  let v ← m.load p
  let leaf := Function.update (Function.update y2.leaf s2 (.node oh)) (!s2) v
  (m.setY i { y2 with leaf := leaf }).store p (.y i)

/-- The end of `hcb_insert` once the walk has stopped at `pp`. The result is the objhead, `NULL`
being `none`, with the state and `wrk->nhashpriv` after the call. -/
def arrive (m : Hcb) (nhashpriv : Option Nat) (oh : Nat) (hasLock : Bool) (pp : Ptr) :
    Option (Hcb × Option Nat × Option Nat) :=
  match pp with
  | .null => if hasLock then none else some (m, nhashpriv, none)
  | .y _ => none
  | .node oh2 => do
    let o ← m.ohs oh
    let o2 ← m.ohs oh2
    if o2.digest = o.digest then some (m, nhashpriv, some oh2)
    else if hasLock then do
      let i ← nhashpriv
      let m ← m.graft i oh o o2
      some (m, none, some oh)
    else some (m, nhashpriv, none)

def hcbInsert (m : Hcb) (nhashpriv : Option Nat) (oh : Nat) (hasLock : Bool) :
    Option (Hcb × Option Nat × Option Nat) :=
  if m.origo = .null then
    if hasLock then some ({ m with origo := .node oh }, nhashpriv, some oh) else some (m, nhashpriv, none)
  else do
    let o ← m.ohs oh
    let pp ← m.walk o.digest pathFuel m.origo
    m.arrive nhashpriv oh hasLock pp

/-- The loop of `hcb_delete`. -/
def unlink (m : Hcb) (oh : Nat) (d : Digest) : Nat → Loc → Option Hcb
  | 0, _ => none
  | fuel + 1, p => do
    match ← m.load p with
    | .y i =>
      let y ← m.ys i
      let s ← y.side d
      if y.leaf s = .node oh then
        let m ← m.store p (y.leaf (!s))
        some { m with coolY := m.coolY ++ [i] }
      else m.unlink oh d fuel (.leaf i s)
    | _ => none

def hcbDelete (m : Hcb) (oh : Nat) : Option Hcb :=
  if m.origo = .node oh then some { m with origo := .null }
  else do
    let o ← m.ohs oh
    m.unlink oh o.digest pathFuel .origo

/-- `ALLOC_OBJ` of an `hcb_y` at an address that was free. -/
def allocY (m : Hcb) (i : Nat) : Hcb :=
  m.setY i { critbit := 0, ptr := 0, bitmask := 0, leaf := fun _ => .null }

/-- One round of `hcb_cleaner`: what has cooled off since the last round but one is freed. -/
def hcbCleaner (m : Hcb) : Hcb :=
  { m with
    ys := fun i => if i ∈ m.deadY then none else m.ys i
    ohs := fun oh => if oh ∈ m.deadH then none else m.ohs oh
    coolY := [], deadY := m.coolY, coolH := [], deadH := m.coolH }

/-- What `hcb_deref` does under `hcb_mtx` once the reference count is zero. -/
def derefDelete (m : Hcb) (oh : Nat) : Option Hcb :=
  (m.hcbDelete oh).map (fun m => { m with coolH := m.coolH ++ [oh] })

end Hcb

/-- The tree together with `wrk->nhashpriv` of every worker. -/
structure HcbWorkers where
  hcb : Hcb
  nhashpriv : Nat → Option Nat

/-- Calls under `hcb_mtx`, with the allocations their callers make. -/
inductive HcbOp where
  | prep (w i : Nat)
  | newHead (oh : Nat) (d : Digest)
  | insert (w oh : Nat)
  | lookup (w oh : Nat)
  | delete (oh : Nat)
  | clean

namespace HcbWorkers

def start : HcbWorkers := { hcb := .start, nhashpriv := fun _ => none }

/-- `hcb_prep`; the allocator returns `i`. -/
def hcbPrep (s : HcbWorkers) (w i : Nat) : HcbWorkers :=
  match s.nhashpriv w with
  | some _ => s
  | none => { hcb := s.hcb.allocY i, nhashpriv := Function.update s.nhashpriv w (some i) }

/-- A call of `hcb_insert` by worker `w`. -/
def insert (s : HcbWorkers) (w oh : Nat) (hasLock : Bool) : Option (HcbWorkers × Option Nat) :=
  (s.hcb.hcbInsert (s.nhashpriv w) oh hasLock).map (fun r =>
    ({ hcb := r.1, nhashpriv := Function.update s.nhashpriv w r.2.1 }, r.2.2))

def exec (s : HcbWorkers) : HcbOp → Option (HcbWorkers × Option Nat)
  | .prep w i => some (s.hcbPrep w i, none)
  | .newHead oh d => some ({ s with hcb := s.hcb.setOh oh { digest := d, refcnt := 1 } }, none)
  | .insert w oh => s.insert w oh true
  | .lookup w oh => s.insert w oh false
  | .delete oh => (s.hcb.derefDelete oh).map (fun m => ({ s with hcb := m }, none))
  | .clean => some ({ s with hcb := s.hcb.hcbCleaner }, none)

end HcbWorkers

end VarnishCache
