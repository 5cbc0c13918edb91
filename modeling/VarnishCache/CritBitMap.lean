import Mathlib.Data.Set.Finite.Basic
import VarnishCache.CritBit

/-!
# The critical-bit hash as a finite map

What the hash is for: a map from digests to objheads. `HcbMap.exec` is the map's own account of
the calls, `HcbRun` the calls made on the tree, and `HcbMap.Run` the same calls with the same
results made on the map.
-/

namespace VarnishCache

/-- Digests of the objheads, and the objhead stored for each digest. -/
structure HcbMap where
  heads : Nat → Option Digest
  map : Digest → Option Nat

namespace HcbMap

def empty : HcbMap := { heads := fun _ => none, map := fun _ => none }

def insert (f : HcbMap) (oh : Nat) (d : Digest) : HcbMap × Option Nat :=
  match f.map d with
  | some oh2 => (f, some oh2)
  | none => ({ f with map := Function.update f.map d (some oh) }, some oh)

def exec (f : HcbMap) : HcbOp → HcbMap × Option Nat
  | .prep _ _ => (f, none)
  | .newHead oh d => ({ f with heads := Function.update f.heads oh (some d) }, none)
  | .insert _ oh => ((f.heads oh).map (f.insert oh)).getD (f, none)
  | .lookup _ oh => (f, (f.heads oh).bind f.map)
  | .delete oh => ((f.heads oh).map (fun d => { f with map := Function.update f.map d none }) |>.getD f, none)
  | .clean => (f, none)

/-- The map after the calls of a trace, each with the result the trace gives it. -/
inductive Run : List (HcbOp × Option Nat) → HcbMap → Prop
  | nil : Run [] empty
  | snoc {tr : List (HcbOp × Option Nat)} {f f' : HcbMap} {op : HcbOp} {r : Option Nat} :
      Run tr f → f.exec op = (f', r) → Run (tr ++ [(op, r)]) f'

end HcbMap

namespace Hcb

/-- Objhead `oh` hangs below the pointer. -/
inductive Leads (m : Hcb) : Ptr → Nat → Prop
  | node (oh : Nat) : Leads m (.node oh) oh
  | y {i oh : Nat} {y : HcbY} {s : Bool} : m.ys i = some y → Leads m (y.leaf s) oh → Leads m (.y i) oh

/-- Node `i` is at or below the pointer. -/
inductive Inner (m : Hcb) : Ptr → Nat → Prop
  | here (i : Nat) : Inner m (.y i) i
  | next {i j : Nat} {y : HcbY} {s : Bool} : m.ys i = some y → Inner m (y.leaf s) j → Inner m (.y i) j

def digestOf (m : Hcb) (oh : Nat) : Option Digest := (m.ohs oh).map ObjHead.digest

/-- Bit `j` of the digest of an objhead, counted over its bytes from the most significant bit on. -/
def bitOf (m : Hcb) (oh j : Nat) : Option Bool :=
  (m.digestOf oh).bind (fun d =>
    if h : j / 8 < digestLen then some (d ⟨j / 8, h⟩ &&& UInt8.ofNat (0x80 >>> (j % 8)) != 0) else none)

/-- The critical bits increase downwards; the objheads below a node lie on the side its bit gives and
agree on all earlier bits. -/
def PathPrefix (m : Hcb) : Prop :=
  ∀ i, Inner m m.origo i → ∃ y, m.ys i = some y ∧ y.critbit < digestLen * 8 ∧
    (∀ s j y', y.leaf s = .y j → m.ys j = some y' → y.critbit < y'.critbit) ∧
    (∀ s oh, Leads m (y.leaf s) oh → m.bitOf oh y.critbit = some s) ∧
    ∀ oh oh', Leads m (.y i) oh → Leads m (.y i) oh' → ∀ j < y.critbit, m.bitOf oh j = m.bitOf oh' j

/-- The tree stores exactly the entries of a finite map. -/
structure Refines (m : Hcb) (f : HcbMap) : Prop where
  heads : ∀ oh d, m.digestOf oh = some d → f.heads oh = some d
  map : ∀ d oh, f.map d = some oh ↔ Leads m m.origo oh ∧ m.digestOf oh = some d
  finite : { d | (f.map d).isSome }.Finite

end Hcb

/-- What the callers see to: allocated memory was free, an objhead that is looked up exists and one that
is inserted was not deleted before, the worker has been prepared, and a deleted objhead is stored. -/
def HcbWorkers.Admits (s : HcbWorkers) : HcbOp → Prop
  | .prep _ i => s.hcb.ys i = none
  | .newHead oh _ => s.hcb.ohs oh = none
  | .insert w oh => (s.hcb.ohs oh).isSome ∧ oh ∉ s.hcb.coolH ∧ oh ∉ s.hcb.deadH ∧ (s.nhashpriv w).isSome
  | .lookup _ oh => (s.hcb.ohs oh).isSome
  | .delete oh => s.hcb.Leads s.hcb.origo oh
  | .clean => True

inductive HcbRun : List (HcbOp × Option Nat) → HcbWorkers → Prop
  | nil : HcbRun [] .start
  | snoc {tr : List (HcbOp × Option Nat)} {s s' : HcbWorkers} {op : HcbOp} {r : Option Nat} :
      HcbRun tr s → s.Admits op → s.exec op = some (s', r) → HcbRun (tr ++ [(op, r)]) s'

end VarnishCache
