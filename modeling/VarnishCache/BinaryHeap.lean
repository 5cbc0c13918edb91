import Mathlib.Data.Nat.Bitwise
import Mathlib.Logic.Function.Basic

/-!
# The page-aware binary heap

Model of `lib/libvarnish/binary_heap.c`. Slots are numbered with C `unsigned` values, the
storage is an array of row pointers, and a failed `assert` is `none`. The keys live in the
elements, and the update callback writes the index back into the element, so both are part
of the state.
-/

namespace VarnishCache

/-- Reduction of a C `unsigned` computation. -/
def u32 (x : Nat) : Nat := x % 2 ^ 32

/-- Complement of a C `unsigned`. -/
def not32 (x : Nat) : Nat := 2 ^ 32 - 1 - x

def uintMax : Nat := 2 ^ 32 - 1
def rowShift : Nat := 16
def rowWidth : Nat := 1 <<< rowShift
def rootIdx : Nat := 1
def binheapNoidx : Nat := 0

structure Binheap (α K : Type) where
  array : Nat → Option (Nat → Option α)
  rows : Nat
  length : Nat
  next : Nat
  pageSize : Nat
  pageMask : Nat
  pageShift : Nat
  key : α → K
  idx : α → Nat

namespace Binheap

variable {α K : Type}

def parent (bh : Binheap α K) (u : Nat) : Option Nat :=
  if u = uintMax then none else
    let po := u &&& bh.pageMask
    if u < bh.pageSize ∨ 3 < po then
      some ((u &&& not32 bh.pageMask) ||| (po >>> 1))
    else if po < 2 then
      let v := (u - bh.pageSize) >>> bh.pageShift
      let v := u32 (v + (v &&& not32 (bh.pageMask >>> 1)))
      some (v ||| (bh.pageSize / 2))
    else
      some (u - 2)

def child (bh : Binheap α K) (u : Nat) : Nat × Nat :=
  if bh.pageMask < u ∧ u &&& (bh.pageMask - 1) = 0 then
    (u32 (u + 2), u32 (u + 2))
  else if u &&& (bh.pageSize >>> 1) ≠ 0 then
    let a := (u &&& not32 bh.pageMask) >>> 1
    let a := a ||| (u &&& (bh.pageMask >>> 1))
    let a := u32 (a + 1)
    let uu := (a <<< bh.pageShift) % 2 ^ 64
    let a := u32 uu
    if a = uu then (a, u32 (a + 1)) else (uintMax, uintMax)
  else
    let a := u32 (u + (u &&& bh.pageMask))
    (a, u32 (a + 1))

/-- `A(b, n)`: the outer `none` is a dereference of a missing row, `some none` is `NULL`. -/
def A (bh : Binheap α K) (n : Nat) : Option (Option α) :=
  (bh.array (n >>> rowShift)).map (fun row => row (n &&& (rowWidth - 1)))

def setA (bh : Binheap α K) (n : Nat) (p : Option α) : Option (Binheap α K) :=
  (bh.array (n >>> rowShift)).map (fun row =>
    { bh with
      array := Function.update bh.array (n >>> rowShift)
        (some (Function.update row (n &&& (rowWidth - 1)) p)) })

/-- `A(b, n)` under `assert(A(b, n) != NULL)`. -/
def elem (bh : Binheap α K) (n : Nat) : Option α := (bh.A n).join

/-- The `realloc` of `binheap_addrow`, which doubles the row pointers and clears the new ones. -/
def growRows (bh : Binheap α K) : Binheap α K :=
  if bh.rows ≤ bh.length >>> rowShift then
    { bh with
      array := fun i => if bh.rows ≤ i ∧ i < u32 (bh.rows * 2) then none else bh.array i
      rows := u32 (bh.rows * 2) }
  else bh

/-- The contents of a row fresh from `malloc` are `junk`. -/
def addrow (junk : Nat → Option α) (bh : Binheap α K) : Option (Binheap α K) :=
  let bh := bh.growRows
  if (bh.array (bh.length >>> rowShift)).isSome then none else
    some { bh with
      array := Function.update bh.array (bh.length >>> rowShift) (some junk)
      length := u32 (bh.length + rowWidth) }

/-- `binheap_insert` adds a row when the last one is full. -/
def reserve (junk : Nat → Option α) (bh : Binheap α K) : Option (Binheap α K) :=
  if bh.length = bh.next then bh.addrow junk else some bh

/-- `for (u = 1; (1U << u) != bh->page_size; u++)`, `none` when no shift below 32 fits. -/
def findShift (pageSize : Nat) : Option Nat :=
  (List.range' 1 31).find? (fun u => 1 <<< u = pageSize)

/-- The heap of `binheap_new` before its first row. -/
def blank (pageSize pageShift : Nat) (key : α → K) (idx : α → Nat) : Binheap α K :=
  { array := fun _ => none, rows := 16, length := 0, next := rootIdx
    pageSize := pageSize, pageMask := pageSize - 1, pageShift := pageShift, key := key, idx := idx }

def new (junk : Nat → Option α) (pagesize : Nat) (key : α → K) (idx : α → Nat) :
    Option (Binheap α K) := do
  let pageSize := pagesize / 8
  let pageMask := pageSize - 1
  if pageSize &&& pageMask ≠ 0 then none
  let pageShift ← findShift pageSize
  if 8 * rowWidth < pageSize then none
  let bh ← (blank pageSize pageShift key idx).addrow junk
  bh.setA rootIdx none

variable [DecidableEq α]

def update (bh : Binheap α K) (u : Nat) : Option (Binheap α K) := do
  if ¬ u < bh.next then none
  let p ← bh.elem u
  some { bh with idx := Function.update bh.idx p u }

def swap (bh : Binheap α K) (u v : Nat) : Option (Binheap α K) := do
  if ¬ u < bh.next then none
  let p ← bh.elem u
  if ¬ v < bh.next then none
  let q ← bh.elem v
  let bh ← bh.setA u (some q)
  let bh ← bh.setA v (some p)
  let bh ← bh.update u
  bh.update v

/-- The loop of `binheap_trickleup`; `u` bounds the number of turns because `parent` drops. -/
def trickleup (cmp : K → K → Bool) : Nat → Binheap α K → Nat → Option (Binheap α K × Nat)
  | 0, _, _ => none
  | fuel + 1, bh, u => do
    if ¬ u < bh.next then none
    let p ← bh.elem u
    if rootIdx < u then
      let v ← bh.parent u
      if ¬ v < u then none
      if ¬ v < bh.next then none
      let q ← bh.elem v
      if cmp (bh.key p) (bh.key q) then
        let bh ← bh.swap u v
        trickleup cmp fuel bh v
      else some (bh, u)
    else some (bh, u)

/-- The child of `binheap_trickledown` that belongs nearer the root. -/
def pick (cmp : K → K → Bool) (bh : Binheap α K) (v1 v2 : Nat) : Option Nat := do
  let q1 ← bh.elem v1
  if v1 ≠ v2 ∧ v2 < bh.next then
    let q2 ← bh.elem v2
    some (if cmp (bh.key q2) (bh.key q1) then v2 else v1)
  else some v1

/-- The loop of `binheap_trickledown`; the index grows on every turn and stays below `next`. -/
def trickledown (cmp : K → K → Bool) : Nat → Binheap α K → Nat → Option (Binheap α K × Nat)
  | 0, _, _ => none
  | fuel + 1, bh, u => do
    if ¬ u < bh.next then none
    let p ← bh.elem u
    let (v1, v2) := bh.child u
    if ¬ 0 < v1 then none
    if ¬ 0 < v2 then none
    if ¬ v1 ≤ v2 then none
    if bh.next ≤ v1 then some (bh, u) else
      let v ← bh.pick cmp v1 v2
      if ¬ v < bh.next then none
      let q ← bh.elem v
      if cmp (bh.key p) (bh.key q) then some (bh, u) else
        let bh ← bh.swap u v
        trickledown cmp fuel bh v

def insert (cmp : K → K → Bool) (junk : Nat → Option α) (bh : Binheap α K) (p : α) :
    Option (Binheap α K) := do
  if ¬ bh.next ≤ bh.length then none
  let bh ← bh.reserve junk
  if ¬ bh.next < bh.length then none
  let u := bh.next
  let bh := { bh with next := u32 (bh.next + 1) }
  let bh ← bh.setA u (some p)
  let bh ← bh.update u
  let (bh, _) ← bh.trickleup cmp (u + 1) u
  if ¬ u < bh.next then none
  let _ ← bh.elem u
  some bh

def root (bh : Binheap α K) : Option (Option α) := bh.A rootIdx

/-- The two trickles shared by `binheap_delete` and `binheap_reorder`. -/
def settle (cmp : K → K → Bool) (bh : Binheap α K) (idx : Nat) : Option (Binheap α K) := do
  let (bh, idx) ← bh.trickleup cmp (idx + 1) idx
  if ¬ (idx < bh.next ∧ 0 < idx) then none
  let _ ← bh.elem idx
  let (bh, idx) ← bh.trickledown cmp (bh.next - idx + 1) idx
  if ¬ (idx < bh.next ∧ 0 < idx) then none
  let _ ← bh.elem idx
  some bh

/-- Frees the last row once two rows' worth of slots are unused. -/
def shrink (bh : Binheap α K) : Binheap α K :=
  if u32 (bh.next + 2 * rowWidth) ≤ bh.length then
    { bh with
      array := Function.update bh.array ((bh.length - 1) >>> rowShift) none
      length := bh.length - rowWidth }
  else bh

def delete (cmp : K → K → Bool) (bh : Binheap α K) (idx : Nat) : Option (Binheap α K) := do
  if ¬ rootIdx < bh.next then none
  if ¬ idx < bh.next then none
  if ¬ 0 < idx then none
  let p ← bh.elem idx
  let bh := { bh with idx := Function.update bh.idx p binheapNoidx }
  let bh := { bh with next := bh.next - 1 }
  if idx = bh.next then bh.setA bh.next none else
    let q ← bh.A bh.next
    let bh ← bh.setA idx q
    let bh ← bh.setA bh.next none
    let bh ← bh.update idx
    let bh ← bh.settle cmp idx
    some bh.shrink

def reorder (cmp : K → K → Bool) (bh : Binheap α K) (idx : Nat) : Option (Binheap α K) := do
  if ¬ rootIdx < bh.next then none
  if ¬ idx < bh.next then none
  if ¬ 0 < idx then none
  let _ ← bh.elem idx
  bh.settle cmp idx

end Binheap

end VarnishCache
