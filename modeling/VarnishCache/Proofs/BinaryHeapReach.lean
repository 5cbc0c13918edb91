import VarnishCache.Proofs.BinaryHeapRun
import Mathlib.Data.Multiset.Range

/-!
# Every reachable heap

A run starts at `binheap_new` and performs insertions of elements that are not stored,
deletions and reorderings of used slots. `Book` keeps the elements that were inserted and
not deleted, and those that were deleted and not inserted again.
-/

namespace VarnishCache

inductive HeapOp (α K : Type) where
  | insert (p : α) (c : K)
  | delete (i : Nat)
  | reorder (i : Nat) (c : K)

/-- The elements inserted and not deleted, and those deleted and not inserted again. -/
structure Book (α : Type) where
  stored : Multiset α
  removed : Finset α

variable {α K : Type} [DecidableEq α]

/-- One call on the heap. The caller sets the key of an element before it inserts it, and
changes the key of a stored element right before `binheap_reorder`. -/
def HeapOp.apply (cmp : K → K → Bool) (junk : Nat → Option α) (bh : Binheap α K) :
    HeapOp α K → Option (Binheap α K)
  | insert p c => Binheap.insert cmp junk { bh with key := Function.update bh.key p c } p
  | delete i => bh.delete cmp i
  | reorder i c => do
    let p ← bh.elem i
    Binheap.reorder cmp { bh with key := Function.update bh.key p c } i

def HeapOp.Valid (bh : Binheap α K) (book : Book α) : HeapOp α K → Prop
  | insert p _ => p ∉ book.stored
  | delete i => 1 ≤ i ∧ i < bh.next
  | reorder i _ => 1 ≤ i ∧ i < bh.next

def Book.apply (bh : Binheap α K) (book : Book α) : HeapOp α K → Book α
  | .insert p _ => ⟨p ::ₘ book.stored, book.removed.erase p⟩
  | .delete i =>
    match bh.elem i with
    | some x => ⟨book.stored.erase x, insert x book.removed⟩
    | none => book
  | .reorder _ _ => book

/-- The slot arithmetic of the call stays within 32 bits. -/
def HeapOp.Fits (bh : Binheap α K) : HeapOp α K → Prop
  | insert _ _ => bh.next < 2 ^ 32 - rowWidth
  | delete i => i = bh.next - 1 ∨ bh.next ≤ 2 ^ 32 - 2 * rowWidth + 1
  | reorder _ _ => True

/-- Heaps reached by valid calls that all satisfy `fits`. -/
inductive HeapReach (cmp : K → K → Bool) (junk : Nat → Option α) (pagesize : Nat)
    (fits : Binheap α K → HeapOp α K → Prop) : Binheap α K → Book α → Prop where
  | new {key : α → K} {idx : α → Nat} {bh : Binheap α K} :
      Binheap.new junk pagesize key idx = some bh → HeapReach cmp junk pagesize fits bh ⟨0, ∅⟩
  | step {bh bh' : Binheap α K} {book : Book α} {op : HeapOp α K} :
      HeapReach cmp junk pagesize fits bh book → op.Valid bh book → fits bh op →
      op.apply cmp junk bh = some bh' → HeapReach cmp junk pagesize fits bh' (book.apply bh op)

namespace Binheap

/-- The elements in the slots `ROOT_IDX` to `next - 1`. -/
def contents (bh : Binheap α K) : Multiset α := ((List.range' rootIdx (bh.next - rootIdx)).filterMap bh.elem)

end Binheap

/-- What the users of the heap rely on. -/
structure HeapCorrect (cmp : K → K → Bool) (bh : Binheap α K) (book : Book α) : Prop where
  contents : bh.contents = book.stored
  ordered : ∀ u, rootIdx < u → u < bh.next → ∃ v p q, bh.parent u = some v ∧ bh.elem u = some p ∧
    bh.elem v = some q ∧ ¬cmp (bh.key p) (bh.key q) = true
  idx : ∀ n p, rootIdx ≤ n → n < bh.next → bh.elem n = some p → bh.idx p = n
  noidx : ∀ p ∈ book.removed, bh.idx p = binheapNoidx
  root : ∃ r, bh.root = some r ∧ (r = none ↔ book.stored = 0) ∧
    ∀ p, r = some p → p ∈ book.stored ∧ ∀ q ∈ book.stored, ¬cmp (bh.key q) (bh.key p) = true

namespace Proofs
open Binheap HeapOrder

section Reach

variable {cmp : K → K → Bool} {junk : Nat → Option α} {pagesize : Nat}

omit [DecidableEq α] in
lemma findShift_spec {P s : Nat} (h : findShift P = some s) : 1 ≤ s ∧ P = 2 ^ s := by
  unfold findShift at h
  have hm := List.mem_of_find?_eq_some h
  have hp := List.find?_some h
  rw [List.mem_range'_1] at hm
  simp only [decide_eq_true_eq, Nat.shiftLeft_eq, one_mul] at hp
  exact ⟨hm.1, hp.symm⟩

omit [DecidableEq α] in
lemma new_spec (cmp : K → K → Bool) {key : α → K} {idx : α → Nat} {bh : Binheap α K} (hpage : 32 ≤ pagesize)
    (h : Binheap.new junk pagesize key idx = some bh) : ∃ s, HeapInv cmp s bh ∧ bh.next = 1 := by
  simp only [Binheap.new, Option.bind_eq_bind] at h
  split at h
  · simp at h
  · simp only [Option.bind_eq_some_iff] at h
    obtain ⟨s, hs, h⟩ := h
    obtain ⟨hs1, hP⟩ := findShift_spec hs
    split at h
    · simp at h
    · rename_i hrow
      rw [row_width] at hrow
      have hs2 : 2 ≤ s := by
        by_contra hlt
        obtain rfl : s = 1 := by omega
        omega
      have hs19 : s ≤ 19 := by
        by_contra hgt
        have := Nat.pow_le_pow_right (n := 2) (by norm_num) (by omega : 20 ≤ s)
        omega
      have hrows : Rows (blank (pagesize / 8) s key idx : Binheap α K) :=
        ⟨rfl, by norm_num [blank], by simp [blank], fun _ _ _ => rfl, by simp [blank], by norm_num [blank],
          by norm_num [blank]⟩
      obtain ⟨b, hb, hbr, hbl, hbn, -, -, hbp, -⟩ := addrow_spec junk hrows (by norm_num [blank])
      have hb1 : b.next = 1 := hbn
      have hbs : Shape s b := by
        refine ⟨hbr, hbp s ⟨rfl, hP, by rw [blank, hP], hs2, hs19⟩, by omega, ?_⟩
        rw [hbl, hb1]
        norm_num [blank]
      obtain ⟨b', hb', hsame, -, hA⟩ :=
        setA_spec hbs (by rw [hbl]; norm_num [blank] : 1 < b.length) (none : Option α)
      rw [hb] at h
      change b.setA 1 none = some bh at h
      obtain rfl := Option.some.inj (hb'.symm.trans h)
      have hn : b'.next = 1 := hsame.next.trans hb1
      refine ⟨s, ⟨hsame.shape hbs, ⟨?_, ?_⟩, ?_, fun _ => by rw [hA, if_pos rfl]⟩, hn⟩
      · intro n hn1 hnn
        omega
      · intro n p hn1 hnn
        omega
      · intro d j hj hjn
        omega

/-- The bookkeeping that holds along with the heap invariant. -/
structure Booked (cmp : K → K → Bool) (s : Nat) (bh : Binheap α K) (book : Book α) : Prop where
  inv : HeapInv cmp s bh
  stored : ∀ p, Stored bh p ↔ p ∈ book.stored
  nodup : book.stored.Nodup
  removed : ∀ p ∈ book.removed, ¬Stored bh p ∧ bh.idx p = binheapNoidx

/-- The key of an element outside the heap does not matter. -/
lemma HeapInv.rekey {s : Nat} {bh : Binheap α K} (hi : HeapInv cmp s bh) {p : α} (hp : ¬Stored bh p) (c : K) :
    HeapInv cmp s { bh with key := Function.update bh.key p c } := by
  have hs := hi.shape
  refine ⟨⟨⟨hs.rows.1, hs.rows.2, hs.rows.3, hs.rows.4, hs.rows.5, hs.rows.6, hs.rows.7⟩,
    ⟨hs.paged.1, hs.paged.2, hs.paged.3, hs.paged.4, hs.paged.5⟩, hs.one_le, hs.le⟩,
    ⟨hi.filled.full, hi.filled.idx⟩, ?_, hi.empty⟩
  intro d j hj hjn
  have hpar := parentOf_pow_lt hs.paged.two_le hj
  have hkey : ∀ m, 1 ≤ m → m < bh.next →
      keyAt { bh with key := Function.update bh.key p c } d m = keyAt bh d m := by
    intro m hm1 hm
    obtain ⟨y, hy⟩ := hi.filled.full m hm1 hm
    have hy1 : Binheap.elem { bh with key := Function.update bh.key p c } m = some y := hy
    rw [keyAt_of_elem hy, keyAt_of_elem hy1]
    have hyp : y ≠ p := by
      rintro rfl
      exact hp ⟨m, hm1, hm, hy⟩
    exact Function.update_of_ne hyp _ _
  rw [hkey j hj.le hjn, hkey _ hpar.1 (hpar.2.trans hjn)]
  exact hi.ordered d j hj hjn

/-- One valid call succeeds and keeps the books. -/
theorem apply_spec (hcmp : StrictWeak cmp) (junk : Nat → Option α) {s : Nat} {bh : Binheap α K} {book : Book α}
    (hb : Booked cmp s bh book) {op : HeapOp α K} (hv : op.Valid bh book) (hf : op.Fits bh) :
    ∃ bh', op.apply cmp junk bh = some bh' ∧ Booked cmp s bh' (book.apply bh op) := by
  cases op with
  | insert p c =>
    have hp : ¬Stored bh p := fun h => hv ((hb.stored p).mp h)
    obtain ⟨b, hrun, hinv, -, -, hst, hfr⟩ :=
      insert_spec hcmp junk (hb.inv.rekey hp c) (p := p) hp (by rw [← row_width]; exact hf)
    refine ⟨b, hrun, hinv, ?_, ?_, ?_⟩
    · intro x
      rw [hst x]
      show _ ↔ x ∈ p ::ₘ book.stored
      rw [Multiset.mem_cons, ← hb.stored x]
      rfl
    · exact Multiset.nodup_cons.mpr ⟨hv, hb.nodup⟩
    · intro x hx
      obtain ⟨hxp, hxr⟩ := Finset.mem_erase.mp hx
      obtain ⟨hxs, hx0⟩ := hb.removed x hxr
      refine ⟨fun h => ?_, (hfr x hxp hxs).trans hx0⟩
      rcases (hst x).mp h with h | h
      · exact hxp h
      · exact hxs h
  | delete i =>
    obtain ⟨hi1, hin⟩ := hv
    obtain ⟨x, hx⟩ := hb.inv.filled.full i hi1 hin
    obtain ⟨b, hrun, hr⟩ := delete_spec hcmp hb.inv hi1 hin hx (by simpa [HeapOp.Fits, row_width] using hf)
    have hbook : book.apply bh (.delete i : HeapOp α K) = ⟨book.stored.erase x, insert x book.removed⟩ := by
      simp only [Book.apply, hx]
    rw [hbook]
    refine ⟨b, hrun, ⟨hr.shape, hr.filled, hr.ordered, hr.empty⟩, ?_, hb.nodup.erase x, ?_⟩
    · intro y
      rw [hr.stored y, hb.stored y, hb.nodup.mem_erase_iff]
      exact and_comm
    · intro y hy
      rcases Finset.mem_insert.mp hy with rfl | hy
      · exact ⟨fun h => ((hr.stored y).mp h).2 rfl, hr.noidx⟩
      · obtain ⟨hys, hy0⟩ := hb.removed y hy
        exact ⟨fun h => hys ((hr.stored y).mp h).1, (hr.frame y hys).trans hy0⟩
  | reorder i c =>
    obtain ⟨hi1, hin⟩ := hv
    obtain ⟨x, hx⟩ := hb.inv.filled.full i hi1 hin
    obtain ⟨b, hrun, hinv, -, -, hst, hfr⟩ := reorder_spec hcmp hb.inv hi1 hin hx c
    refine ⟨b, by simpa [HeapOp.apply, hx] using hrun, hinv, ?_, hb.nodup, ?_⟩
    · intro y
      exact (hst y).trans (hb.stored y)
    · intro y hy
      obtain ⟨hys, hy0⟩ := hb.removed y hy
      exact ⟨fun h => hys ((hst y).mp h), (hfr y hys).trans hy0⟩

theorem reach_booked (hcmp : StrictWeak cmp) (hpage : 32 ≤ pagesize) {bh : Binheap α K} {book : Book α}
    (h : HeapReach cmp junk pagesize (fun bh op => op.Fits bh) bh book) : ∃ s, Booked cmp s bh book := by
  induction h with
  | new hnew =>
    obtain ⟨s, hinv, hn⟩ := new_spec cmp hpage hnew
    refine ⟨s, hinv, ?_, Multiset.nodup_zero, by simp⟩
    intro p
    constructor
    · rintro ⟨n, hn1, hnn, -⟩
      omega
    · intro hp
      exact absurd hp (Multiset.notMem_zero p)
  | step _ hv hf happ ih =>
    obtain ⟨s, hb⟩ := ih
    obtain ⟨b, hrun, hb'⟩ := apply_spec hcmp junk hb hv hf
    obtain rfl := Option.some.inj (happ.symm.trans hrun)
    exact ⟨s, hb'⟩

omit [DecidableEq α] in
lemma mem_contents {bh : Binheap α K} {p : α} : p ∈ bh.contents ↔ Stored bh p := by
  rw [Binheap.contents, Multiset.mem_coe, List.mem_filterMap]
  simp only [List.mem_range'_1, Stored, rootIdx]
  constructor
  · rintro ⟨n, hn, hp⟩
    exact ⟨n, hn.1, by omega, hp⟩
  · rintro ⟨n, hn1, hn, hp⟩
    exact ⟨n, ⟨hn1, by omega⟩, hp⟩

omit [DecidableEq α] in
lemma contents_nodup {bh : Binheap α K} (hf : Filled bh) : bh.contents.Nodup := by
  rw [Binheap.contents, Multiset.coe_nodup]
  unfold List.Nodup
  rw [List.pairwise_filterMap]
  apply List.Pairwise.imp_of_mem _ List.nodup_range'
  intro m n hm hn hmn p hp q hq hpq
  rw [List.mem_range'_1, rootIdx] at hm hn
  subst hpq
  exact hmn (hf.slot_unique hm.1 (by omega) hn.1 (by omega) hp hq)

omit [DecidableEq α] in
/-- The books tell the users of the heap all they rely on. -/
theorem Booked.correct (hcmp : StrictWeak cmp) {s : Nat} {bh : Binheap α K} {book : Book α}
    (hb : Booked cmp s bh book) : HeapCorrect cmp bh book := by
  have hs := hb.inv.shape
  have hf := hb.inv.filled
  have hnext := hs.next_lt
  refine ⟨?_, ?_, hf.idx, fun p hp => (hb.removed p hp).2, ?_⟩
  · rw [Multiset.Nodup.ext (contents_nodup hf) hb.nodup]
    intro p
    rw [mem_contents, hb.stored]
  · intro u hu hun
    have hpar := parentOf_pow_lt hs.paged.two_le hu
    obtain ⟨p, hp⟩ := hf.full u (le_of_lt hu) hun
    obtain ⟨q, hq⟩ := hf.full (parentOf (2 ^ s) u) hpar.1 (hpar.2.trans hun)
    refine ⟨_, p, q, parent_eq hs.paged (hun.trans hnext), hp, hq, ?_⟩
    have hord := hb.inv.ordered p u hu hun
    rwa [keyAt_of_elem hp, keyAt_of_elem hq] at hord
  · by_cases h1 : bh.next = 1
    · refine ⟨none, hb.inv.empty h1, ⟨fun _ => ?_, fun _ => rfl⟩, by simp⟩
      apply Multiset.eq_zero_of_forall_notMem
      intro p hp
      obtain ⟨n, hn1, hn, -⟩ := (hb.stored p).mpr hp
      omega
    · have h2 : 1 < bh.next := by
        have := hs.one_le
        omega
      obtain ⟨r, hr⟩ := hf.full 1 le_rfl h2
      have hrm : r ∈ book.stored := (hb.stored r).mp ⟨1, le_rfl, h2, hr⟩
      refine ⟨some r, elem_eq.mp hr, ⟨by simp, fun h => ?_⟩, ?_⟩
      · rw [h] at hrm
        exact absurd hrm (Multiset.notMem_zero r)
      · rintro p ⟨⟩
        refine ⟨hrm, fun q hq => ?_⟩
        obtain ⟨n, hn1, hn, hqn⟩ := (hb.stored q).mpr hq
        have hle := (hb.inv.ordered r).root_le hcmp (fun j hj _ => parentOf_pow_lt hs.paged.two_le hj) hn1 hn
        rwa [keyAt_of_elem hqn, keyAt_of_elem hr] at hle

/-- In every run whose slot arithmetic stays within 32 bits, the heap is what its users rely
on after every call, and no further call of that kind fails an assertion. -/
theorem binheap_runs_correct (hcmp : StrictWeak cmp) (hpage : 32 ≤ pagesize) {bh : Binheap α K} {book : Book α}
    (h : HeapReach cmp junk pagesize (fun bh op => op.Fits bh) bh book) :
    HeapCorrect cmp bh book ∧
      ∀ op : HeapOp α K, op.Valid bh book → op.Fits bh → ∃ bh', op.apply cmp junk bh = some bh' := by
  obtain ⟨s, hb⟩ := reach_booked hcmp hpage h
  refine ⟨hb.correct hcmp, fun op hv hf => ?_⟩
  obtain ⟨b, hrun, -⟩ := apply_spec hcmp junk hb hv hf
  exact ⟨b, hrun⟩

omit [DecidableEq α] in
lemma Booked.next_eq (hcmp : StrictWeak cmp) {s : Nat} {bh : Binheap α K} {book : Book α}
    (hb : Booked cmp s bh book) : bh.next = book.stored.card + 1 := by
  have hc := (hb.correct hcmp).contents
  have hlen : ((List.range' rootIdx (bh.next - rootIdx)).filterMap bh.elem).length = bh.next - rootIdx := by
    have h := List.filterMap_length_eq_length (f := bh.elem) (l := List.range' rootIdx (bh.next - rootIdx))
    rw [List.length_range'] at h
    apply h.mpr
    intro n hn
    rw [List.mem_range'_1, rootIdx] at hn
    obtain ⟨p, hp⟩ := hb.inv.filled.full n hn.1 (by omega)
    rw [hp]
    rfl
  have h1 := hb.inv.shape.one_le
  rw [← hc, Binheap.contents, Multiset.coe_card, hlen, rootIdx]
  omega

end Reach

section Wrap

def natLess (a b : Nat) : Bool := decide (a < b)

lemma natLess_strictWeak : StrictWeak natLess := by
  constructor <;> simp only [natLess, decide_eq_true_eq] <;> omega

/-- A run on a machine with pages of 4096 bytes. -/
abbrev NatReach (fits : Binheap Nat Nat → HeapOp Nat Nat → Prop) : Binheap Nat Nat → Book Nat → Prop :=
  HeapReach natLess (fun _ => none) 4096 fits

/-- Inserting the numbers below `n` one after another. -/
lemma reach_inserts (n : Nat) (hn : n < 2 ^ 32 - 2 ^ 16) :
    ∃ bh book s, NatReach (fun bh op => op.Fits bh) bh book ∧ Booked natLess s bh book ∧
      book.stored = Multiset.range n := by
  induction n with
  | zero =>
    obtain ⟨b, hb⟩ : ∃ b, Binheap.new (fun _ => none) 4096 (fun _ : Nat => 0) (fun _ => 0) = some b := ⟨_, rfl⟩
    have hr : NatReach (fun bh op => op.Fits bh) b ⟨0, ∅⟩ := .new hb
    obtain ⟨s, hs⟩ := reach_booked natLess_strictWeak (by norm_num) hr
    exact ⟨b, ⟨0, ∅⟩, s, hr, hs, rfl⟩
  | succ n ih =>
    obtain ⟨bh, book, s, hr, hb, hst⟩ := ih (by omega)
    have hnext := hb.next_eq natLess_strictWeak
    rw [hst, Multiset.card_range] at hnext
    have hv : (HeapOp.insert n n : HeapOp Nat Nat).Valid bh book := by
      rw [HeapOp.Valid, hst, Multiset.mem_range]
      exact lt_irrefl n
    have hf : (HeapOp.insert n n : HeapOp Nat Nat).Fits bh := by
      rw [HeapOp.Fits, row_width]
      omega
    obtain ⟨bh', hrun, hb'⟩ := apply_spec natLess_strictWeak (fun _ => none) hb hv hf
    refine ⟨bh', _, s, hr.step hv hf hrun, hb', ?_⟩
    rw [Multiset.range_succ, ← hst]
    rfl

theorem binheap_runs_correct_three_elements : ∃ (bh : Binheap Nat Nat) (book : Book Nat),
    book.stored = {2, 1, 0} ∧ NatReach (fun bh op => op.Fits bh) bh book ∧ HeapCorrect natLess bh book ∧
      ∃ bh', (HeapOp.delete 1 : HeapOp Nat Nat).apply natLess (fun _ => none) bh = some bh' := by
  obtain ⟨bh, book, s, hr, hb, hst⟩ := reach_inserts 3 (by norm_num)
  have hnext := hb.next_eq natLess_strictWeak
  rw [hst, Multiset.card_range] at hnext
  obtain ⟨hc, hrun⟩ := binheap_runs_correct natLess_strictWeak (by norm_num) hr
  refine ⟨bh, book, by rw [hst]; decide, hr, hc, hrun _ ⟨le_rfl, by omega⟩ (Or.inr ?_)⟩
  rw [hnext, row_width]
  norm_num

lemma HeapReach.weaken {fits fits' : Binheap α K → HeapOp α K → Prop} {cmp : K → K → Bool}
    {junk : Nat → Option α} {pagesize : Nat} (hfit : ∀ bh op, fits bh op → fits' bh op) {bh : Binheap α K}
    {book : Book α} (h : HeapReach cmp junk pagesize fits bh book) : HeapReach cmp junk pagesize fits' bh book := by
  induction h with
  | new hnew => exact .new hnew
  | step _ hv hf happ ih => exact ih.step hv (hfit _ _ hf) happ

omit [DecidableEq α] in
lemma shrink_elem {b : Binheap α K} {n : Nat} {p : α} (h : b.shrink.elem n = some p) : b.elem n = some p := by
  unfold Binheap.shrink at h
  split at h
  · rw [elem_eq, A_eq] at h ⊢
    dsimp only at h
    by_cases hrow : n / 2 ^ 16 = (b.length - 1) >>> rowShift
    · rw [hrow, Function.update_self] at h
      cases h
    · rwa [Function.update_of_ne hrow] at h
  · exact h

omit [DecidableEq α] in
/-- Past `2^32 - 2 * ROW_WIDTH` the row that is freed is the one of the last slot in use. -/
lemma shrink_frees_row {s : Nat} {b : Binheap α K} (hs : Shape s b) (hbig : 2 ^ 32 - 2 ^ 17 < b.next) :
    b.shrink.next = b.next ∧ b.shrink.array ((b.next - 1) / 2 ^ 16) = none := by
  have hw := hs.rows.whole
  have hl := hs.rows.lt
  have hle := hs.le
  have hwrap : u32 (b.next + 2 * rowWidth) ≤ b.length := by
    rw [u32, row_width]
    omega
  refine ⟨by rw [Binheap.shrink, if_pos hwrap], ?_⟩
  rw [Binheap.shrink, if_pos hwrap, row_index]
  dsimp only
  rw [show (b.next - 1) / 2 ^ 16 = (b.length - 1) / 2 ^ 16 by omega, Function.update_self]

omit [DecidableEq α] in
/-- The last slot in use is gone with its row. -/
lemma shrink_frees_used {s : Nat} {b : Binheap α K} (hs : Shape s b) (hbig : 2 ^ 32 - 2 ^ 17 < b.next) :
    b.shrink.next = b.next ∧ b.shrink.elem (b.next - 1) = none := by
  obtain ⟨hnext, hrow⟩ := shrink_frees_row hs hbig
  refine ⟨hnext, ?_⟩
  rw [elem, A_eq, hrow]
  rfl

/-- With more than `2^32 - 2 * ROW_WIDTH` elements the sum `next + 2 * ROW_WIDTH` in
`binheap_delete` wraps, and the row that holds the last slots is freed. -/
theorem binheap_delete_frees_used_row : ¬∀ (bh : Binheap Nat Nat) (book : Book Nat),
    NatReach (fun _ _ => True) bh book → HeapCorrect natLess bh book := by
  intro hall
  obtain ⟨bh, book, s, hr, hb, hst⟩ := reach_inserts (2 ^ 32 - 2 ^ 17 + 2) (by norm_num)
  have hnext := hb.next_eq natLess_strictWeak
  rw [hst, Multiset.card_range] at hnext
  obtain ⟨x, hx⟩ := hb.inv.filled.full 1 le_rfl (by omega)
  obtain ⟨b, hrun, hlen, hrem⟩ := delete_middle_spec natLess_strictWeak hb.inv le_rfl (by omega) hx
  have hbn := hrem.next
  have hvalid : (HeapOp.delete 1 : HeapOp Nat Nat).Valid bh book := ⟨le_rfl, by omega⟩
  have hr' : NatReach (fun _ _ => True) b.shrink (book.apply bh (.delete 1 : HeapOp Nat Nat)) :=
    (HeapReach.weaken (fun _ _ _ => trivial) hr).step hvalid trivial hrun
  have hcorrect := hall _ _ hr'
  obtain ⟨hsn, hfree⟩ := shrink_frees_used hrem.shape (by omega)
  obtain ⟨v, p, q, -, hp, -, -⟩ := hcorrect.ordered (b.next - 1) (by rw [rootIdx]; omega) (by omega)
  rw [hfree] at hp
  exact absurd hp (by simp)

/-- What is stored in which row, between two calls. -/
structure RowStorage (bh : Binheap α K) : Prop where
  used : ∀ n, n < bh.next → (bh.array (n >>> rowShift)).isSome
  next_le : bh.next ≤ bh.length
  length : bh.length = rowWidth * (List.range bh.rows).countP fun r => (bh.array r).isSome
  /-- The assertion of `binheap_addrow`, where `binheap_insert` calls it. -/
  unused : bh.length = bh.next → bh.growRows.array (bh.length >>> rowShift) = none
  first : (bh.array 0).isSome

omit [DecidableEq α] in
/-- As many rows as are below `length` are allocated. -/
lemma Rows.countP {bh : Binheap α K} (h : Rows bh) :
    ((List.range bh.rows).countP fun r => (bh.array r).isSome) = bh.length / 2 ^ 16 := by
  have hsplit : List.range bh.rows =
      List.range (bh.length / 2 ^ 16) ++ List.range' (bh.length / 2 ^ 16) (bh.rows - bh.length / 2 ^ 16) := by
    have happend := List.range'_append_1 (s := 0) (m := bh.length / 2 ^ 16) (n := bh.rows - bh.length / 2 ^ 16)
    rw [Nat.zero_add, Nat.add_sub_cancel' h.le_rows] at happend
    rw [List.range_eq_range', List.range_eq_range', happend]
  have hfirst : ((List.range (bh.length / 2 ^ 16)).countP fun r => (bh.array r).isSome) = bh.length / 2 ^ 16 := by
    rw [List.countP_eq_length.mpr fun r hr => h.alloc r (List.mem_range.mp hr), List.length_range]
  have hrest :
      ((List.range' (bh.length / 2 ^ 16) (bh.rows - bh.length / 2 ^ 16)).countP fun r => (bh.array r).isSome) = 0 := by
    rw [List.countP_eq_zero]
    intro r hr
    rw [List.mem_range'_1] at hr
    rw [h.free r hr.1 (by omega)]
    exact Bool.false_ne_true
  rw [hsplit, List.countP_append, hfirst, hrest, Nat.add_zero]

omit [DecidableEq α] in
lemma Shape.rowStorage {s : Nat} {bh : Binheap α K} (h : Shape s bh) : RowStorage bh where
  used n hn := by
    have hle := h.le
    have hw := h.rows.whole
    rw [row_index]
    exact h.rows.alloc _ (by omega)
  next_le := h.le
  length := by
    have hw := h.rows.whole
    rw [h.rows.countP, row_width]
    omega
  unused _ := by
    obtain ⟨hg, hlen, hlt, -⟩ := growRows_spec h.rows
    rw [row_index]
    exact hg.free _ (by rw [hlen]) hlt
  first := by
    have hle := h.le
    have hone := h.one_le
    have hw := h.rows.whole
    exact h.rows.alloc 0 (by omega)

/-- In every run whose slot arithmetic stays within 32 bits, the rows are as they should be, every further call is
possible, and a row is released only when none of its slots is used, and never the first one. -/
theorem row_storage {cmp : K → K → Bool} {junk : Nat → Option α} {pagesize : Nat} (hcmp : StrictWeak cmp)
    (hpage : 32 ≤ pagesize)
    {bh : Binheap α K} {book : Book α} (h : HeapReach cmp junk pagesize (fun bh op => op.Fits bh) bh book) :
    RowStorage bh ∧ ∀ op : HeapOp α K, op.Valid bh book → op.Fits bh → ∃ bh', op.apply cmp junk bh = some bh' ∧
      ∀ r, (bh.array r).isSome → bh'.array r = none → r ≠ 0 ∧ ∀ n, n >>> rowShift = r → bh'.next ≤ n := by
  obtain ⟨s, hb⟩ := reach_booked hcmp hpage h
  refine ⟨hb.inv.shape.rowStorage, fun op hv hf => ?_⟩
  obtain ⟨bh', hrun, hb'⟩ := apply_spec hcmp junk hb hv hf
  have hrows := hb'.inv.shape.rowStorage
  refine ⟨bh', hrun, fun r _ hnone => ⟨?_, fun n hn => ?_⟩⟩
  · rintro rfl
    have hfirst := hrows.first
    rw [hnone] at hfirst
    cases hfirst
  · by_contra hlt
    have hused := hrows.used n (Nat.lt_of_not_le hlt)
    rw [hn, hnone] at hused
    cases hused

theorem row_storage_two_elements : ∃ (bh : Binheap Nat Nat) (book : Book Nat), book.stored = {1, 0} ∧
    RowStorage bh ∧ ∃ bh', (HeapOp.delete 1 : HeapOp Nat Nat).apply natLess (fun _ => none) bh = some bh' := by
  obtain ⟨bh, book, s, hr, hb, hst⟩ := reach_inserts 2 (by norm_num)
  have hnext := hb.next_eq natLess_strictWeak
  rw [hst, Multiset.card_range] at hnext
  obtain ⟨hrows, hrun⟩ := row_storage natLess_strictWeak (by norm_num) hr
  have hfits : (HeapOp.delete 1 : HeapOp Nat Nat).Fits bh := Or.inr (by rw [hnext, row_width]; norm_num)
  obtain ⟨bh', hdelete, -⟩ := hrun (.delete 1) ⟨le_refl _, by omega⟩ hfits
  exact ⟨bh, book, by rw [hst]; decide, hrows, bh', hdelete⟩

/-- The number of elements stays below `2^32 - ROW_WIDTH`. -/
def HeapOp.CountFits (bh : Binheap α K) : HeapOp α K → Prop
  | .insert _ _ => bh.next < 2 ^ 32 - rowWidth
  | _ => True

/-- A row in use is released when there are that many elements. -/
theorem used_row_released : ¬∀ (bh : Binheap Nat Nat) (book : Book Nat),
    NatReach (fun bh op => HeapOp.CountFits bh op) bh book → RowStorage bh := by
  intro hall
  obtain ⟨bh, book, s, hr, hb, hst⟩ := reach_inserts (2 ^ 32 - 2 ^ 17 + 2) (by norm_num)
  have hnext := hb.next_eq natLess_strictWeak
  rw [hst, Multiset.card_range] at hnext
  obtain ⟨x, hx⟩ := hb.inv.filled.full 1 le_rfl (by omega)
  obtain ⟨b, hrun, hlen, hrem⟩ := delete_middle_spec natLess_strictWeak hb.inv le_rfl (by omega) hx
  have hbn := hrem.next
  have hvalid : (HeapOp.delete 1 : HeapOp Nat Nat).Valid bh book := ⟨le_rfl, by omega⟩
  have hcount : NatReach (fun bh op => HeapOp.CountFits bh op) bh book :=
    HeapReach.weaken (fun _ op hf => by cases op with | insert p c => exact hf | _ => trivial) hr
  have hrows := hall _ _ (hcount.step hvalid trivial hrun)
  have hone := hrem.shape.one_le
  obtain ⟨hsn, hfree⟩ := shrink_frees_row hrem.shape (by omega)
  have hused := hrows.used (b.next - 1) (by rw [hsn]; omega)
  rw [row_index, hfree] at hused
  cases hused

end Wrap

end Proofs

end VarnishCache
