import VarnishCache.Proofs.BinaryHeap
import Mathlib.Data.Multiset.Filter
import Mathlib.Data.Finset.Insert

/-!
# Runs of heap operations

Each operation keeps `HeapInv` and changes the stored elements by exactly its argument,
as long as the index arithmetic of `binheap_delete` does not wrap.
-/

namespace VarnishCache.Proofs
open Binheap HeapOrder

variable {α K : Type} [DecidableEq α]

/-- The state of the heap between two calls. -/
structure HeapInv (cmp : K → K → Bool) (s : Nat) (bh : Binheap α K) : Prop where
  shape : Shape s bh
  filled : Filled bh
  ordered : ∀ d, Ordered cmp (parentOf (2 ^ s)) 1 bh.next (keyAt bh d)
  empty : bh.next = 1 → bh.A 1 = some none

section Operations

variable {s : Nat} {bh : Binheap α K} {cmp : K → K → Bool} {junk : Nat → Option α}

omit [DecidableEq α] in
lemma A_eq (n : Nat) : bh.A n = (bh.array (n / 2 ^ 16)).map (fun row => row (n % 2 ^ 16)) := by
  rw [A, row_index, row_offset]

omit [DecidableEq α] in
lemma growRows_spec (hr : Rows bh) :
    Rows bh.growRows ∧ bh.growRows.length = bh.length ∧ bh.length / 2 ^ 16 < bh.growRows.rows ∧
      bh.growRows.next = bh.next ∧ bh.growRows.key = bh.key ∧ bh.growRows.idx = bh.idx ∧
      (∀ t, Paged bh t → Paged bh.growRows t) ∧ ∀ n, n < bh.length → bh.growRows.A n = bh.A n := by
  have hw := hr.whole
  have hl := hr.lt
  have hle := hr.le_rows
  have hpos := hr.rows_pos
  have hrl := hr.rows_le
  by_cases hg : bh.rows ≤ bh.length / 2 ^ 16
  · have he : bh.growRows = { bh with
        array := fun i => if bh.rows ≤ i ∧ i < bh.rows * 2 then none else bh.array i
        rows := bh.rows * 2 } := by
      have hrows : u32 (bh.rows * 2) = bh.rows * 2 := by rw [u32, Nat.mod_eq_of_lt (by omega)]
      rw [growRows, row_index, if_pos hg, hrows]
    rw [he]
    refine ⟨⟨hw, hl, ?_, ?_, ?_, ?_, ?_⟩, rfl, ?_, rfl, rfl, rfl, fun t ht => ⟨ht.1, ht.2, ht.3, ht.4, ht.5⟩, ?_⟩
    · intro r hrr
      dsimp only at hrr ⊢
      rw [if_neg (by omega)]
      exact hr.alloc r hrr
    · intro r hrr hr2
      dsimp only at hrr hr2 ⊢
      rw [if_pos (by omega)]
    · dsimp only
      omega
    · dsimp only
      omega
    · dsimp only
      omega
    · dsimp only
      omega
    · intro n hn
      rw [A_eq, A_eq]
      dsimp only
      rw [if_neg (by omega)]
  · rw [growRows, row_index, if_neg hg]
    exact ⟨hr, rfl, by omega, rfl, rfl, rfl, fun _ ht => ht, fun _ _ => rfl⟩

omit [DecidableEq α] in
lemma addrow_spec (junk : Nat → Option α) (hr : Rows bh) (hlen : bh.length < 2 ^ 32 - 2 ^ 16) :
    ∃ bh', bh.addrow junk = some bh' ∧ Rows bh' ∧ bh'.length = bh.length + 2 ^ 16 ∧
      bh'.next = bh.next ∧ bh'.key = bh.key ∧ bh'.idx = bh.idx ∧ (∀ t, Paged bh t → Paged bh' t) ∧
      ∀ n, n < bh.length → bh'.A n = bh.A n := by
  obtain ⟨hg, hgl, hgr, hgn, hgk, hgi, hgp, hga⟩ := growRows_spec hr
  have hw := hr.whole
  have hpos := hg.rows_pos
  have hrl := hg.rows_le
  have hnone : bh.growRows.array (bh.length / 2 ^ 16) = none := hg.free _ (by rw [hgl]) hgr
  have hlen' : u32 (bh.growRows.length + rowWidth) = bh.length + 2 ^ 16 := by
    rw [hgl, u32, row_width, Nat.mod_eq_of_lt (by omega)]
  have he : bh.addrow junk = some { bh.growRows with
      array := Function.update bh.growRows.array (bh.length / 2 ^ 16) (some junk)
      length := bh.length + 2 ^ 16 } := by
    rw [addrow]
    dsimp only
    rw [hlen', row_index, hgl, hnone]
    rfl
  refine ⟨_, he, ⟨?_, ?_, ?_, ?_, ?_, hpos, hrl⟩, rfl, hgn, hgk, hgi,
    fun t ht => ⟨(hgp t ht).1, (hgp t ht).2, (hgp t ht).3, ht.4, ht.5⟩, ?_⟩
  · dsimp only
    omega
  · dsimp only
    omega
  · intro r hrr
    dsimp only at hrr ⊢
    by_cases h : r = bh.length / 2 ^ 16
    · rw [h, Function.update_self]
      rfl
    · rw [Function.update_of_ne h]
      exact hg.alloc r (by omega)
  · intro r hrr hr2
    dsimp only at hrr ⊢
    rw [Function.update_of_ne (by omega)]
    exact hg.free r (by omega) hr2
  · dsimp only
    omega
  · intro n hn
    rw [← hga n hn, A_eq, A_eq]
    dsimp only
    rw [Function.update_of_ne (by omega)]

omit [DecidableEq α] in
/-- Freeing a row is harmless while `next + 2 * ROW_WIDTH` does not wrap past a used slot. -/
lemma shrink_spec (hs : Shape s bh) (hle : bh.next ≤ 2 ^ 32 - 2 ^ 17)
    (hlt : bh.next = 2 ^ 32 - 2 ^ 17 → bh.next < bh.length) :
    Shape s bh.shrink ∧ bh.shrink.next = bh.next ∧ bh.shrink.key = bh.key ∧ bh.shrink.idx = bh.idx ∧
      ∀ n, n < bh.next → bh.shrink.A n = bh.A n := by
  have hw := hs.rows.whole
  have hl := hs.rows.lt
  have hn := hs.le
  have hn1 := hs.one_le
  by_cases hc : u32 (bh.next + 2 * rowWidth) ≤ bh.length
  · have hroom : bh.next + 2 ^ 16 ≤ bh.length := by
      rw [u32, row_width] at hc
      omega
    have hrow : (bh.length - 1) >>> rowShift = bh.length / 2 ^ 16 - 1 := by
      rw [row_index]
      omega
    have he : bh.shrink = { bh with
        array := Function.update bh.array (bh.length / 2 ^ 16 - 1) none
        length := bh.length - 2 ^ 16 } := by
      rw [shrink, if_pos hc, hrow, row_width]
    rw [he]
    refine ⟨⟨⟨?_, ?_, ?_, ?_, ?_, hs.rows.rows_pos, hs.rows.rows_le⟩,
      ⟨hs.paged.shift, hs.paged.size, hs.paged.mask, hs.paged.two_le, hs.paged.le_rows⟩, hn1, ?_⟩,
      rfl, rfl, rfl, ?_⟩
    · dsimp only
      omega
    · dsimp only
      omega
    · intro r hr
      dsimp only at hr ⊢
      rw [Function.update_of_ne (by omega)]
      exact hs.rows.alloc r (by omega)
    · intro r hr hr2
      dsimp only at hr ⊢
      by_cases h : r = bh.length / 2 ^ 16 - 1
      · rw [h, Function.update_self]
      · rw [Function.update_of_ne h]
        exact hs.rows.free r (by omega) hr2
    · have := hs.rows.le_rows
      dsimp only
      omega
    · exact Nat.le_sub_of_add_le hroom
    · intro n hnn
      rw [A_eq, A_eq]
      dsimp only
      rw [Function.update_of_ne (by omega)]
  · rw [shrink, if_neg hc]
    exact ⟨hs, rfl, rfl, rfl, fun _ _ => rfl⟩

omit [DecidableEq α] in
/-- The row handling of `binheap_insert` leaves room for one more slot. -/
lemma reserve_spec (junk : Nat → Option α) (hs : Shape s bh) (hcap : bh.next < 2 ^ 32 - 2 ^ 16) :
    ∃ b, bh.reserve junk = some b ∧ Rows b ∧ Paged b s ∧
      b.next = bh.next ∧ b.next < b.length ∧ b.key = bh.key ∧ b.idx = bh.idx ∧
      ∀ n, n < bh.next → b.A n = bh.A n := by
  have hle := hs.le
  by_cases hfull : bh.length = bh.next
  · obtain ⟨b, hb, hr, hl, hn, hk, hi, hp, ha⟩ := addrow_spec junk hs.rows (by omega)
    rw [reserve, if_pos hfull]
    exact ⟨b, hb, hr, hp s hs.paged, hn, by omega, hk, hi, fun n hn => ha n (by omega)⟩
  · rw [reserve, if_neg hfull]
    exact ⟨bh, rfl, hs.rows, hs.paged, rfl, by omega, rfl, rfl, fun _ _ => rfl⟩

theorem insert_spec (hcmp : StrictWeak cmp) (junk : Nat → Option α) (hi : HeapInv cmp s bh) {p : α}
    (hp : ¬Stored bh p) (hcap : bh.next < 2 ^ 32 - 2 ^ 16) :
    ∃ bh', bh.insert cmp junk p = some bh' ∧ HeapInv cmp s bh' ∧ bh'.next = bh.next + 1 ∧
      bh'.key = bh.key ∧ (∀ x, Stored bh' x ↔ x = p ∨ Stored bh x) ∧
      ∀ x, x ≠ p → ¬Stored bh x → bh'.idx x = bh.idx x := by
  have hs := hi.shape
  have h1 := hs.one_le
  obtain ⟨b, hb, hr, hpg, hbn, hbl, hbk, hbi, hba⟩ := reserve_spec junk hs hcap
  have hnext : u32 (bh.next + 1) = bh.next + 1 := Nat.mod_eq_of_lt (by omega)
  have hroom : bh.next < b.length := by omega
  let b1 : Binheap α K := { b with next := bh.next + 1 }
  have hs1 : Shape s b1 :=
    ⟨⟨hr.1, hr.2, hr.3, hr.4, hr.5, hr.6, hr.7⟩, ⟨hpg.1, hpg.2, hpg.3, hpg.4, hpg.5⟩,
      Nat.le_add_left 1 bh.next,
      by show bh.next + 1 ≤ b.length; omega⟩
  obtain ⟨b2, hb2, same2, hi2, ha2⟩ := setA_spec hs1 (by show bh.next < b.length; omega) (some p)
  have hn2 : b2.next = bh.next + 1 := same2.next
  have he2 : b2.elem bh.next = some p := elem_eq.mpr (by rw [ha2, if_pos rfl])
  have hold : ∀ n, n < bh.next → b2.elem n = bh.elem n := by
    intro n hn
    apply elem_congr
    rw [ha2, if_neg (by omega)]
    exact hba n hn
  have hu := update_spec (by omega : bh.next < b2.next) he2
  let b3 : Binheap α K := { b2 with idx := Function.update b2.idx p bh.next }
  have hs3 : Shape s b3 := by
    have h := same2.shape hs1
    exact ⟨⟨h.rows.1, h.rows.2, h.rows.3, h.rows.4, h.rows.5, h.rows.6, h.rows.7⟩,
      ⟨h.paged.1, h.paged.2, h.paged.3, h.paged.4, h.paged.5⟩, h.one_le, h.le⟩
  have hk3 : b3.key = bh.key := same2.key.trans hbk
  have hf3 : Filled b3 := by
    constructor
    · intro n hn1 hn
      show ∃ q, b2.elem n = some q
      by_cases hne : n = bh.next
      · exact ⟨p, hne ▸ he2⟩
      · rw [hold n (by change n < b2.next at hn; omega)]
        exact hi.filled.full n hn1 (by change n < b2.next at hn; omega)
    · intro n q hn1 hn hq
      change b2.elem n = some q at hq
      change n < b2.next at hn
      show Function.update b2.idx p bh.next q = n
      by_cases hne : n = bh.next
      · rw [hne] at hq ⊢
        obtain rfl : p = q := by simpa [he2] using hq
        rw [Function.update_self]
      · rw [hold n (by omega)] at hq
        have hqp : q ≠ p := fun h => hp ⟨n, hn1, by omega, h ▸ hq⟩
        rw [Function.update_of_ne hqp, hi2]
        show b.idx q = n
        rw [hbi]
        exact hi.filled.idx n q hn1 (by omega) hq
  have hkey3 : ∀ d n, n < bh.next → keyAt b3 d n = keyAt bh d n := by
    intro d n hn
    show b3.key ((b2.elem n).getD d) = _
    rw [hold n hn, hk3]
    rfl
  have hparAll : ∀ j, 1 < j → j < bh.next + 1 → 1 ≤ parentOf (2 ^ s) j ∧ parentOf (2 ^ s) j < j :=
    fun j hj _ => parentOf_pow_lt hs.paged.two_le hj
  have hole3 : ∀ d, Hole cmp (parentOf (2 ^ s)) 1 b3.next (keyAt b3 d) bh.next := by
    intro d
    show Hole _ _ _ b2.next _ _
    rw [hn2]
    exact (hi.ordered d).append hparAll (hkey3 d)
  have hbelow3 : ∀ d, Below cmp (parentOf (2 ^ s)) 1 b3.next (keyAt b3 d) bh.next := by
    intro d j hj hjn hjp
    change j < b2.next at hjn
    have h := parentOf_pow_lt hs.paged.two_le hj
    omega
  obtain ⟨b4, u4, hrun, hmv, _, _, _, _⟩ :=
    trickleup_spec hcmp p (bh.next + 1) b3 bh.next hs3 hf3 h1 (by show bh.next < b2.next; omega)
      (by omega) (hole3 p)
  have hord : ∀ d, Ordered cmp (parentOf (2 ^ s)) 1 b4.next (keyAt b4 d) := by
    intro d
    obtain ⟨b5, u5, hrun5, _, _, _, _, hord5⟩ :=
      trickleup_spec hcmp d (bh.next + 1) b3 bh.next hs3 hf3 h1 (by show bh.next < b2.next; omega)
        (by omega) (hole3 d)
    obtain ⟨rfl, -⟩ := Prod.mk.injEq .. ▸ Option.some.inj (hrun.symm.trans hrun5)
    exact hord5 (hbelow3 d)
  have hn4 : b4.next = bh.next + 1 := hmv.same.next.trans hn2
  obtain ⟨x4, hx4⟩ := hmv.filled.full bh.next h1 (by omega)
  refine ⟨b4, ?_, ⟨hmv.same.shape hs3, hmv.filled, hord, fun h => by omega⟩, hn4,
    hmv.same.key.trans hk3, ?_, ?_⟩
  · simp only [Binheap.insert, hs.le, hb, hroom, hbn, hnext, not_true_eq_false, ite_false,
      Option.bind_eq_bind, Option.bind_some]
    change (b1.setA bh.next (some p)).bind _ = _
    rw [hb2, Option.bind_some, hu, Option.bind_some]
    change (b3.trickleup cmp (bh.next + 1) bh.next).bind _ = _
    rw [hrun]
    simp [hn4, hx4]
  · intro x
    rw [hmv.stored]
    constructor
    · rintro ⟨n, hn1, hn, hx⟩
      change n < b2.next at hn
      change b2.elem n = some x at hx
      by_cases hne : n = bh.next
      · left
        rw [hne, he2] at hx
        exact (Option.some.inj hx).symm
      · right
        exact ⟨n, hn1, by omega, by rw [← hold n (by omega), hx]⟩
    · rintro (rfl | ⟨n, hn1, hn, hx⟩)
      · exact ⟨bh.next, h1, by show _ < b2.next; omega, he2⟩
      · exact ⟨n, hn1, by show _ < b2.next; omega, by show b2.elem n = _; rw [hold n hn, hx]⟩
  · intro x hxp hx
    rw [hmv.frame x ?_]
    · show Function.update b2.idx p bh.next x = _
      rw [Function.update_of_ne hxp, hi2]
      exact congrFun hbi x
    · rintro ⟨n, hn1, hn, hxn⟩
      change n < b2.next at hn
      change b2.elem n = some x at hxn
      by_cases hne : n = bh.next
      · rw [hne, he2] at hxn
        exact hxp (Option.some.inj hxn).symm
      · exact hx ⟨n, hn1, by omega, by rw [← hold n (by omega), hxn]⟩

/-- What a deletion leaves behind, before row storage is given back. -/
structure Removed (cmp : K → K → Bool) (s : Nat) (bh : Binheap α K) (x : α) (b : Binheap α K) : Prop where
  shape : Shape s b
  filled : Filled b
  ordered : ∀ d, Ordered cmp (parentOf (2 ^ s)) 1 b.next (keyAt b d)
  empty : b.next = 1 → b.A 1 = some none
  next : b.next = bh.next - 1
  key : b.key = bh.key
  stored : ∀ y, Stored b y ↔ Stored bh y ∧ y ≠ x
  noidx : b.idx x = binheapNoidx
  frame : ∀ y, ¬Stored bh y → b.idx y = bh.idx y

/-- The heap without its last slot, where the removed element has been told so. -/
def dropLast (bh : Binheap α K) (x : α) : Binheap α K :=
  { bh with idx := Function.update bh.idx x binheapNoidx, next := bh.next - 1 }

lemma dropLast_shape (hs : Shape s bh) (x : α) (h2 : 1 < bh.next) : Shape s (dropLast bh x) where
  rows := ⟨hs.rows.1, hs.rows.2, hs.rows.3, hs.rows.4, hs.rows.5, hs.rows.6, hs.rows.7⟩
  paged := ⟨hs.paged.1, hs.paged.2, hs.paged.3, hs.paged.4, hs.paged.5⟩
  one_le := Nat.le_sub_of_add_le h2
  le := (Nat.sub_le _ _).trans hs.le

theorem delete_last_spec (hi : HeapInv cmp s bh) (h2 : 1 < bh.next) {x : α}
    (hx : bh.elem (bh.next - 1) = some x) :
    ∃ b, bh.delete cmp (bh.next - 1) = some b ∧ Removed cmp s bh x b := by
  have hs := hi.shape
  have hs0 := dropLast_shape hs x h2
  have hlen : bh.next - 1 < (dropLast bh x).length := by
    have := hs.le
    show _ < bh.length
    omega
  obtain ⟨b, hb, hsame, hidx, hA⟩ := setA_spec hs0 hlen none
  have hnext : b.next = bh.next - 1 := hsame.next
  have helem : ∀ n, n < bh.next - 1 → b.elem n = bh.elem n := by
    intro n hn
    apply elem_congr
    rw [hA, if_neg (by omega)]
    rfl
  have hkey : ∀ d j, j < bh.next - 1 → keyAt b d j = keyAt bh d j := by
    intro d j hj
    rw [keyAt, keyAt, helem j hj, hsame.key]
    rfl
  have hne : ∀ n y, 1 ≤ n → n < bh.next - 1 → bh.elem n = some y → y ≠ x := by
    rintro n y hn1 hn hy rfl
    have := hi.filled.slot_unique hn1 (by omega) (by omega) (by omega) hy hx
    omega
  refine ⟨b, ?_, hsame.shape hs0, ⟨?_, ?_⟩, ?_, ?_, hnext, hsame.key, ?_, ?_, ?_⟩
  · simp only [Binheap.delete, rootIdx, h2, Nat.sub_lt (by omega : 0 < bh.next) Nat.one_pos,
      (by omega : 0 < bh.next - 1), hx, not_true_eq_false, ite_false, ite_true, Option.bind_eq_bind,
      Option.bind_some]
    exact hb
  · intro n hn1 hn
    rw [helem n (by omega)]
    exact hi.filled.full n hn1 (by omega)
  · intro n y hn1 hn hy
    rw [helem n (by omega)] at hy
    rw [hidx]
    show Function.update bh.idx x binheapNoidx y = n
    rw [Function.update_of_ne (hne n y hn1 (by omega) hy)]
    exact hi.filled.idx n y hn1 (by omega) hy
  · intro d j hj hjn
    have hp := parentOf_pow_lt hs.paged.two_le hj
    rw [hkey d j (by omega), hkey d _ (by omega)]
    exact hi.ordered d j hj (by omega)
  · intro h1
    rw [hA, if_pos (by omega)]
  · intro y
    constructor
    · rintro ⟨n, hn1, hn, hy⟩
      rw [helem n (by omega)] at hy
      exact ⟨⟨n, hn1, by omega, hy⟩, hne n y hn1 (by omega) hy⟩
    · rintro ⟨⟨n, hn1, hn, hy⟩, hyx⟩
      have hlast : n ≠ bh.next - 1 := by
        rintro rfl
        rw [hx] at hy
        exact hyx (Option.some.inj hy).symm
      exact ⟨n, hn1, by omega, by rw [helem n (by omega), hy]⟩
  · rw [hidx]
    exact Function.update_self ..
  · intro y hy
    rw [hidx]
    apply Function.update_of_ne
    rintro rfl
    exact hy ⟨_, by omega, by omega, hx⟩

/-- The replacement of a middle element by the last one, up to the row bookkeeping. -/
theorem delete_middle_spec (hcmp : StrictWeak cmp) (hi : HeapInv cmp s bh) {i : Nat} {x : α} (hi1 : 1 ≤ i)
    (hin : i < bh.next - 1) (hx : bh.elem i = some x) :
    ∃ b, bh.delete cmp i = some b.shrink ∧ b.length = bh.length ∧ Removed cmp s bh x b := by
  have hs := hi.shape
  have hs0 := dropLast_shape hs x (by omega)
  have hle := hs.le
  obtain ⟨q, hq⟩ := hi.filled.full (bh.next - 1) (by omega) (by omega)
  have hqx : q ≠ x := by
    rintro rfl
    have := hi.filled.slot_unique hi1 (by omega) (by omega) (by omega) hx hq
    omega
  obtain ⟨b1, hb1, same1, hi1', hA1⟩ := setA_spec hs0 (by show i < bh.length; omega) (some q)
  obtain ⟨b2, hb2, same2, hi2', hA2⟩ :=
    setA_spec (same1.shape hs0) (by rw [same1.length]; show bh.next - 1 < bh.length; omega) none
  have hsame := same1.trans same2
  have hn2 : b2.next = bh.next - 1 := hsame.next
  have hei : b2.elem i = some q := elem_eq.mpr (by rw [hA2, if_neg (by omega), hA1, if_pos rfl])
  have helem : ∀ n, n < bh.next - 1 → n ≠ i → b2.elem n = bh.elem n := by
    intro n hn hni
    apply elem_congr
    rw [hA2, if_neg (by omega), hA1, if_neg hni]
    rfl
  have hu := update_spec (by omega : i < b2.next) hei
  let b3 : Binheap α K := { b2 with idx := Function.update b2.idx q i }
  have hs3 : Shape s b3 := by
    have h := hsame.shape hs0
    exact ⟨⟨h.rows.1, h.rows.2, h.rows.3, h.rows.4, h.rows.5, h.rows.6, h.rows.7⟩,
      ⟨h.paged.1, h.paged.2, h.paged.3, h.paged.4, h.paged.5⟩, h.one_le, h.le⟩
  have hidx3 : b3.idx = Function.update (Function.update bh.idx x binheapNoidx) q i := by
    show Function.update b2.idx q i = _
    rw [hi2', hi1']
    rfl
  have hne : ∀ n y, 1 ≤ n → n < bh.next - 1 → n ≠ i → bh.elem n = some y → y ≠ x ∧ y ≠ q := by
    intro n y hn1 hn hni hy
    constructor
    · rintro rfl
      exact hni (hi.filled.slot_unique hn1 (by omega) hi1 (by omega) hy hx)
    · rintro rfl
      have := hi.filled.slot_unique hn1 (by omega) (by omega) (by omega) hy hq
      omega
  have hf3 : Filled b3 := by
    constructor
    · intro n hn1 hn
      change n < b2.next at hn
      show ∃ y, b2.elem n = some y
      by_cases hni : n = i
      · exact ⟨q, hni ▸ hei⟩
      · rw [helem n (by omega) hni]
        exact hi.filled.full n hn1 (by omega)
    · intro n y hn1 hn hy
      change n < b2.next at hn
      change b2.elem n = some y at hy
      rw [hidx3]
      by_cases hni : n = i
      · subst hni
        obtain rfl : q = y := by simpa [hei] using hy
        rw [Function.update_self]
      · rw [helem n (by omega) hni] at hy
        obtain ⟨hyx, hyq⟩ := hne n y hn1 (by omega) hni hy
        rw [Function.update_of_ne hyq, Function.update_of_ne hyx]
        exact hi.filled.idx n y hn1 (by omega) hy
  have hole3 : ∀ d, Hole cmp (parentOf (2 ^ s)) 1 b3.next (keyAt b3 d) i := by
    intro d
    show Hole _ _ _ b2.next _ _
    rw [hn2]
    apply ((hi.ordered d).mono (Nat.sub_le _ 1)).hole hcmp
      (fun j hj _ => parentOf_pow_lt hs.paged.two_le hj) hin
    intro j _ hj hji
    show b2.key ((b2.elem j).getD d) = _
    rw [helem j hj hji, hsame.key]
    rfl
  obtain ⟨b4, hrun, hmv, _⟩ := settle_spec hcmp x hs3 hf3 hi1 (by show i < b2.next; omega) (hole3 x)
  have hord : ∀ d, Ordered cmp (parentOf (2 ^ s)) 1 b4.next (keyAt b4 d) := by
    intro d
    obtain ⟨b5, hrun5, _, hord5⟩ := settle_spec hcmp d hs3 hf3 hi1 (by show i < b2.next; omega) (hole3 d)
    obtain rfl := Option.some.inj (hrun.symm.trans hrun5)
    exact hord5
  have hst3 : ∀ y, Stored b3 y ↔ Stored bh y ∧ y ≠ x := by
    intro y
    constructor
    · rintro ⟨n, hn1, hn, hy⟩
      change n < b2.next at hn
      change b2.elem n = some y at hy
      by_cases hni : n = i
      · rw [hni, hei] at hy
        obtain rfl := Option.some.inj hy
        exact ⟨⟨_, by omega, by omega, hq⟩, hqx⟩
      · rw [helem n (by omega) hni] at hy
        exact ⟨⟨n, hn1, by omega, hy⟩, (hne n y hn1 (by omega) hni hy).1⟩
    · rintro ⟨⟨n, hn1, hn, hy⟩, hyx⟩
      by_cases hlast : n = bh.next - 1
      · rw [hlast, hq] at hy
        exact ⟨i, hi1, by show i < b2.next; omega, by show b2.elem i = _; rw [hei, hy]⟩
      · have hni : n ≠ i := by
          rintro rfl
          rw [hx] at hy
          exact hyx (Option.some.inj hy).symm
        exact ⟨n, hn1, by show n < b2.next; omega, by show b2.elem n = _; rw [helem n (by omega) hni, hy]⟩
  have hxs : ¬Stored b3 x := fun h => ((hst3 x).mp h).2 rfl
  refine ⟨b4, ?_, ?_, hmv.same.shape hs3, hmv.filled, hord, ?_, ?_, ?_, ?_, ?_, ?_⟩
  · have hA : (dropLast bh x).A (bh.next - 1) = some (some q) := elem_eq.mp hq
    simp only [Binheap.delete, rootIdx, (by omega : 1 < bh.next), (by omega : i < bh.next),
      Nat.pos_of_ne_zero (by omega : i ≠ 0), hx, not_true_eq_false, ite_false,
      Option.bind_eq_bind, Option.bind_some]
    rw [if_neg (by omega)]
    change ((dropLast bh x).A (bh.next - 1)).bind _ = _
    rw [hA, Option.bind_some]
    change ((dropLast bh x).setA i (some q)).bind _ = _
    rw [hb1, Option.bind_some, show b1.next = bh.next - 1 from same1.next, hb2, Option.bind_some, hu,
      Option.bind_some]
    change (b3.settle cmp i).bind _ = _
    rw [hrun]
    rfl
  · exact hmv.same.length.trans hsame.length
  · intro h1
    have h4 : b4.next = bh.next - 1 := hmv.same.next.trans hn2
    omega
  · exact hmv.same.next.trans hn2
  · exact hmv.same.key.trans hsame.key
  · intro y
    exact (hmv.stored y).trans (hst3 y)
  · rw [hmv.frame x hxs, hidx3, Function.update_of_ne (Ne.symm hqx), Function.update_self]
  · intro y hy
    have hyq : y ≠ q := fun h => hy (h ▸ ⟨_, by omega, by omega, hq⟩)
    have hyx : y ≠ x := fun h => hy (h ▸ ⟨_, hi1, by omega, hx⟩)
    rw [hmv.frame y (fun h => hy ((hst3 y).mp h).1), hidx3, Function.update_of_ne hyq,
      Function.update_of_ne hyx]

omit [DecidableEq α] in
/-- Giving back a row keeps the heap unless the sum in its test wraps past a used slot. -/
lemma Removed.shrink {x : α} {b : Binheap α K} (hr : Removed cmp s bh x b) (hle : bh.next ≤ 2 ^ 32 - 2 ^ 17 + 1)
    (hlt : b.next < b.length) : Removed cmp s bh x b.shrink := by
  have hn := hr.next
  have h1 := hr.shape.one_le
  obtain ⟨hs, hnx, hk, hid, hA⟩ := shrink_spec hr.shape (by omega) (fun _ => hlt)
  have helem : ∀ n, n < b.next → b.shrink.elem n = b.elem n := fun n hn => elem_congr (hA n hn)
  refine ⟨hs, ⟨?_, ?_⟩, ?_, ?_, hnx.trans hn, hk.trans hr.key, ?_, ?_, ?_⟩
  · intro n hn1 hn'
    rw [hnx] at hn'
    rw [helem n hn']
    exact hr.filled.full n hn1 hn'
  · intro n y hn1 hn' hy
    rw [hnx] at hn'
    rw [helem n hn'] at hy
    rw [hid]
    exact hr.filled.idx n y hn1 hn' hy
  · intro d j hj hjn
    rw [hnx] at hjn
    have hp := parentOf_pow_lt hs.paged.two_le hj
    have hkey : ∀ m, m < b.next → keyAt b.shrink d m = keyAt b d m := by
      intro m hm
      rw [keyAt, keyAt, helem m hm, hk]
    rw [hkey j hjn, hkey _ (by omega)]
    exact hr.ordered d j hj hjn
  · intro h
    rw [hnx] at h
    have hroom : b.shrink.A 1 = b.A 1 := by
      by_cases hc : u32 (b.next + 2 * rowWidth) ≤ b.length
      · rw [h, u32, row_width] at hc
        have hw := hr.shape.rows.whole
        have he : b.shrink.array ((1 : Nat) / 2 ^ 16) = b.array (1 / 2 ^ 16) := by
          rw [Binheap.shrink, if_pos (by rw [h, u32, row_width]; exact hc), row_index]
          exact Function.update_of_ne (by omega) _ _
        rw [A_eq, A_eq, he]
      · rw [Binheap.shrink, if_neg hc]
    rw [hroom]
    exact hr.empty h
  · intro y
    rw [← hr.stored y]
    constructor
    · rintro ⟨n, hn1, hn', hy⟩
      rw [hnx] at hn'
      exact ⟨n, hn1, hn', by rw [← helem n hn', hy]⟩
    · rintro ⟨n, hn1, hn', hy⟩
      exact ⟨n, hn1, by rw [hnx]; exact hn', by rw [helem n hn', hy]⟩
  · rw [hid]
    exact hr.noidx
  · intro y hy
    rw [hid]
    exact hr.frame y hy

theorem delete_spec (hcmp : StrictWeak cmp) (hi : HeapInv cmp s bh) {i : Nat} {x : α} (hi1 : 1 ≤ i)
    (hin : i < bh.next) (hx : bh.elem i = some x)
    (hfit : i = bh.next - 1 ∨ bh.next ≤ 2 ^ 32 - 2 ^ 17 + 1) :
    ∃ b, bh.delete cmp i = some b ∧ Removed cmp s bh x b := by
  by_cases hlast : i = bh.next - 1
  · subst hlast
    exact delete_last_spec hi (by omega) hx
  · obtain ⟨b, hb, hlen, hr⟩ := delete_middle_spec hcmp hi hi1 (by omega) hx
    have hle := hi.shape.le
    have hn := hr.next
    exact ⟨b.shrink, hb, hr.shrink (by omega) (by omega)⟩

/-- `binheap_reorder` after an arbitrary change of the key of the element at `i`. -/
theorem reorder_spec (hcmp : StrictWeak cmp) (hi : HeapInv cmp s bh) {i : Nat} {x : α} (hi1 : 1 ≤ i)
    (hin : i < bh.next) (hx : bh.elem i = some x) (c : K) :
    ∃ b, Binheap.reorder cmp { bh with key := Function.update bh.key x c } i = some b ∧ HeapInv cmp s b ∧
      b.next = bh.next ∧ b.key = Function.update bh.key x c ∧ (∀ y, Stored b y ↔ Stored bh y) ∧
      ∀ y, ¬Stored bh y → b.idx y = bh.idx y := by
  have hs := hi.shape
  let b1 : Binheap α K := { bh with key := Function.update bh.key x c }
  have hs1 : Shape s b1 :=
    ⟨⟨hs.rows.1, hs.rows.2, hs.rows.3, hs.rows.4, hs.rows.5, hs.rows.6, hs.rows.7⟩,
      ⟨hs.paged.1, hs.paged.2, hs.paged.3, hs.paged.4, hs.paged.5⟩, hs.one_le, hs.le⟩
  have hf1 : Filled b1 := ⟨hi.filled.full, hi.filled.idx⟩
  have hslot : ∀ n y, 1 ≤ n → n < bh.next → n ≠ i → bh.elem n = some y → y ≠ x := by
    rintro n y hn1 hn hni hy rfl
    exact hni (hi.filled.slot_unique hn1 hn hi1 hin hy hx)
  have hole1 : ∀ d, Hole cmp (parentOf (2 ^ s)) 1 b1.next (keyAt b1 d) i := by
    intro d
    apply (hi.ordered d).hole hcmp (fun j hj _ => parentOf_pow_lt hs.paged.two_le hj) hin
    intro j hj1 hj hji
    obtain ⟨y, hy⟩ := hi.filled.full j hj1 hj
    have hy1 : b1.elem j = some y := hy
    rw [keyAt_of_elem hy, keyAt_of_elem hy1]
    exact Function.update_of_ne (hslot j y hj1 hj hji hy) _ _
  obtain ⟨b, hrun, hmv, _⟩ := settle_spec hcmp x hs1 hf1 hi1 hin (hole1 x)
  have hord : ∀ d, Ordered cmp (parentOf (2 ^ s)) 1 b.next (keyAt b d) := by
    intro d
    obtain ⟨b5, hrun5, _, hord5⟩ := settle_spec hcmp d hs1 hf1 hi1 hin (hole1 d)
    obtain rfl := Option.some.inj (hrun.symm.trans hrun5)
    exact hord5
  have hn : b.next = bh.next := hmv.same.next
  refine ⟨b, ?_, ⟨hmv.same.shape hs1, hmv.filled, hord, fun h => by omega⟩, hn, hmv.same.key,
    hmv.stored, hmv.frame⟩
  have hxb : b1.elem i = some x := hx
  change b1.reorder cmp i = _
  simp only [Binheap.reorder, rootIdx, (by omega : 1 < bh.next), hin, Nat.pos_of_ne_zero (by omega : i ≠ 0),
    hxb, not_true_eq_false, ite_false, Option.bind_eq_bind, Option.bind_some, b1]
  exact hrun

end Operations

end VarnishCache.Proofs
