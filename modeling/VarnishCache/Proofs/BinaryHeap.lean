import VarnishCache.Lib.HeapOrder
import VarnishCache.Proofs.BinaryHeapIndex

/-!
# The two trickles of the heap

Row storage is reduced to slot reads and writes first. A sift then only permutes the
stored elements and keeps every element's reported index equal to its slot, and the order
of the keys follows from `HeapOrder`.
-/

namespace VarnishCache.Proofs
open Binheap HeapOrder

variable {α K : Type}

/-- The two heaps differ in slot contents and reported indices only. -/
structure Same (bh bh' : Binheap α K) : Prop where
  rows : bh'.rows = bh.rows
  length : bh'.length = bh.length
  next : bh'.next = bh.next
  size : bh'.pageSize = bh.pageSize
  mask : bh'.pageMask = bh.pageMask
  shift : bh'.pageShift = bh.pageShift
  key : bh'.key = bh.key
  alloc : ∀ r, (bh'.array r).isSome = (bh.array r).isSome

lemma Same.refl (bh : Binheap α K) : Same bh bh := ⟨rfl, rfl, rfl, rfl, rfl, rfl, rfl, fun _ => rfl⟩

lemma Same.trans {a b c : Binheap α K} (h : Same a b) (h' : Same b c) : Same a c :=
  ⟨h'.rows.trans h.rows, h'.length.trans h.length, h'.next.trans h.next, h'.size.trans h.size,
    h'.mask.trans h.mask, h'.shift.trans h.shift, h'.key.trans h.key,
    fun r => (h'.alloc r).trans (h.alloc r)⟩

/-- Row storage: exactly the rows below `length` are allocated. -/
structure Rows (bh : Binheap α K) : Prop where
  whole : bh.length % 2 ^ 16 = 0
  lt : bh.length < 2 ^ 32
  alloc : ∀ r, r < bh.length / 2 ^ 16 → (bh.array r).isSome = true
  free : ∀ r, bh.length / 2 ^ 16 ≤ r → r < bh.rows → bh.array r = none
  le_rows : bh.length / 2 ^ 16 ≤ bh.rows
  rows_pos : 0 < bh.rows
  rows_le : bh.rows ≤ 2 ^ 17

structure Shape (s : Nat) (bh : Binheap α K) : Prop where
  rows : Rows bh
  paged : Paged bh s
  one_le : 1 ≤ bh.next
  le : bh.next ≤ bh.length

lemma Same.shape {s : Nat} {bh bh' : Binheap α K} (h : Same bh bh') (hs : Shape s bh) : Shape s bh' where
  rows :=
    { whole := by rw [h.length]; exact hs.rows.whole
      lt := by rw [h.length]; exact hs.rows.lt
      alloc := by intro r hr; rw [h.alloc]; rw [h.length] at hr; exact hs.rows.alloc r hr
      free := by
        intro r hr hr'
        have hn := hs.rows.free r (by rwa [← h.length]) (by rwa [← h.rows])
        have ha := h.alloc r
        rw [hn] at ha
        simpa using ha
      le_rows := by rw [h.length, h.rows]; exact hs.rows.le_rows
      rows_pos := by rw [h.rows]; exact hs.rows.rows_pos
      rows_le := by rw [h.rows]; exact hs.rows.rows_le }
  paged := ⟨h.shift.trans hs.paged.shift, h.size.trans hs.paged.size, h.mask.trans hs.paged.mask,
    hs.paged.two_le, hs.paged.le_rows⟩
  one_le := by rw [h.next]; exact hs.one_le
  le := by rw [h.next, h.length]; exact hs.le

lemma row_width : rowWidth = 2 ^ 16 := by decide

lemma row_index (n : Nat) : n >>> rowShift = n / 2 ^ 16 := by rw [Nat.shiftRight_eq_div_pow, rowShift]

lemma row_offset (n : Nat) : n &&& (rowWidth - 1) = n % 2 ^ 16 := by
  rw [row_width, Nat.and_two_pow_sub_one_eq_mod]

lemma A_setA {bh bh' : Binheap α K} {n : Nat} {p : Option α} (h : bh.setA n p = some bh') (m : Nat) :
    bh'.A m = if m = n then some p else bh.A m := by
  unfold setA at h
  rw [Option.map_eq_some_iff] at h
  obtain ⟨row, hrow, rfl⟩ := h
  unfold A
  rw [row_index] at hrow
  simp only [row_index, row_offset]
  by_cases hq : m / 2 ^ 16 = n / 2 ^ 16
  · rw [hq, Function.update_self, hrow]
    by_cases ho : m % 2 ^ 16 = n % 2 ^ 16
    · rw [ho, if_pos (by omega)]
      simp
    · rw [if_neg (by intro hmn; exact ho (by rw [hmn]))]
      rw [Option.map_some, Option.map_some, Function.update_of_ne ho]
  · rw [Function.update_of_ne hq, if_neg (by intro hmn; exact hq (by rw [hmn]))]

/-- Writing a slot of an allocated row. -/
lemma setA_spec {s n : Nat} {bh : Binheap α K} (hs : Shape s bh) (hn : n < bh.length) (p : Option α) :
    ∃ bh', bh.setA n p = some bh' ∧ Same bh bh' ∧ bh'.idx = bh.idx ∧
      ∀ m, bh'.A m = if m = n then some p else bh.A m := by
  have hw := hs.rows.whole
  have hal := hs.rows.alloc (n / 2 ^ 16) (by omega)
  obtain ⟨row, hrow⟩ := Option.isSome_iff_exists.mp hal
  have hset : bh.setA n p = some { bh with
      array := Function.update bh.array (n >>> rowShift)
        (some (Function.update row (n &&& (rowWidth - 1)) p)) } := by
    rw [← row_index] at hrow
    simp [setA, hrow]
  refine ⟨_, hset, ⟨rfl, rfl, rfl, rfl, rfl, rfl, rfl, ?_⟩, rfl, A_setA hset⟩
  intro r
  dsimp only
  by_cases hr : r = n >>> rowShift
  · rw [hr, Function.update_self, row_index, hrow]
    rfl
  · rw [Function.update_of_ne hr]

lemma elem_eq {bh : Binheap α K} {n : Nat} {p : α} : bh.elem n = some p ↔ bh.A n = some (some p) := by
  unfold elem
  cases h : bh.A n with
  | none => simp
  | some o => simp

lemma elem_congr {bh bh' : Binheap α K} {n : Nat} (h : bh'.A n = bh.A n) : bh'.elem n = bh.elem n := by
  rw [elem, elem, h]

def Stored (bh : Binheap α K) (p : α) : Prop := ∃ n, 1 ≤ n ∧ n < bh.next ∧ bh.elem n = some p

/-- Every slot in use holds an element, and that element was told its slot. -/
structure Filled (bh : Binheap α K) : Prop where
  full : ∀ n, 1 ≤ n → n < bh.next → ∃ p, bh.elem n = some p
  idx : ∀ n p, 1 ≤ n → n < bh.next → bh.elem n = some p → bh.idx p = n

lemma Filled.slot_unique {bh : Binheap α K} (h : Filled bh) {m n : Nat} {p : α} (hm : 1 ≤ m)
    (hmn : m < bh.next) (hn : 1 ≤ n) (hnn : n < bh.next) (hp : bh.elem m = some p)
    (hq : bh.elem n = some p) : m = n := by
  rw [← h.idx m p hm hmn hp, h.idx n p hn hnn hq]

/-- What a sift may do: permute the stored elements and report their slots. -/
structure Moved (bh bh' : Binheap α K) : Prop where
  same : Same bh bh'
  filled : Filled bh'
  stored : ∀ p, Stored bh' p ↔ Stored bh p
  frame : ∀ p, ¬Stored bh p → bh'.idx p = bh.idx p

lemma Moved.trans {a b c : Binheap α K} (h : Moved a b) (h' : Moved b c) : Moved a c where
  same := h.same.trans h'.same
  filled := h'.filled
  stored p := (h'.stored p).trans (h.stored p)
  frame p hp := (h'.frame p (fun hs => hp ((h.stored p).mp hs))).trans (h.frame p hp)

lemma Moved.refl {bh : Binheap α K} (h : Filled bh) : Moved bh bh :=
  ⟨Same.refl bh, h, fun _ => Iff.rfl, fun _ _ => rfl⟩

/-- Keys by slot; `d` stands in for the key of an empty slot. -/
def keyAt (bh : Binheap α K) (d : α) (n : Nat) : K := bh.key ((bh.elem n).getD d)

lemma keyAt_of_elem {bh : Binheap α K} {d p : α} {n : Nat} (h : bh.elem n = some p) :
    keyAt bh d n = bh.key p := by simp [keyAt, h]

variable [DecidableEq α]

lemma update_spec {n : Nat} {bh : Binheap α K} {p : α} (hn : n < bh.next) (hp : bh.elem n = some p) :
    bh.update n = some { bh with idx := Function.update bh.idx p n } := by
  simp [Binheap.update, hn, hp]

section Sift

variable {s u v : Nat} {bh : Binheap α K} {cmp : K → K → Bool}

lemma swap_spec (hs : Shape s bh) (hu : u < bh.next) (hv : v < bh.next) {p q : α}
    (huv : u ≠ v) (hp : bh.elem u = some p) (hq : bh.elem v = some q) :
    ∃ bh', bh.swap u v = some bh' ∧ Same bh bh' ∧
      bh'.idx = Function.update (Function.update bh.idx q u) p v ∧
      bh'.elem u = some q ∧ bh'.elem v = some p ∧ ∀ n, n ≠ u → n ≠ v → bh'.elem n = bh.elem n := by
  have hle := hs.le
  obtain ⟨b1, h1, s1, i1, a1⟩ := setA_spec hs (by omega : u < bh.length) (some q)
  obtain ⟨b2, h2, s2, i2, a2⟩ := setA_spec (s1.shape hs) (by rw [s1.length]; omega : v < b1.length) (some p)
  have hn2 : b2.next = bh.next := s2.next.trans s1.next
  have e2u : b2.elem u = some q := elem_eq.mpr (by rw [a2, if_neg huv, a1, if_pos rfl])
  have e2v : b2.elem v = some p := elem_eq.mpr (by rw [a2, if_pos rfl])
  have h3 := update_spec (by omega : u < b2.next) e2u
  let b3 : Binheap α K := { b2 with idx := Function.update b2.idx q u }
  have h4 : b3.update v = some { b3 with idx := Function.update b3.idx p v } :=
    update_spec (by show v < b2.next; omega) e2v
  have hsame := s1.trans s2
  refine ⟨{ b3 with idx := Function.update b3.idx p v }, ?_,
    ⟨hsame.rows, hsame.length, hsame.next, hsame.size, hsame.mask, hsame.shift, hsame.key, hsame.alloc⟩,
    ?_, e2u, e2v, ?_⟩
  · simp only [Binheap.swap, hu, hv, hp, hq, h1, h2, h3, not_true_eq_false, ite_false, Option.bind_eq_bind,
      Option.bind_some]
    exact h4
  · show Function.update (Function.update b2.idx q u) p v = _
    rw [i2, i1]
  · intro n hnu hnv
    show b2.elem n = bh.elem n
    exact elem_congr (by rw [a2, if_neg hnv, a1, if_neg hnu])

/-- A swap of two used slots moves elements and reports both of them. -/
lemma swap_moved (hs : Shape s bh) (hf : Filled bh) (hu1 : 1 ≤ u) (hu : u < bh.next) (hv1 : 1 ≤ v)
    (hv : v < bh.next) (huv : u ≠ v) :
    ∃ bh', bh.swap u v = some bh' ∧ Moved bh bh' ∧ bh'.elem u = bh.elem v ∧ bh'.elem v = bh.elem u ∧
      ∀ n, n ≠ u → n ≠ v → bh'.elem n = bh.elem n := by
  obtain ⟨p, hp⟩ := hf.full u hu1 hu
  obtain ⟨q, hq⟩ := hf.full v hv1 hv
  obtain ⟨bh', hsw, hsame, hidx, heu, hev, hen⟩ := swap_spec hs hu hv huv hp hq
  have hpq : p ≠ q := fun h => huv (hf.slot_unique hu1 hu hv1 hv hp (h ▸ hq))
  refine ⟨bh', hsw, ⟨hsame, ⟨?_, ?_⟩, ?_, ?_⟩, by rw [heu, hq], by rw [hev, hp], hen⟩
  · intro n hn1 hn
    rw [hsame.next] at hn
    by_cases hnu : n = u
    · exact ⟨q, hnu ▸ heu⟩
    · by_cases hnv : n = v
      · exact ⟨p, hnv ▸ hev⟩
      · rw [hen n hnu hnv]
        exact hf.full n hn1 hn
  · intro n x hn1 hn hx
    rw [hsame.next] at hn
    rw [hidx]
    by_cases hnu : n = u
    · subst hnu
      obtain rfl : q = x := by simpa [heu] using hx
      rw [Function.update_of_ne (Ne.symm hpq), Function.update_self]
    · by_cases hnv : n = v
      · subst hnv
        obtain rfl : p = x := by simpa [hev] using hx
        rw [Function.update_self]
      · rw [hen n hnu hnv] at hx
        have hxp : x ≠ p := fun h => hnu (hf.slot_unique hn1 hn hu1 hu hx (h ▸ hp))
        have hxq : x ≠ q := fun h => hnv (hf.slot_unique hn1 hn hv1 hv hx (h ▸ hq))
        rw [Function.update_of_ne hxp, Function.update_of_ne hxq]
        exact hf.idx n x hn1 hn hx
  · intro x
    constructor
    · rintro ⟨n, hn1, hn, hx⟩
      rw [hsame.next] at hn
      by_cases hnu : n = u
      · subst hnu
        exact ⟨v, hv1, hv, by rw [hq, ← hx, heu]⟩
      · by_cases hnv : n = v
        · subst hnv
          exact ⟨u, hu1, hu, by rw [hp, ← hx, hev]⟩
        · exact ⟨n, hn1, hn, by rw [← hen n hnu hnv, hx]⟩
    · rintro ⟨n, hn1, hn, hx⟩
      by_cases hnu : n = u
      · subst hnu
        exact ⟨v, hv1, by rw [hsame.next]; exact hv, by rw [hev, ← hp, hx]⟩
      · by_cases hnv : n = v
        · subst hnv
          exact ⟨u, hu1, by rw [hsame.next]; exact hu, by rw [heu, ← hq, hx]⟩
        · exact ⟨n, hn1, by rw [hsame.next]; exact hn, by rw [hen n hnu hnv, hx]⟩
  · intro x hx
    have hxp : x ≠ p := fun h => hx ⟨u, hu1, hu, h ▸ hp⟩
    have hxq : x ≠ q := fun h => hx ⟨v, hv1, hv, h ▸ hq⟩
    rw [hidx, Function.update_of_ne hxp, Function.update_of_ne hxq]

lemma parentOf_pow_lt (hs : 2 ≤ s) {j : Nat} (hj : 1 < j) :
    1 ≤ parentOf (2 ^ s) j ∧ parentOf (2 ^ s) j < j := by
  obtain ⟨t, rfl⟩ : ∃ t, s = t + 1 := ⟨s - 1, by omega⟩
  have ht : 2 ≤ 2 ^ t := by
    simpa using Nat.pow_le_pow_right (n := 2) (by norm_num) (by omega : 1 ≤ t)
  rw [pow_succ]
  exact parentOf_lt ht hj

omit [DecidableEq α] in
lemma Shape.next_lt (hs : Shape s bh) : bh.next < uintMax := by
  have := hs.rows.whole
  have := hs.rows.lt
  have := hs.le
  unfold uintMax
  omega

omit [DecidableEq α] in
/-- Keys after a swap, seen through `keyAt`. -/
lemma keyAt_swap {bh' : Binheap α K} {d : α} (hm : Moved bh bh') (hu : bh'.elem u = bh.elem v)
    (hv : bh'.elem v = bh.elem u) (hn : ∀ n, n ≠ u → n ≠ v → bh'.elem n = bh.elem n) :
    keyAt bh' d u = keyAt bh d v ∧ keyAt bh' d v = keyAt bh d u ∧
      ∀ n, n ≠ u → n ≠ v → keyAt bh' d n = keyAt bh d n := by
  refine ⟨?_, ?_, ?_⟩
  · rw [keyAt, keyAt, hu, hm.same.key]
  · rw [keyAt, keyAt, hv, hm.same.key]
  · intro n hnu hnv
    rw [keyAt, keyAt, hn n hnu hnv, hm.same.key]

theorem trickleup_spec (hcmp : StrictWeak cmp) (d : α) (fuel : Nat) (bh : Binheap α K) (u : Nat)
    (hs : Shape s bh) (hf : Filled bh) (hu1 : 1 ≤ u) (hu : u < bh.next) (hfuel : u < fuel)
    (hole : Hole cmp (parentOf (2 ^ s)) 1 bh.next (keyAt bh d) u) :
    ∃ bh' u', bh.trickleup cmp fuel u = some (bh', u') ∧ Moved bh bh' ∧ 1 ≤ u' ∧ u' ≤ u ∧
      Down cmp (parentOf (2 ^ s)) 1 bh'.next (keyAt bh' d) u' ∧
      (Below cmp (parentOf (2 ^ s)) 1 bh.next (keyAt bh d) u →
        Ordered cmp (parentOf (2 ^ s)) 1 bh'.next (keyAt bh' d)) := by
  induction fuel generalizing bh u with
  | zero => omega
  | succ fuel ih =>
    obtain ⟨p, hp⟩ := hf.full u hu1 hu
    have hnext := hs.next_lt
    by_cases hroot : 1 < u
    · have hpar := parentOf_pow_lt hs.paged.two_le hroot
      have hpe := parent_eq hs.paged (by omega : u < uintMax)
      obtain ⟨q, hq⟩ := hf.full (parentOf (2 ^ s) u) hpar.1 (by omega)
      by_cases hc : cmp (bh.key p) (bh.key q) = true
      · obtain ⟨bh1, hsw, hmv, heu, hev, hen⟩ :=
          swap_moved hs hf hu1 hu hpar.1 (by omega : parentOf (2 ^ s) u < bh.next) (by omega)
        obtain ⟨hku, hkv, hkn⟩ := keyAt_swap (d := d) hmv heu hev hen
        have hck : cmp (keyAt bh d u) (keyAt bh d (parentOf (2 ^ s) u)) = true := by
          rwa [keyAt_of_elem hp, keyAt_of_elem hq]
        have hparAll : ∀ j, 1 < j → j < bh.next → 1 ≤ parentOf (2 ^ s) j ∧ parentOf (2 ^ s) j < j :=
          fun j hj _ => parentOf_pow_lt hs.paged.two_le hj
        have hole1 := hole.up hcmp hparAll hroot hu hku hkv (fun j _ => hkn j) hck
        have hbelow1 := hole.up_below hcmp hparAll hroot hu hku hkv (fun j _ => hkn j) hck
        rw [← hmv.same.next] at hole1 hbelow1
        obtain ⟨bh2, u2, hrun, hmv2, h1, hle, hdown, hord⟩ := ih bh1 (parentOf (2 ^ s) u)
          (hmv.same.shape hs) hmv.filled hpar.1 (by rw [hmv.same.next]; omega) (by omega) hole1
        refine ⟨bh2, u2, ?_, hmv.trans hmv2, h1, by omega, hdown, fun _ => hord hbelow1⟩
        simp only [trickleup, hu, hp, rootIdx, hroot, hpe, hpar.2, hpar.2.trans hu, hq, hc, hsw,
          not_true_eq_false, ite_false, ite_true, Option.bind_eq_bind, Option.bind_some]
        exact hrun
      · have hstop := hole.stop (fun _ => by rwa [keyAt_of_elem hp, keyAt_of_elem hq])
        refine ⟨bh, u, ?_, Moved.refl hf, hu1, le_rfl, hstop, hstop.stop⟩
        simp [trickleup, hu, hp, rootIdx, hroot, hpe, hpar.2, hpar.2.trans hu, hq, hc]
    · have hstop := hole.stop (fun h => absurd h hroot)
      refine ⟨bh, u, ?_, Moved.refl hf, hu1, le_rfl, hstop, hstop.stop⟩
      simp [trickleup, hu, hp, rootIdx, hroot]

omit [DecidableEq α] in
/-- The slots `child` reports are the used slots whose parent is `u`. -/
lemma child_spec (hs : Shape s bh) (hu1 : 1 ≤ u) (hu : u < bh.next) {v1 v2 : Nat}
    (hc : bh.child u = (v1, v2)) :
    0 < v1 ∧ v1 ≤ v2 ∧
      (∀ c, c = v1 ∨ c = v2 → c < bh.next → 1 < c ∧ parentOf (2 ^ s) c = u) ∧
      ∀ j, 1 < j → j < bh.next → parentOf (2 ^ s) j = u → j = v1 ∨ j = v2 := by
  obtain ⟨t, rfl⟩ : ∃ t, s = t + 1 := ⟨s - 1, by have := hs.paged.two_le; omega⟩
  have ht : 2 ≤ 2 ^ t := by
    simpa using Nat.pow_le_pow_right (n := 2) (by norm_num) (by have := hs.paged.two_le; omega : 1 ≤ t)
  have hnext := hs.next_lt
  have hce := child_eq hs.paged (by unfold uintMax at hnext; omega : u < 2 ^ 31 + 2 ^ 31)
  have hpos := parentOf_childOf ht hu1 (Or.inl rfl)
  have hmono : (childOf (2 ^ (t + 1)) u).1 ≤ (childOf (2 ^ (t + 1)) u).2 := by
    unfold childOf
    split_ifs <;> simp
  rw [← pow_succ] at hpos
  rw [hc] at hce
  have hback : ∀ j, 1 < j → j < bh.next → parentOf (2 ^ (t + 1)) j = u →
      (childOf (2 ^ (t + 1)) u).1 < 2 ^ 32 ∧ (j = (childOf (2 ^ (t + 1)) u).1 ∨ j = (childOf (2 ^ (t + 1)) u).2) := by
    intro j hj hjn hju
    have h := childOf_parentOf ht hj
    rw [← pow_succ, hju] at h
    unfold uintMax at hnext
    omega
  split_ifs at hce with hlt
  · obtain ⟨rfl, rfl⟩ := Prod.ext_iff.mp hce
    refine ⟨by omega, hmono, ?_, fun j hj hjn hju => (hback j hj hjn hju).2⟩
    intro c hcc _
    have h := parentOf_childOf ht hu1 (by rw [pow_succ] at hcc; exact hcc)
    rw [← pow_succ] at h
    exact ⟨h.2, h.1⟩
  · obtain ⟨rfl, rfl⟩ := Prod.mk.injEq .. ▸ hce
    refine ⟨by decide, le_rfl, fun c hcc hcn => by omega, fun j hj hjn hju => ?_⟩
    exact absurd (hback j hj hjn hju).1 hlt

omit [DecidableEq α] in
/-- `pick` finds a child in use that no other child in use precedes. -/
lemma pick_spec (hcmp : StrictWeak cmp) (d : α) (hf : Filled bh) {v1 v2 : Nat} (h1 : 0 < v1) (h12 : v1 ≤ v2)
    (hv1 : v1 < bh.next) :
    ∃ v, bh.pick cmp v1 v2 = some v ∧ (v = v1 ∨ v = v2) ∧ v < bh.next ∧
      ∀ j, j = v1 ∨ j = v2 → j < bh.next → ¬cmp (keyAt bh d j) (keyAt bh d v) = true := by
  obtain ⟨q1, hq1⟩ := hf.full v1 h1 hv1
  by_cases h2 : v1 ≠ v2 ∧ v2 < bh.next
  · obtain ⟨q2, hq2⟩ := hf.full v2 (by omega) h2.2
    by_cases hc : cmp (bh.key q2) (bh.key q1) = true
    · refine ⟨v2, by simp [pick, hq1, hq2, h2, hc], Or.inr rfl, h2.2, ?_⟩
      rintro j (rfl | rfl) _
      · rw [keyAt_of_elem hq1, keyAt_of_elem hq2]
        exact hcmp.asymm _ _ hc
      · exact hcmp.irrefl _
    · refine ⟨v1, by simp [pick, hq1, hq2, h2, hc], Or.inl rfl, hv1, ?_⟩
      rintro j (rfl | rfl) _
      · exact hcmp.irrefl _
      · rwa [keyAt_of_elem hq1, keyAt_of_elem hq2]
  · refine ⟨v1, ?_, Or.inl rfl, hv1, ?_⟩
    · simp only [pick, hq1, h2, ite_false, Option.bind_eq_bind, Option.bind_some]
    · rintro j (rfl | rfl) hj
      · exact hcmp.irrefl _
      · obtain rfl : v1 = j := by
          by_contra hne
          exact h2 ⟨hne, hj⟩
        exact hcmp.irrefl _

theorem trickledown_spec (hcmp : StrictWeak cmp) (d : α) (fuel : Nat) (bh : Binheap α K) (u : Nat)
    (hs : Shape s bh) (hf : Filled bh) (hu1 : 1 ≤ u) (hu : u < bh.next) (hfuel : bh.next - u < fuel)
    (hdown : Down cmp (parentOf (2 ^ s)) 1 bh.next (keyAt bh d) u) :
    ∃ bh' u', bh.trickledown cmp fuel u = some (bh', u') ∧ Moved bh bh' ∧ 1 ≤ u' ∧ u' < bh.next ∧
      Ordered cmp (parentOf (2 ^ s)) 1 bh'.next (keyAt bh' d) := by
  induction fuel generalizing bh u with
  | zero => omega
  | succ fuel ih =>
    obtain ⟨p, hp⟩ := hf.full u hu1 hu
    obtain ⟨⟨v1, v2⟩, hc⟩ : ∃ c, bh.child u = c := ⟨_, rfl⟩
    obtain ⟨hv1, hv12, hkid, hkids⟩ := child_spec hs hu1 hu hc
    by_cases hin : bh.next ≤ v1
    · refine ⟨bh, u, ?_, Moved.refl hf, hu1, hu, hdown.stop ?_⟩
      · simp [trickledown, hu, hp, hc, hv1, hv1.trans_le hv12, hv12, hin]
      · intro j hj hjn hju
        rcases hkids j hj hjn hju with rfl | rfl <;> omega
    · obtain ⟨v, hpick, hvv, hvn, hmin⟩ := pick_spec hcmp d hf hv1 hv12 (by omega : v1 < bh.next)
      obtain ⟨hv1', hpv⟩ := hkid v hvv hvn
      have hpar := parentOf_pow_lt hs.paged.two_le hv1'
      obtain ⟨q, hq⟩ := hf.full v hv1'.le hvn
      by_cases hcq : cmp (bh.key p) (bh.key q) = true
      · refine ⟨bh, u, ?_, Moved.refl hf, hu1, hu, hdown.stop ?_⟩
        · simp [trickledown, hu, hp, hc, hv1, hv1.trans_le hv12, hv12, hin, hpick, hvn, hq, hcq]
        · intro j hj hjn hju
          have hjv := hmin j (hkids j hj hjn hju) hjn
          rw [keyAt_of_elem hq] at hjv
          rw [keyAt_of_elem hp]
          exact hcmp.of_lt_of_not_lt hcq hjv
      · obtain ⟨bh1, hsw, hmv, heu, hev, hen⟩ :=
          swap_moved hs hf hu1 hu hv1'.le hvn (by omega)
        obtain ⟨hku, hkv, hkn⟩ := keyAt_swap (d := d) hmv heu hev hen
        have hdown1 : Down cmp (parentOf (2 ^ s)) 1 bh1.next (keyAt bh1 d) v := by
          rw [hmv.same.next]
          apply hdown.down (fun j hj _ => parentOf_pow_lt hs.paged.two_le hj) hv1' hvn hpv
            (fun j hj hjn hju => hmin j (hkids j hj hjn hju) hjn) hku hkv (fun j _ => hkn j)
          rwa [keyAt_of_elem hp, keyAt_of_elem hq]
        obtain ⟨bh2, u2, hrun, hmv2, h1, hlt, hord⟩ := ih bh1 v (hmv.same.shape hs) hmv.filled
          hv1'.le (by rw [hmv.same.next]; exact hvn) (by rw [hmv.same.next]; omega) hdown1
        refine ⟨bh2, u2, ?_, hmv.trans hmv2, h1, by rw [← hmv.same.next]; exact hlt, hord⟩
        simp only [trickledown, hu, hp, hc, hv1, hv1.trans_le hv12, hv12, hin, hpick, hvn, hq, hcq, hsw,
          not_true_eq_false, ite_false, Option.bind_eq_bind, Option.bind_some, Bool.false_eq_true]
        exact hrun

/-- Both trickles together repair an arbitrary key at one slot. -/
theorem settle_spec (hcmp : StrictWeak cmp) (d : α) (hs : Shape s bh) (hf : Filled bh) (hu1 : 1 ≤ u)
    (hu : u < bh.next) (hole : Hole cmp (parentOf (2 ^ s)) 1 bh.next (keyAt bh d) u) :
    ∃ bh', bh.settle cmp u = some bh' ∧ Moved bh bh' ∧
      Ordered cmp (parentOf (2 ^ s)) 1 bh'.next (keyAt bh' d) := by
  obtain ⟨b1, u1, h1, m1, hu11, hle, hdown, _⟩ :=
    trickleup_spec hcmp d (u + 1) bh u hs hf hu1 hu (by omega) hole
  have hn1 : u1 < b1.next := by rw [m1.same.next]; omega
  obtain ⟨p1, hp1⟩ := m1.filled.full u1 hu11 hn1
  obtain ⟨b2, u2, h2, m2, hu21, hlt, hord⟩ :=
    trickledown_spec hcmp d (b1.next - u1 + 1) b1 u1 (m1.same.shape hs) m1.filled hu11 hn1 (by omega) hdown
  have hn2 : u2 < b2.next := by rw [m2.same.next]; omega
  obtain ⟨p2, hp2⟩ := m2.filled.full u2 hu21 hn2
  refine ⟨b2, ?_, m1.trans m2, hord⟩
  simp only [settle, h1, hn1, hp1, h2, hn2, hp2, Nat.pos_of_ne_zero (by omega : u1 ≠ 0),
    Nat.pos_of_ne_zero (by omega : u2 ≠ 0), and_self, not_true_eq_false, ite_false, Option.bind_eq_bind,
    Option.bind_some]

end Sift

end VarnishCache.Proofs
