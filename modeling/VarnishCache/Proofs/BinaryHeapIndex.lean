import VarnishCache.BinaryHeap
import Mathlib.Tactic

/-!
# Slot numbering of the page-aware heap

`parentOf` and `childOf` are the numbering of `binary_heap.c` written with division by the
page size. The masks and shifts of the source compute them, the parent of every slot but
the root lies before it, and children and parents are inverse to each other.
-/

namespace VarnishCache.Proofs
open Binheap

/-- Page geometry as `binheap_new` sets it up: at least four slots a page. -/
structure Paged {α K : Type} (bh : Binheap α K) (s : Nat) : Prop where
  shift : bh.pageShift = s
  size : bh.pageSize = 2 ^ s
  mask : bh.pageMask = 2 ^ s - 1
  two_le : 2 ≤ s
  le_rows : s ≤ 19

def parentOf (P u : Nat) : Nat :=
  if u < P ∨ 3 < u % P then u / P * P + u % P / 2
  else if u % P < 2 then (u / P - 1) / (P / 2) * P + P / 2 + (u / P - 1) % (P / 2)
  else u - 2

def childOf (P u : Nat) : Nat × Nat :=
  if P ≤ u ∧ u % P < 2 then (u + 2, u + 2)
  else if P / 2 ≤ u % P then
    ((u / P * (P / 2) + (u % P - P / 2) + 1) * P, (u / P * (P / 2) + (u % P - P / 2) + 1) * P + 1)
  else (u + u % P, u + u % P + 1)

lemma and_not32_mask {s u : Nat} (hs : s ≤ 32) (hu : u < 2 ^ 32) :
    u &&& not32 (2 ^ s - 1) = u / 2 ^ s * 2 ^ s := by
  have hm : not32 (2 ^ s - 1) = (2 ^ (32 - s) - 1) <<< s := by
    have h1 : 2 ^ (32 - s) * 2 ^ s = 2 ^ 32 := by rw [← pow_add]; congr 1; omega
    have h2 : 1 ≤ 2 ^ s := Nat.one_le_two_pow
    rw [Nat.shiftLeft_eq, Nat.sub_mul, h1, one_mul, not32]
    omega
  have hq : u / 2 ^ s < 2 ^ (32 - s) := by
    rw [Nat.div_lt_iff_lt_mul (by positivity), ← pow_add]
    rwa [show 32 - s + s = 32 by omega]
  apply Nat.eq_of_testBit_eq
  intro i
  rw [hm, Nat.testBit_and, Nat.testBit_shiftLeft, Nat.testBit_mul_two_pow]
  by_cases hi : s ≤ i
  · simp only [hi, decide_true, Bool.true_and, Nat.testBit_two_pow_sub_one, Nat.testBit_div_two_pow,
      show i - s + s = i by omega]
    by_cases hl : i - s < 32 - s
    · simp [hl]
    · have hz : u.testBit i = false := by
        apply Nat.testBit_lt_two_pow
        exact hu.trans_le (Nat.pow_le_pow_right (by norm_num) (by omega))
      simp [hz]
  · simp [hi]

lemma mul_or_of_lt {s a b : Nat} (hb : b < 2 ^ s) : a * 2 ^ s ||| b = a * 2 ^ s + b := by
  rw [mul_comm, Nat.two_pow_add_eq_or_of_lt hb]

lemma or_half_of_lt {s a r : Nat} (hr : r < 2 ^ s) :
    (a * 2 ^ (s + 1) + r) ||| 2 ^ s = a * 2 ^ (s + 1) + 2 ^ s + r := by
  have hlt : 2 ^ s + r < 2 ^ (s + 1) := by rw [pow_succ]; omega
  have hone : r ||| 2 ^ s = 2 ^ s + r := by
    have h := mul_or_of_lt (a := 1) hr
    rw [one_mul] at h
    rw [Nat.lor_comm, h]
  rw [← mul_or_of_lt (by omega : r < 2 ^ (s + 1)), Nat.lor_assoc, hone, mul_or_of_lt hlt]
  omega

section Parent

variable {α K : Type} {bh : Binheap α K} {s u : Nat}

theorem parent_eq (hp : Paged bh s) (hu : u < uintMax) : bh.parent u = some (parentOf (2 ^ s) u) := by
  have hu32 : u < 2 ^ 32 := by unfold uintMax at hu; omega
  have h19 := hp.le_rows
  obtain ⟨t, rfl⟩ : ∃ t, s = t + 1 := ⟨s - 1, by have := hp.two_le; omega⟩
  have hP : 2 ^ (t + 1) = 2 ^ t * 2 := pow_succ 2 t
  have hH : 2 ^ (t + 1) / 2 = 2 ^ t := by omega
  have hmod : u % 2 ^ (t + 1) < 2 ^ (t + 1) := Nat.mod_lt _ (by positivity)
  have hpo : u &&& bh.pageMask = u % 2 ^ (t + 1) := by rw [hp.mask, Nat.and_two_pow_sub_one_eq_mod]
  unfold parent parentOf
  rw [if_neg (by omega)]
  simp only [hpo, hp.size]
  by_cases h1 : u < 2 ^ (t + 1) ∨ 3 < u % 2 ^ (t + 1)
  · rw [if_pos h1, if_pos h1, hp.mask, and_not32_mask (by omega) hu32, Nat.shiftRight_eq_div_pow,
      pow_one, mul_or_of_lt (by omega)]
  · rw [if_neg h1, if_neg h1]
    by_cases h3 : u % 2 ^ (t + 1) < 2
    · rw [if_pos h3, if_pos h3]
      have hq : (u - 2 ^ (t + 1)) >>> bh.pageShift = u / 2 ^ (t + 1) - 1 := by
        have h := Nat.sub_mul_div u (2 ^ (t + 1)) 1
        rw [hp.shift, Nat.shiftRight_eq_div_pow]
        simpa using h
      have hmask : bh.pageMask >>> 1 = 2 ^ t - 1 := by
        rw [hp.mask, Nat.shiftRight_eq_div_pow]
        omega
      have hv : u / 2 ^ (t + 1) - 1 < 2 ^ 31 := by
        have h4 : u / 2 ^ (t + 1) ≤ u / 2 := Nat.div_le_div_left (by omega) (by omega)
        omega
      generalize hvq : u / 2 ^ (t + 1) - 1 = v at *
      have hsum : v + v / 2 ^ t * 2 ^ t = v / 2 ^ t * 2 ^ (t + 1) + v % 2 ^ t := by
        have h := Nat.div_add_mod' v (2 ^ t)
        rw [hP, ← mul_assoc]
        omega
      have hle : v / 2 ^ t * 2 ^ t ≤ v := Nat.div_mul_le_self _ _
      rw [hq, hmask, and_not32_mask (by omega) (by omega), u32, Nat.mod_eq_of_lt (by omega), hsum, hH,
        or_half_of_lt (Nat.mod_lt _ (by positivity))]
    · rw [if_neg h3, if_neg h3]

lemma and_pred_mask (t u : Nat) : u &&& (2 ^ (t + 1) - 1 - 1) = 0 ↔ u % 2 ^ (t + 1) < 2 := by
  have hm : 2 ^ (t + 1) - 1 - 1 = (2 ^ t - 1) * 2 ^ 1 := by rw [pow_succ]; omega
  have hand : u &&& (2 ^ (t + 1) - 1 - 1) = (u / 2 % 2 ^ t) * 2 ^ 1 := by
    apply Nat.eq_of_testBit_eq
    intro i
    rw [hm, Nat.testBit_and, Nat.testBit_mul_two_pow, Nat.testBit_mul_two_pow]
    by_cases hi : 1 ≤ i
    · have hd : (u / 2).testBit (i - 1) = u.testBit i := by
        rw [← pow_one 2, Nat.testBit_div_two_pow, Nat.sub_add_cancel hi]
      rw [Nat.testBit_two_pow_sub_one, Nat.testBit_mod_two_pow, hd]
      cases u.testBit i <;> simp
    · simp [hi]
  have hmod : u % 2 ^ (t + 1) = u % 2 + 2 * (u / 2 % 2 ^ t) := by
    rw [pow_succ, mul_comm, Nat.mod_mul]
  rw [hand, hmod]
  omega

lemma and_half (t u : Nat) : u &&& 2 ^ t ≠ 0 ↔ 2 ^ t ≤ u % 2 ^ (t + 1) := by
  have hmod := Nat.mod_pow_succ (x := u) (b := 2) (k := t)
  have hlt : u % 2 ^ t < 2 ^ t := Nat.mod_lt _ (by positivity)
  rw [Nat.and_two_pow, Nat.testBit_eq_decide_div_mod_eq, hmod]
  rcases Nat.mod_two_eq_zero_or_one (u / 2 ^ t) with h | h
  · simp [h, hlt]
  · simp [h]

theorem child_eq (hp : Paged bh s) (hu : u < 2 ^ 31 + 2 ^ 31) : bh.child u =
    if (childOf (2 ^ s) u).1 < 2 ^ 32 then childOf (2 ^ s) u else (uintMax, uintMax) := by
  have h19 := hp.le_rows
  obtain ⟨t, rfl⟩ : ∃ t, s = t + 1 := ⟨s - 1, by have := hp.two_le; omega⟩
  have ht : 1 ≤ t := by have := hp.two_le; omega
  have hP : 2 ^ (t + 1) = 2 ^ t * 2 := pow_succ 2 t
  have hH : 2 ^ (t + 1) / 2 = 2 ^ t := by omega
  have h2t : 2 ≤ 2 ^ t := by simpa using Nat.pow_le_pow_right (n := 2) (by norm_num) ht
  have hmod : u % 2 ^ (t + 1) < 2 ^ (t + 1) := Nat.mod_lt _ (by positivity)
  have hdm := Nat.div_add_mod' u (2 ^ (t + 1))
  have hpage : 2 ^ (31 - t) * 2 ^ (t + 1) = 2 ^ 32 := by rw [← pow_add]; congr 1; omega
  have hq : u / 2 ^ (t + 1) < 2 ^ (31 - t) := by
    rw [Nat.div_lt_iff_lt_mul (by positivity), hpage]
    omega
  have hqP : u / 2 ^ (t + 1) * 2 ^ (t + 1) + 2 ^ (t + 1) ≤ 2 ^ 32 := by
    rw [← hpage, ← Nat.succ_mul]
    exact Nat.mul_le_mul_right _ hq
  have hc1 : (bh.pageMask < u ∧ u &&& (bh.pageMask - 1) = 0) ↔
      (2 ^ (t + 1) ≤ u ∧ u % 2 ^ (t + 1) < 2) := by
    rw [hp.mask, and_pred_mask]
    omega
  have hc2 : u &&& (bh.pageSize >>> 1) ≠ 0 ↔ 2 ^ t ≤ u % 2 ^ (t + 1) := by
    rw [hp.size, Nat.shiftRight_eq_div_pow, pow_one, hH, and_half]
  unfold child childOf
  rw [hH]
  by_cases h1 : 2 ^ (t + 1) ≤ u ∧ u % 2 ^ (t + 1) < 2
  · rw [if_pos (hc1.mpr h1), if_pos h1]
    rw [if_pos (by dsimp only; omega), u32, Nat.mod_eq_of_lt (by omega)]
  · rw [if_neg (fun h => h1 (hc1.mp h)), if_neg h1]
    by_cases h2 : 2 ^ t ≤ u % 2 ^ (t + 1)
    · rw [if_pos (hc2.mpr h2), if_pos h2]
      have hpage2 : (u &&& not32 bh.pageMask) >>> 1 = u / 2 ^ (t + 1) * 2 ^ t := by
        rw [hp.mask, and_not32_mask (by omega) (by omega), Nat.shiftRight_eq_div_pow, hP, ← mul_assoc]
        simp
      have hlow : u &&& (bh.pageMask >>> 1) = u % 2 ^ (t + 1) - 2 ^ t := by
        have hm : bh.pageMask >>> 1 = 2 ^ t - 1 := by
          rw [hp.mask, Nat.shiftRight_eq_div_pow]
          omega
        have hsucc := Nat.mod_pow_succ (x := u) (b := 2) (k := t)
        have hlt : u % 2 ^ t < 2 ^ t := Nat.mod_lt _ (by positivity)
        rw [hm, Nat.and_two_pow_sub_one_eq_mod]
        rcases Nat.mod_two_eq_zero_or_one (u / 2 ^ t) with h | h <;> rw [h] at hsucc <;> omega
      have hor : (u / 2 ^ (t + 1) * 2 ^ t ||| (u % 2 ^ (t + 1) - 2 ^ t)) =
          u / 2 ^ (t + 1) * 2 ^ t + (u % 2 ^ (t + 1) - 2 ^ t) := mul_or_of_lt (by omega)
      have hqt : u / 2 ^ (t + 1) * 2 ^ t * 2 = u / 2 ^ (t + 1) * 2 ^ (t + 1) := by rw [hP, mul_assoc]
      simp only [hpage2, hlow, hor]
      generalize ha : u / 2 ^ (t + 1) * 2 ^ t + (u % 2 ^ (t + 1) - 2 ^ t) + 1 = a
      have ha32 : a < 2 ^ 32 := by omega
      have h64 : a * 2 ^ (t + 1) < 2 ^ 64 := by
        calc a * 2 ^ (t + 1) < 2 ^ 32 * 2 ^ (t + 1) := Nat.mul_lt_mul_of_pos_right ha32 (by positivity)
          _ ≤ 2 ^ 32 * 2 ^ 19 := Nat.mul_le_mul_left _ (Nat.pow_le_pow_right (by norm_num) h19)
          _ ≤ 2 ^ 64 := by norm_num
      have huu : ((u32 a) <<< bh.pageShift) % 2 ^ 64 = a * 2 ^ (t + 1) := by
        rw [u32, Nat.mod_eq_of_lt ha32, Nat.shiftLeft_eq, hp.shift, Nat.mod_eq_of_lt h64]
      rw [huu]
      by_cases hlt : a * 2 ^ (t + 1) < 2 ^ 32
      · have heven : a * 2 ^ (t + 1) + 1 < 2 ^ 32 := by
          have h : a * 2 ^ (t + 1) = (a * 2 ^ t) * 2 := by rw [hP, mul_assoc]
          omega
        have hu32 : u32 (a * 2 ^ (t + 1)) = a * 2 ^ (t + 1) := Nat.mod_eq_of_lt hlt
        rw [if_pos hlt, hu32, if_pos rfl, u32, Nat.mod_eq_of_lt heven]
      · rw [if_neg hlt, if_neg]
        have h := Nat.mod_lt (a * 2 ^ (t + 1)) (y := 2 ^ 32) (by norm_num)
        unfold u32
        omega
    · rw [if_neg (fun h => h2 (hc2.mp h)), if_neg h2]
      have hpo : u &&& bh.pageMask = u % 2 ^ (t + 1) := by rw [hp.mask, Nat.and_two_pow_sub_one_eq_mod]
      have hu1 : u32 (u + u % 2 ^ (t + 1)) = u + u % 2 ^ (t + 1) := Nat.mod_eq_of_lt (by omega)
      have hu2 : u32 (u + u % 2 ^ (t + 1) + 1) = u + u % 2 ^ (t + 1) + 1 := Nat.mod_eq_of_lt (by omega)
      simp only [hpo, hu1, hu2]
      rw [if_pos (by omega)]

end Parent

section Inverse

/-- A slot written as page and offset. -/
lemma page_offset {P : Nat} (hP : 0 < P) (q o : Nat) (ho : o < P) :
    (q * P + o) / P = q ∧ (q * P + o) % P = o := by
  constructor
  · rw [Nat.mul_comm, Nat.mul_add_div hP, Nat.div_eq_of_lt ho, Nat.add_zero]
  · rw [Nat.mul_comm, Nat.mul_add_mod, Nat.mod_eq_of_lt ho]

theorem parentOf_lt {H j : Nat} (hH : 2 ≤ H) (hj : 2 ≤ j) :
    1 ≤ parentOf (H * 2) j ∧ parentOf (H * 2) j < j := by
  have hdm := Nat.div_add_mod' j (H * 2)
  have hlt : j % (H * 2) < H * 2 := Nat.mod_lt _ (by omega)
  have hhalf : H * 2 / 2 = H := by omega
  unfold parentOf
  rw [hhalf]
  split_ifs with h1 h2
  · rcases h1 with h1 | h1
    · rw [Nat.div_eq_of_lt h1] at hdm ⊢
      omega
    · omega
  · have hq : 1 ≤ j / (H * 2) := Nat.div_pos (by omega) (by omega)
    have hv := Nat.div_add_mod' (j / (H * 2) - 1) H
    generalize (j / (H * 2) - 1) / H = a at *
    generalize (j / (H * 2) - 1) % H = r at *
    have hqe : j / (H * 2) = a * H + r + 1 := by omega
    rw [hqe] at hdm
    have h3 : (a * H + r + 1) * (H * 2) = a * H * (H * 2) + r * (H * 2) + H * 2 := by ring
    have h4 : a * (H * 2) ≤ a * H * (H * 2) := by nlinarith [Nat.zero_le (a * (H * 2))]
    have h5 : r ≤ r * (H * 2) := Nat.le_mul_of_pos_right r (by omega)
    omega
  · omega

/-- Every slot but the root is one of the children of its parent. -/
theorem childOf_parentOf {H j : Nat} (hH : 2 ≤ H) (hj : 2 ≤ j) :
    j = (childOf (H * 2) (parentOf (H * 2) j)).1 ∨ j = (childOf (H * 2) (parentOf (H * 2) j)).2 := by
  have hdm := Nat.div_add_mod' j (H * 2)
  have hlt : j % (H * 2) < H * 2 := Nat.mod_lt _ (by omega)
  have hhalf : H * 2 / 2 = H := by omega
  have hpage : ∀ q o, o < H * 2 → (q * (H * 2) + o) / (H * 2) = q ∧ (q * (H * 2) + o) % (H * 2) = o :=
    fun q o ho => page_offset (by omega) q o ho
  unfold parentOf
  rw [hhalf]
  split_ifs with h1 h2
  · obtain ⟨hd, hm⟩ := hpage (j / (H * 2)) (j % (H * 2) / 2) (by omega)
    unfold childOf
    rw [hd, hm, hhalf]
    rw [if_neg, if_neg (by omega)]
    · dsimp only
      omega
    · rintro ⟨h3, h4⟩
      rcases h1 with h1 | h1
      · rw [Nat.div_eq_of_lt h1] at h3
        omega
      · omega
  · have hq : 1 ≤ j / (H * 2) := Nat.div_pos (by omega) (by omega)
    have hv := Nat.div_add_mod' (j / (H * 2) - 1) H
    have hr : (j / (H * 2) - 1) % H < H := Nat.mod_lt _ (by omega)
    generalize (j / (H * 2) - 1) / H = a at *
    generalize (j / (H * 2) - 1) % H = r at *
    obtain ⟨hd, hm⟩ := hpage a (H + r) (by omega)
    unfold childOf
    rw [Nat.add_assoc, hd, hm, hhalf, if_neg (by omega), if_pos (by omega)]
    have hqe : a * H + (H + r - H) + 1 = j / (H * 2) := by omega
    dsimp only
    rw [hqe]
    omega
  · obtain ⟨hd, hm⟩ := hpage (j / (H * 2)) (j % (H * 2) - 2) (by omega)
    have he : j - 2 = j / (H * 2) * (H * 2) + (j % (H * 2) - 2) := by omega
    have hq : 1 ≤ j / (H * 2) := Nat.div_pos (by omega) (by omega)
    have hle : H * 2 ≤ j / (H * 2) * (H * 2) := Nat.le_mul_of_pos_left _ hq
    unfold childOf
    rw [he, hm, if_pos ⟨by omega, by omega⟩]
    dsimp only
    omega

/-- The parent of both children of a slot is that slot. -/
theorem parentOf_childOf {H u c : Nat} (hH : 2 ≤ H) (hu : 1 ≤ u)
    (hc : c = (childOf (H * 2) u).1 ∨ c = (childOf (H * 2) u).2) : parentOf (H * 2) c = u ∧ 2 ≤ c := by
  have hdm := Nat.div_add_mod' u (H * 2)
  have hlt : u % (H * 2) < H * 2 := Nat.mod_lt _ (by omega)
  have hhalf : H * 2 / 2 = H := by omega
  have hpage : ∀ q o, o < H * 2 → (q * (H * 2) + o) / (H * 2) = q ∧ (q * (H * 2) + o) % (H * 2) = o :=
    fun q o ho => page_offset (by omega) q o ho
  unfold childOf at hc
  rw [hhalf] at hc
  split_ifs at hc with h1 h2
  · have hce : c = u / (H * 2) * (H * 2) + (u % (H * 2) + 2) := by dsimp only at hc; omega
    obtain ⟨hd, hm⟩ := hpage (u / (H * 2)) (u % (H * 2) + 2) (by omega)
    unfold parentOf
    rw [hce, hm, if_neg (by omega), if_neg (by omega)]
    omega
  · obtain ⟨d, hd1, hce⟩ : ∃ d, d ≤ 1 ∧
        c = (u / (H * 2) * H + (u % (H * 2) - H) + 1) * (H * 2) + d := by
      rcases hc with hc | hc
      · exact ⟨0, by omega, hc⟩
      · exact ⟨1, by omega, hc⟩
    obtain ⟨hd, hm⟩ := hpage (u / (H * 2) * H + (u % (H * 2) - H) + 1) d (by omega)
    obtain ⟨hd', hm'⟩ := page_offset (P := H) (by omega) (u / (H * 2)) (u % (H * 2) - H) (by omega)
    have hge : H * 2 ≤ (u / (H * 2) * H + (u % (H * 2) - H) + 1) * (H * 2) :=
      Nat.le_mul_of_pos_left _ (by omega)
    unfold parentOf
    rw [hce, hm, hd, hhalf, if_neg (by omega), if_pos (by omega), Nat.add_sub_cancel, hd', hm']
    omega
  · obtain ⟨d, hd1, hce⟩ : ∃ d, d ≤ 1 ∧ c = u / (H * 2) * (H * 2) + (2 * (u % (H * 2)) + d) := by
      rcases hc with hc | hc
      · exact ⟨0, by omega, by dsimp only at hc; omega⟩
      · exact ⟨1, by omega, by dsimp only at hc; omega⟩
    obtain ⟨hd, hm⟩ := hpage (u / (H * 2)) (2 * (u % (H * 2)) + d) (by omega)
    have hoff : u / (H * 2) = 0 ∧ 1 ≤ u % (H * 2) ∨ 2 ≤ u % (H * 2) := by
      by_cases hup : u < H * 2
      · left
        rw [Nat.mod_eq_of_lt hup, Nat.div_eq_of_lt hup]
        exact ⟨rfl, hu⟩
      · omega
    unfold parentOf
    rw [hce, hm, hd, if_pos]
    · omega
    · rcases hoff with ⟨hz, _⟩ | hge
      · left
        rw [hz]
        omega
      · omega

end Inverse

section Numbering

variable {α K : Type} {bh : Binheap α K} {s u c : Nat}

lemma pow_eq_half (hp : Paged bh s) : 2 ^ s = 2 ^ (s - 1) * 2 ∧ 2 ≤ 2 ^ (s - 1) := by
  have h2 := hp.two_le
  have hhalf : 2 ^ 1 ≤ 2 ^ (s - 1) := Nat.pow_le_pow_right (by decide) (by omega)
  exact ⟨by rw [← pow_succ, Nat.sub_add_cancel (by omega)], hhalf⟩

lemma childOf_le (P u : Nat) : (childOf P u).1 ≤ (childOf P u).2 := by
  unfold childOf
  split_ifs
  · exact le_refl _
  · exact Nat.le_succ _
  · exact Nat.le_succ _

/-- The parent of a slot has it as a child. -/
lemma child_of_parent (hp : Paged bh s) (hu : 2 ≤ u) (hmax : u < uintMax) :
    ∃ v, bh.parent u = some v ∧ 1 ≤ v ∧ v < u ∧ (u = (bh.child v).1 ∨ u = (bh.child v).2) := by
  obtain ⟨hpow, hhalf⟩ := pow_eq_half hp
  have hlt := parentOf_lt hhalf hu
  have hchild := childOf_parentOf hhalf hu
  rw [← hpow] at hlt hchild
  refine ⟨parentOf (2 ^ s) u, parent_eq hp hmax, hlt.1, hlt.2, ?_⟩
  have hfirst : (childOf (2 ^ s) (parentOf (2 ^ s) u)).1 ≤ u := by
    obtain h | h := hchild
    · exact h.symm.le
    · exact (childOf_le _ _).trans h.symm.le
  unfold uintMax at hmax
  rw [child_eq hp (by omega), if_pos (by omega)]
  exact hchild

/-- The second child fits where the first one does, because that one is even. -/
lemma childOf_fits {H : Nat} (hfit : (childOf (H * 2) u).1 < 2 ^ 32) : (childOf (H * 2) u).2 < 2 ^ 32 := by
  have hdm := Nat.div_add_mod' u (H * 2)
  unfold childOf at hfit ⊢
  split_ifs at hfit ⊢
  · exact hfit
  · have heven (a : Nat) : a * (H * 2) = a * H * 2 := (Nat.mul_assoc _ _ _).symm
    dsimp only at hfit ⊢
    rw [heven] at hfit ⊢
    omega
  · have heven : u / (H * 2) * (H * 2) = u / (H * 2) * H * 2 := (Nat.mul_assoc _ _ _).symm
    dsimp only at hfit ⊢
    omega

/-- The children of a slot have it as their parent. -/
lemma parent_of_child (hp : Paged bh s) (hu : 1 ≤ u) (hmax : u ≤ uintMax) (hc : c = (bh.child u).1 ∨ c = (bh.child u).2)
    (hne : c ≠ uintMax) : u < c ∧ bh.parent c = some u := by
  obtain ⟨hpow, hhalf⟩ := pow_eq_half hp
  unfold uintMax at hmax
  rw [child_eq hp (by omega)] at hc
  split_ifs at hc with hfit
  · have hinv := parentOf_childOf hhalf hu (hpow ▸ hc)
    have hlt := parentOf_lt hhalf hinv.2
    rw [hinv.1] at hlt
    have hcfit : c < 2 ^ 32 := by
      obtain rfl | rfl := hc
      · exact hfit
      · rw [hpow] at hfit ⊢
        exact childOf_fits hfit
    have hcmax : c < uintMax := by
      unfold uintMax at hne ⊢
      omega
    refine ⟨hlt.2, ?_⟩
    rw [parent_eq hp hcmax, hpow, hinv.1]
  · exact absurd (hc.elim id id) hne

/-- Every slot but the first is a child of its parent, which lies before it, and a child of a slot lies behind it
and has it as its parent. -/
theorem heap_numbering (hp : Paged bh s) (hu : 1 ≤ u) (hmax : u ≤ uintMax) :
    (2 ≤ u → u < uintMax → ∃ v, bh.parent u = some v ∧ 1 ≤ v ∧ v < u ∧ (u = (bh.child v).1 ∨ u = (bh.child v).2)) ∧
      ∀ c, c = (bh.child u).1 ∨ c = (bh.child u).2 → c ≠ uintMax → u < c ∧ bh.parent c = some u :=
  ⟨child_of_parent hp, fun _ => parent_of_child hp hu hmax⟩

/-- A page of 512 slots, and the first one of the second page. -/
theorem heap_numbering_second_page :
    (∃ v, (blank 512 9 id id : Binheap Nat Nat).parent 512 = some v ∧ 1 ≤ v ∧ v < 512 ∧
      (512 = ((blank 512 9 id id : Binheap Nat Nat).child v).1 ∨
        512 = ((blank 512 9 id id : Binheap Nat Nat).child v).2)) ∧
      ∀ c, c = ((blank 512 9 id id : Binheap Nat Nat).child 512).1 ∨
          c = ((blank 512 9 id id : Binheap Nat Nat).child 512).2 →
        c ≠ uintMax → 512 < c ∧ (blank 512 9 id id : Binheap Nat Nat).parent c = some 512 := by
  have hp : Paged (blank 512 9 id id : Binheap Nat Nat) 9 := ⟨rfl, rfl, rfl, by decide, by decide⟩
  obtain ⟨hparent, hchild⟩ := heap_numbering hp (u := 512) (by decide) (by decide)
  exact ⟨hparent (by decide) (by decide), hchild⟩

end Numbering

end VarnishCache.Proofs
