import Mathlib.Data.Set.Card
import Mathlib.Tactic

/-!
# Counting references

A family of holders, each of which refers to at most one target. The number of holders of a target changes
by one when one of them takes a reference to it or gives it up, and so a counter that goes along stays
right, if references on their way from one holder to another are booked. Counts of holders are extended
naturals, so nothing need be known of the number of holders.
-/

namespace RefCount

variable {ι κ : Type*} {f : ι → Option κ} {i j : ι} {k : κ}

def holders (f : ι → Option κ) (k : κ) : Set ι := {i | f i = some k}

noncomputable def refs (f : ι → Option κ) (k : κ) : ℕ∞ := (holders f k).encard

@[simp] lemma mem_holders : i ∈ holders f k ↔ f i = some k := Iff.rfl

lemma refs_eq_zero : refs f k = 0 ↔ ∀ i, f i ≠ some k := by
  unfold refs
  rw [Set.encard_eq_zero, Set.eq_empty_iff_forall_notMem]
  rfl

section Update

variable [DecidableEq ι]

lemma refs_update_some (hi : f i ≠ some k) : refs (Function.update f i (some k)) k = refs f k + 1 := by
  have hset : holders (Function.update f i (some k)) k = insert i (holders f k) := by
    ext a
    by_cases ha : a = i
    · subst ha
      simp
    · simp [ha]
  have hnot : i ∉ holders f k := hi
  unfold refs
  rw [hset, Set.encard_insert_of_notMem hnot]

lemma refs_update_of_ne {v : Option κ} (hi : f i ≠ some k) (hv : v ≠ some k) :
    refs (Function.update f i v) k = refs f k := by
  have hset : holders (Function.update f i v) k = holders f k := by
    ext a
    by_cases ha : a = i
    · subst ha
      simp [hi, hv]
    · simp [ha]
  unfold refs
  rw [hset]

variable [DecidableEq κ]

/-- What one holder adds to the count. -/
def ref (v : Option κ) (k : κ) : ℕ := if v = some k then 1 else 0

@[simp] lemma ref_none (k : κ) : ref none k = 0 := rfl

@[simp] lemma ref_self (k : κ) : ref (some k) k = 1 := if_pos rfl

lemma ref_of_ne {v : Option κ} (h : v ≠ some k) : ref v k = 0 := if_neg h

/-- The count after one holder has turned from `f i` to `v`. -/
lemma refs_update (f : ι → Option κ) (i : ι) (v : Option κ) (k : κ) :
    refs (Function.update f i v) k + ref (f i) k = refs f k + ref v k := by
  by_cases hi : f i = some k
  · by_cases hv : v = some k
    · rw [hv, ← hi, Function.update_eq_self]
    · have hback := refs_update_some (f := Function.update f i v) (i := i) (k := k) (by simpa using hv)
      rw [Function.update_idem, ← hi, Function.update_eq_self] at hback
      rw [hi, ref_self, ref_of_ne hv, hback]
      simp
  · by_cases hv : v = some k
    · rw [hv, refs_update_some hi, ref_of_ne hi, ref_self]
      simp
    · rw [refs_update_of_ne hi hv, ref_of_ne hi, ref_of_ne hv]

end Update

/-- A counter that goes from `r` to `r'` stays right when the holders go from `t` to `t'` and the references
on their way make up for the difference. -/
lemma balance {t t' : ℕ∞} {l l' r r' c d : ℕ} (h : t + l = r) (ht : t' + c = t + d)
    (hl : l' + d + r = l + c + r') : t' + l' = r' := by
  have htop : t ≠ ⊤ := by
    intro htop
    simp [htop] at h
  have htop' : t' ≠ ⊤ := by
    intro htop'
    rw [htop', top_add] at ht
    exact WithTop.add_ne_top.mpr ⟨htop, ENat.natCast_ne_top d⟩ ht.symm
  lift t to ℕ using htop
  lift t' to ℕ using htop'
  norm_cast at h ht ⊢
  omega

lemma own_le {t : ℕ∞} {l r : ℕ} (h : t + l = r) : l ≤ r := by
  have hle : (l : ℕ∞) ≤ r := by
    rw [← h]
    exact le_add_self
  exact_mod_cast hle

/-- References on their way that make up the whole counter leave none to the holders. -/
lemma none_left {t : ℕ∞} {l r : ℕ} (h : t + l = r) (hl : r ≤ l) : t = 0 ∧ l = r := by
  have htop : t ≠ ⊤ := by
    intro htop
    simp [htop] at h
  lift t to ℕ using htop
  norm_cast at h ⊢
  omega

end RefCount
