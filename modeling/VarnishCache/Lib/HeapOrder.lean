import Mathlib.Order.Nat

/-!
# Heap order over an arbitrary parent function

A heap is a family of keys on slots `r ≤ u < n` with a parent function that strictly
drops. The lemmas follow one misplaced key while it moves towards the root (`Hole`) and
then away from it (`Down`), without looking at how slots are numbered.
-/

namespace HeapOrder

/-- A comparison that tells which of two keys belongs nearer the root. -/
structure StrictWeak {K : Type} (lt : K → K → Bool) : Prop where
  asymm : ∀ a b, lt a b = true → ¬lt b a = true
  negTrans : ∀ a b c, ¬lt a b = true → ¬lt b c = true → ¬lt a c = true

lemma StrictWeak.irrefl {K : Type} {lt : K → K → Bool} (h : StrictWeak lt) (a : K) : ¬lt a a = true :=
  fun ha => h.asymm a a ha ha

lemma StrictWeak.of_lt_of_not_lt {K : Type} {lt : K → K → Bool} (h : StrictWeak lt) {a b c : K}
    (hab : lt a b = true) (hcb : ¬lt c b = true) : ¬lt c a = true := by
  intro hca
  exact h.negTrans a c b (h.asymm c a hca) hcb hab

variable {K : Type} (lt : K → K → Bool) (par : Nat → Nat) (r n : Nat) (k : Nat → K)

def Ordered : Prop := ∀ j, r < j → j < n → ¬lt (k j) (k (par j)) = true

/-- Only the pairs that touch slot `u` may be out of order. -/
structure Hole (u : Nat) : Prop where
  except : ∀ j, r < j → j < n → j ≠ u → par j ≠ u → ¬lt (k j) (k (par j)) = true
  grand : r < u → ∀ j, r < j → j < n → par j = u → ¬lt (k j) (k (par u)) = true

/-- Only the pairs of slot `u` with its children may be out of order. -/
structure Down (u : Nat) : Prop extends Hole lt par r n k u where
  above : r < u → ¬lt (k u) (k (par u)) = true

/-- No child of slot `u` precedes it. -/
def Below (u : Nat) : Prop := ∀ j, r < j → j < n → par j = u → ¬lt (k j) (k u) = true

variable {lt par r n k} {u : Nat}

lemma Ordered.mono (h : Ordered lt par r n k) {m : Nat} (hm : m ≤ n) : Ordered lt par r m k :=
  fun j hj hjm => h j hj (hjm.trans_le hm)

theorem Ordered.root_le (h : Ordered lt par r n k) (hlt : StrictWeak lt)
    (hpar : ∀ j, r < j → j < n → r ≤ par j ∧ par j < j) (hr : r ≤ u) (hu : u < n) :
    ¬lt (k u) (k r) = true := by
  induction u using Nat.strong_induction_on with
  | _ u ih =>
    rcases Nat.eq_or_lt_of_le hr with rfl | hlt'
    · exact hlt.irrefl _
    · obtain ⟨hp, hpu⟩ := hpar u hlt' hu
      exact hlt.negTrans _ _ _ (h u hlt' hu) (ih (par u) hpu hp (hpu.trans hu))

/-- Replacing one key of an ordered heap leaves a hole at its slot. -/
lemma Ordered.hole (h : Ordered lt par r n k) (hlt : StrictWeak lt)
    (hpar : ∀ j, r < j → j < n → r ≤ par j ∧ par j < j) (hu : u < n) {k' : Nat → K}
    (hk : ∀ j, r ≤ j → j < n → j ≠ u → k' j = k j) : Hole lt par r n k' u := by
  constructor
  · intro j hj hjn hju hpu
    have hpj := hpar j hj hjn
    rw [hk j hj.le hjn hju, hk _ hpj.1 (by omega) hpu]
    exact h j hj hjn
  · intro hru j hj hjn hju
    have hpj := hpar j hj hjn
    have hpu := hpar u hru hu
    rw [hk j hj.le hjn (by omega), hk _ hpu.1 (by omega) (by omega)]
    exact hlt.negTrans _ _ _ (hju ▸ h j hj hjn) (h u hru hu)

/-- Appending a key leaves a hole at the new last slot. -/
lemma Ordered.append (h : Ordered lt par r n k)
    (hpar : ∀ j, r < j → j < n + 1 → r ≤ par j ∧ par j < j) {k' : Nat → K}
    (hk : ∀ j, j < n → k' j = k j) : Hole lt par r (n + 1) k' n := by
  constructor
  · intro j hj hjn hju hpu
    have hpj := hpar j hj hjn
    rw [hk j (by omega), hk _ (by omega)]
    exact h j hj (by omega)
  · intro hru j hj hjn hju
    have hpj := hpar j hj hjn
    omega

/-- One turn of a sift towards the root. -/
lemma Hole.up (h : Hole lt par r n k u) (hlt : StrictWeak lt)
    (hpar : ∀ j, r < j → j < n → r ≤ par j ∧ par j < j) (hru : r < u) (hu : u < n)
    {k' : Nat → K} (hku : k' u = k (par u)) (hkp : k' (par u) = k u)
    (hk : ∀ j, j < n → j ≠ u → j ≠ par u → k' j = k j) (hcmp : lt (k u) (k (par u)) = true) :
    Hole lt par r n k' (par u) := by
  have hpu := hpar u hru hu
  have hgp : r < par u → ¬lt (k (par u)) (k (par (par u))) = true := by
    intro hr
    have hpp := hpar (par u) hr (by omega)
    exact h.except (par u) hr (by omega) (by omega) (by omega)
  constructor
  · intro j hj hjn hjp hpj
    have hjlt := hpar j hj hjn
    by_cases hju : j = u
    · subst hju; exact absurd rfl hpj
    · rw [hk j hjn hju hjp]
      by_cases hc : par j = u
      · rw [hc, hku]
        exact h.grand hru j hj hjn hc
      · rw [hk _ (by omega) hc hpj]
        exact h.except j hj hjn hju hc
  · intro hr j hj hjn hjp
    have hjlt := hpar j hj hjn
    have hpp := hpar (par u) hr (by omega)
    rw [hk (par (par u)) (by omega) (by omega) (by omega)]
    by_cases hju : j = u
    · subst hju
      rw [hku]
      exact hgp hr
    · rw [hk j hjn hju (by omega)]
      have hjv := h.except j hj hjn hju (by omega)
      rw [hjp] at hjv
      exact hlt.negTrans _ _ _ hjv (hgp hr)

/-- A key that moved towards the root precedes the keys it passed. -/
lemma Hole.up_below (h : Hole lt par r n k u) (hlt : StrictWeak lt)
    (hpar : ∀ j, r < j → j < n → r ≤ par j ∧ par j < j) (hru : r < u) (hu : u < n)
    {k' : Nat → K} (hku : k' u = k (par u)) (hkp : k' (par u) = k u)
    (hk : ∀ j, j < n → j ≠ u → j ≠ par u → k' j = k j) (hcmp : lt (k u) (k (par u)) = true) :
    Below lt par r n k' (par u) := by
  intro j hj hjn hjp
  have hpu := hpar u hru hu
  have hjlt := hpar j hj hjn
  rw [hkp]
  by_cases hju : j = u
  · subst hju
    rw [hku]
    exact hlt.asymm _ _ hcmp
  · rw [hk j hjn hju (by omega)]
    have hjv := h.except j hj hjn hju (by omega)
    rw [hjp] at hjv
    exact hlt.of_lt_of_not_lt hcmp hjv

lemma Hole.stop (h : Hole lt par r n k u) (ha : r < u → ¬lt (k u) (k (par u)) = true) :
    Down lt par r n k u := ⟨h, ha⟩

/-- One turn of a sift away from the root, along a child `v` that no other child precedes. -/
lemma Down.down (h : Down lt par r n k u) (hpar : ∀ j, r < j → j < n → r ≤ par j ∧ par j < j)
    {v : Nat} (hrv : r < v) (hv : v < n) (hvu : par v = u)
    (hmin : ∀ j, r < j → j < n → par j = u → ¬lt (k j) (k v) = true)
    {k' : Nat → K} (hku : k' u = k v) (hkv : k' v = k u)
    (hk : ∀ j, j < n → j ≠ u → j ≠ v → k' j = k j) (hcmp : ¬lt (k u) (k v) = true) :
    Down lt par r n k' v := by
  have hpv := hpar v hrv hv
  refine ⟨⟨?_, ?_⟩, ?_⟩
  · intro j hj hjn hjv hpj
    have hjlt := hpar j hj hjn
    by_cases hju : j = u
    · subst hju
      rw [hku, hk _ (by omega) (by omega) (by omega)]
      exact h.grand hj v hrv hv hvu
    · rw [hk j hjn hju hjv]
      by_cases hc : par j = u
      · rw [hc, hku]
        exact hmin j hj hjn hc
      · rw [hk _ (by omega) hc hpj]
        exact h.except j hj hjn hju hc
  · intro _ j hj hjn hjv
    have hjlt := hpar j hj hjn
    rw [hvu, hku, hk j hjn (by omega) (by omega)]
    have hjp := h.except j hj hjn (by omega) (by omega)
    rwa [hjv] at hjp
  · intro _
    rw [hvu, hku, hkv]
    exact hcmp

lemma Down.stop (h : Down lt par r n k u) (hc : Below lt par r n k u) : Ordered lt par r n k := by
  intro j hj hjn
  by_cases hju : j = u
  · subst hju
    exact h.above hj
  · by_cases hpj : par j = u
    · rw [hpj]
      exact hc j hj hjn hpj
    · exact h.except j hj hjn hju hpj

end HeapOrder
