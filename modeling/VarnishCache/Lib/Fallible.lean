import Mathlib.Data.List.Basic

/-!
# Computations that can fail

What a sequence of steps gives when it succeeds, and what is kept by a fold whose steps can fail.
-/

namespace Fallible

variable {ε α β σ φ : Type} {x : Except ε α} {f : α → Except ε β} {b : β} {e : ε}

lemma bind_ok_iff : x >>= f = .ok b ↔ ∃ a, x = .ok a ∧ f a = .ok b := by
  cases x with
  | error e =>
    constructor
    · intro h
      cases h
    · rintro ⟨a, h, -⟩
      cases h
  | ok a =>
    constructor
    · exact fun h => ⟨a, rfl, h⟩
    · rintro ⟨a', h, hf⟩
      cases h
      exact hf

lemma bind_ok (h : x >>= f = .ok b) : ∃ a, x = .ok a ∧ f a = .ok b := bind_ok_iff.mp h

lemma bind_error (h : x >>= f = .error e) : x = .error e ∨ ∃ a, f a = .error e := by
  cases x with
  | error e' =>
    cases h
    exact .inl rfl
  | ok a => exact .inr ⟨a, h⟩

/-- What is true of an element when its step is over, and stays true in the steps of others, is true of all in the
end. -/
lemma foldlM_each {step : σ → φ → Except ε σ} {W : σ → φ → Prop}
    (hstep : ∀ {s x s'}, step s x = .ok s' → W s' x ∧ ∀ y, W s y → W s' y) {l : List φ} {s s' : σ}
    (h : l.foldlM step s = .ok s') : (∀ x ∈ l, W s' x) ∧ ∀ y, W s y → W s' y := by
  induction l generalizing s with
  | nil =>
    cases h
    exact ⟨fun x hx => absurd hx List.not_mem_nil, fun y hy => hy⟩
  | cons x l ih =>
    rw [List.foldlM_cons] at h
    obtain ⟨s₁, hx, hrest⟩ := bind_ok h
    obtain ⟨hdone, hkeep⟩ := hstep hx
    obtain ⟨hall, hkeep'⟩ := ih hrest
    exact ⟨List.forall_mem_cons.mpr ⟨hkeep' x hdone, hall⟩, fun y hy => hkeep' y (hkeep y hy)⟩

end Fallible
