import Mathlib.Data.List.Basic
import Mathlib.Order.Nat
import Mathlib.Tactic.Common

/-!
# A log that wraps around

Pieces of a line, in the order in which they were put there. New ones go upwards from `free`; where the line ends they
start again at its beginning, below the oldest ones. So the older ones lie above `free` and the newer ones below.
-/

namespace RingLog

variable {σ : Type*} (start stop : σ → ℕ)

/-- Each piece ends before the later ones begin. -/
def Ascending (l : List σ) : Prop := l.Pairwise (fun a b => stop a ≤ start b)

/-- The older pieces go upwards from `free`, the newer ones upwards to it. -/
def Log (free : ℕ) (l : List σ) : Prop :=
  ∃ hi lo, l = hi ++ lo ∧ Ascending start stop hi ∧ Ascending start stop lo ∧ (∀ a ∈ hi, free ≤ start a) ∧
    ∀ a ∈ lo, stop a ≤ free

variable {start stop} {free : ℕ} {l : List σ} {a : σ}

lemma Log.nil (free : ℕ) : Log start stop free [] :=
  ⟨[], [], rfl, List.Pairwise.nil, List.Pairwise.nil, fun _ ha => absurd ha List.not_mem_nil,
    fun _ ha => absurd ha List.not_mem_nil⟩

/-- No two pieces overlap. -/
lemma Log.disjoint (h : Log start stop free l) : l.Pairwise (fun a b => stop a ≤ start b ∨ stop b ≤ start a) := by
  obtain ⟨hi, lo, rfl, hhi, hlo, hup, hdown⟩ := h
  refine List.pairwise_append.mpr ⟨hhi.imp Or.inl, hlo.imp Or.inl, ?_⟩
  intro a ha b hb
  exact Or.inr ((hdown b hb).trans (hup a ha))

/-- The oldest pieces go. -/
lemma Log.suffix {l' : List σ} (h : Log start stop free l) (hl : l' <:+ l) : Log start stop free l' := by
  obtain ⟨hi, lo, rfl, hhi, hlo, hup, hdown⟩ := h
  obtain ⟨t, ht⟩ := hl
  rcases List.append_eq_append_iff.mp ht with ⟨hi', rfl, rfl⟩ | ⟨lo', rfl, rfl⟩
  · exact ⟨hi', lo, rfl, hhi.sublist (List.sublist_append_right t hi'), hlo,
      fun a ha => hup a (List.mem_append_right t ha), hdown⟩
  · exact ⟨[], l', rfl, List.Pairwise.nil, hlo.sublist (List.sublist_append_right lo' l'),
      fun _ ha => absurd ha List.not_mem_nil, fun a ha => hdown a (List.mem_append_right lo' ha)⟩

/-- The newest piece goes. -/
lemma Log.dropLast (h : Log start stop free (l ++ [a])) : Log start stop free l := by
  obtain ⟨hi, lo, heq, hhi, hlo, hup, hdown⟩ := h
  rcases List.eq_nil_or_concat lo with rfl | ⟨lo', b, rfl⟩
  · rw [List.append_nil] at heq
    subst heq
    exact ⟨l, [], by simp, hhi.sublist (List.sublist_append_left l [a]), List.Pairwise.nil,
      fun b hb => hup b (List.mem_append_left _ hb), fun _ hb => absurd hb List.not_mem_nil⟩
  · rw [List.concat_eq_append, ← List.append_assoc] at heq
    obtain ⟨rfl, -⟩ := List.append_inj' heq rfl
    rw [List.concat_eq_append] at hlo hdown
    exact ⟨hi, lo', rfl, hhi, hlo.sublist (List.sublist_append_left lo' [b]), hup,
      fun c hc => hdown c (List.mem_append_left _ hc)⟩

/-- The newest piece ends at `free`, and is changed to end earlier. -/
lemma Log.shrink {b : σ} (h : Log start stop free (l ++ [a])) (hnonempty : start a < stop a) (hfree : stop a = free)
    (hstart : start b = start a) (hstop : stop b ≤ stop a) (hle : start b ≤ stop b) :
    Log start stop (stop b) (l ++ [b]) := by
  obtain ⟨hi, lo, heq, hhi, hlo, hup, hdown⟩ := h
  rcases List.eq_nil_or_concat lo with rfl | ⟨lo', c, rfl⟩
  · rw [List.append_nil] at heq
    have hfar := hup a (heq ▸ List.mem_append_right l List.mem_cons_self)
    omega
  · rw [List.concat_eq_append, ← List.append_assoc] at heq
    obtain ⟨rfl, hc⟩ := List.append_inj' heq rfl
    obtain rfl : a = c := by simpa using hc
    rw [List.concat_eq_append] at hlo hdown
    obtain ⟨hlo', -, hlast⟩ := List.pairwise_append.mp hlo
    refine ⟨hi, lo' ++ [b], by simp, hhi, List.pairwise_append.mpr ⟨hlo', List.pairwise_singleton _ _, ?_⟩, ?_, ?_⟩
    · intro d hd e he
      rw [List.mem_singleton.mp he, hstart]
      exact hlast d hd a List.mem_cons_self
    · intro d hd
      have := hup d hd
      omega
    · intro d hd
      rcases List.mem_append.mp hd with hd | hd
      · have := hlast d hd a List.mem_cons_self
        omega
      · rw [List.mem_singleton.mp hd]

/-- A piece is put above the newer ones, and below the older ones if there are any. -/
lemma Log.append (h : Log start stop free l) (hle : ∀ b ∈ l, start b ≤ stop b) (ha : free ≤ start a)
    (hlen : start a ≤ stop a) (hfirst : ∀ b, l.head? = some b → free ≤ start b → stop a ≤ start b) :
    Log start stop (stop a) (l ++ [a]) := by
  obtain ⟨hi, lo, rfl, hhi, hlo, hup, hdown⟩ := h
  refine ⟨hi, lo ++ [a], by simp, hhi, List.pairwise_append.mpr ⟨hlo, List.pairwise_singleton _ _, ?_⟩, ?_, ?_⟩
  · intro b hb c hc
    rw [List.mem_singleton.mp hc]
    exact (hdown b hb).trans ha
  · cases hi with
    | nil => exact fun _ hb => absurd hb List.not_mem_nil
    | cons b hi =>
      have hb : stop a ≤ start b := hfirst b rfl (hup b List.mem_cons_self)
      intro c hc
      rcases List.mem_cons.mp hc with rfl | hc
      · exact hb
      · have hbc := (List.pairwise_cons.mp hhi).1 c hc
        have hbb := hle b (List.mem_append_left _ List.mem_cons_self)
        omega
  · intro b hb
    rcases List.mem_append.mp hb with hb | hb
    · have := hdown b hb
      omega
    · rw [List.mem_singleton.mp hb]

/-- A piece is put at the beginning of the line, below all that are there. -/
lemma Log.wrap (h : Ascending start stop l) (hle : ∀ b ∈ l, start b ≤ stop b)
    (hfirst : ∀ b, l.head? = some b → stop a ≤ start b) : Log start stop (stop a) (l ++ [a]) := by
  refine ⟨l, [a], rfl, h, List.pairwise_singleton _ _, ?_, ?_⟩
  · cases l with
    | nil => exact fun _ hb => absurd hb List.not_mem_nil
    | cons b l =>
      have hb := hfirst b rfl
      intro c hc
      rcases List.mem_cons.mp hc with rfl | hc
      · exact hb
      · have hbc := (List.pairwise_cons.mp h).1 c hc
        have hbb := hle b List.mem_cons_self
        omega
  · intro b hb
    rw [List.mem_singleton.mp hb]

/-- Older pieces are there if `free` is not above the first one. -/
lemma Log.ascending (h : Log start stop free l) (hlt : ∀ b, l.head? = some b → start b < free) :
    Ascending start stop l ∧ ∀ b ∈ l, stop b ≤ free := by
  obtain ⟨hi, lo, rfl, hhi, hlo, hup, hdown⟩ := h
  cases hi with
  | nil => exact ⟨hlo, hdown⟩
  | cons b hi =>
    have h1 := hup b List.mem_cons_self
    have h2 := hlt b rfl
    omega

/-- The space behind the newest piece is free. -/
lemma Log.behindLast (h : Log start stop free (l ++ [a])) (hpos : ∀ b ∈ l ++ [a], start b < stop b) :
    Log start stop (stop a) (l ++ [a]) := by
  have hlast : ∀ lo, Ascending start stop (lo ++ [a]) → (∀ b ∈ lo, b ∈ l ++ [a]) → ∀ b ∈ lo ++ [a], stop b ≤ stop a := by
    intro lo hlo hsub b hb
    rcases List.mem_append.mp hb with hb | hb
    · have h1 := (List.pairwise_append.mp hlo).2.2 b hb a List.mem_cons_self
      have h2 := hpos a (List.mem_append_right l List.mem_cons_self)
      omega
    · rw [List.mem_singleton.mp hb]
  obtain ⟨hi, lo, heq, hhi, hlo, hup, hdown⟩ := h
  rcases List.eq_nil_or_concat lo with rfl | ⟨lo', c, rfl⟩
  · rw [List.append_nil] at heq
    refine ⟨[], l ++ [a], rfl, List.Pairwise.nil, heq ▸ hhi, fun _ hb => absurd hb List.not_mem_nil, ?_⟩
    exact hlast l (heq ▸ hhi) (fun b hb => List.mem_append_left _ hb)
  · rw [List.concat_eq_append, ← List.append_assoc] at heq
    obtain ⟨rfl, hc⟩ := List.append_inj' heq rfl
    obtain rfl : a = c := by simpa using hc
    rw [List.concat_eq_append] at hlo hdown
    refine ⟨hi, lo' ++ [a], by simp, hhi, hlo, ?_, ?_⟩
    · intro b hb
      exact (hdown a (List.mem_append_right lo' List.mem_cons_self)).trans (hup b hb)
    · exact hlast lo' hlo (fun b hb => List.mem_append_left _ (List.mem_append_right hi hb))

/-- Where the oldest piece is not above the newest one, the log has not wrapped. -/
lemma Log.ascending_of_le {b : σ} (h : Log start stop free l) (hpos : ∀ c ∈ l, start c < stop c)
    (hfirst : l.head? = some b) (hlast : l.getLast? = some a) (hle : start b ≤ start a) : Ascending start stop l := by
  obtain ⟨hi, lo, rfl, hhi, hlo, hup, hdown⟩ := h
  cases hi with
  | nil => exact hlo
  | cons c hi =>
    obtain rfl : c = b := by simpa using hfirst
    rcases List.eq_nil_or_concat lo with rfl | ⟨lo', d, rfl⟩
    · simpa using hhi
    · rw [List.concat_eq_append] at hdown hlast hpos
      rw [← List.append_assoc, List.getLast?_concat] at hlast
      obtain rfl : d = a := Option.some.inj hlast
      have h1 := hup c List.mem_cons_self
      have h2 := hdown d (List.mem_append_right lo' List.mem_cons_self)
      have h3 := hpos d (by simp)
      omega

end RingLog
