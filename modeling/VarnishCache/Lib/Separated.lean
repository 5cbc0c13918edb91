import Mathlib.Data.List.Basic
import Mathlib.Tactic

/-!
# Lists with an end mark

Lists one after the other, each with the mark `sep` at its end. The result tells the lists apart up to the places where
`sep` occurs inside of them.
-/

namespace Separated

variable {α : Type*} {sep : α} {xs ys : List (List α)}

def terminated (sep : α) (xs : List (List α)) : List α := xs.flatMap (fun x => x ++ [sep])

lemma terminated_append (sep : α) (xs ys : List (List α)) :
    terminated sep (xs ++ ys) = terminated sep xs ++ terminated sep ys :=
  List.flatMap_append

variable [DecidableEq α]

/-- All lists, cut wherever `sep` occurs. -/
def pieces (sep : α) (xs : List (List α)) : List (List α) := xs.flatMap (List.splitOn sep)

lemma splitOn_marked (sep : α) (xs : List (List α)) : (terminated sep xs).splitOn sep = pieces sep xs ++ [[]] := by
  induction xs with
  | nil => rfl
  | cons x xs ih =>
    have hcons : terminated sep (x :: xs) = x ++ sep :: terminated sep xs := by simp [terminated]
    rw [hcons, List.splitOn_append_cons_self, ih, ← List.append_assoc]
    rfl

/-- Cutting at `sep` does not change the result. -/
lemma terminated_pieces (sep : α) (xs : List (List α)) : terminated sep (pieces sep xs) = terminated sep xs := by
  have hone : ∀ x : List α, terminated sep (x.splitOn sep) = x ++ [sep] := by
    intro x
    induction x with
    | nil => rfl
    | cons a x ih =>
      rw [List.splitOn_cons_eq_if_modifyHead]
      obtain ⟨y, l, hl⟩ := List.exists_cons_of_ne_nil (List.splitOn_ne_nil sep x)
      rw [hl] at ih ⊢
      by_cases ha : a = sep
      · subst ha
        simp [terminated] at ih ⊢
        exact ih
      · simp [terminated, ha] at ih ⊢
        exact ih
  induction xs with
  | nil => rfl
  | cons x xs ih =>
    change terminated sep (x.splitOn sep ++ pieces sep xs) = _
    rw [terminated_append, hone, ih]
    simp [terminated]

theorem terminated_eq_iff : terminated sep xs = terminated sep ys ↔ pieces sep xs = pieces sep ys := by
  constructor
  · intro h
    have hsplit := congrArg (List.splitOn sep) h
    rw [splitOn_marked, splitOn_marked] at hsplit
    exact List.append_cancel_right hsplit
  · intro h
    rw [← terminated_pieces sep xs, h, terminated_pieces]

lemma pieces_of_notMem (h : ∀ x ∈ xs, sep ∉ x) : pieces sep xs = xs := by
  induction xs with
  | nil => rfl
  | cons x xs ih =>
    change x.splitOn sep ++ pieces sep xs = x :: xs
    rw [List.splitOn_eq_singleton (h x List.mem_cons_self), ih (fun y hy => h y (List.mem_cons_of_mem x hy))]
    rfl

end Separated
