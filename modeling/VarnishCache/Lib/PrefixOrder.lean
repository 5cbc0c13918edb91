import Mathlib.Data.List.Basic
import Mathlib.Order.Basic
import Mathlib.Tactic

/-!
# Strings in an order where prefixes come last

Strings over a linear order, compared letter by letter; a string comes before its proper prefixes. In a list sorted this
way, the first prefix of a given string is the longest one.
-/

namespace PrefixOrder

variable {α : Type*} [LinearOrder α] {s t u v : List α}

def prefixCmp : List α → List α → Ordering
  | [], [] => .eq
  | [], _ :: _ => .gt
  | _ :: _, [] => .lt
  | a :: s, b :: t => if a < b then .lt else if b < a then .gt else prefixCmp s t

lemma prefixCmp_cons (a b : α) (s t : List α) : prefixCmp (a :: s) (b :: t) =
    if a < b then .lt else if b < a then .gt else prefixCmp s t := rfl

lemma prefixCmp_cons_self (a : α) (s t : List α) : prefixCmp (a :: s) (a :: t) = prefixCmp s t := by
  rw [prefixCmp_cons, if_neg (lt_irrefl a), if_neg (lt_irrefl a)]

@[simp] lemma prefixCmp_self (s : List α) : prefixCmp s s = .eq := by
  induction s with
  | nil => rfl
  | cons a s ih => rw [prefixCmp_cons_self, ih]

lemma eq_of_prefixCmp (h : prefixCmp s t = .eq) : s = t := by
  induction s generalizing t with
  | nil =>
    cases t with
    | nil => rfl
    | cons b t => cases h
  | cons a s ih =>
    cases t with
    | nil => cases h
    | cons b t =>
      rw [prefixCmp_cons] at h
      split_ifs at h with hab hba
      rw [le_antisymm (not_lt.mp hba) (not_lt.mp hab), ih h]

lemma prefixCmp_swap (s t : List α) : (prefixCmp s t).swap = prefixCmp t s := by
  induction s generalizing t with
  | nil => cases t <;> rfl
  | cons a s ih =>
    cases t with
    | nil => rfl
    | cons b t =>
      rw [prefixCmp_cons, prefixCmp_cons, ← ih t]
      rcases lt_trichotomy a b with hab | rfl | hba
      · simp [hab, hab.not_gt]
      · simp
      · simp [hba, hba.not_gt]

lemma prefixCmp_gt_iff : prefixCmp s t = .gt ↔ prefixCmp t s = .lt := by
  rw [← prefixCmp_swap s t]
  cases prefixCmp s t <;> decide

lemma prefixCmp_trans (hst : prefixCmp s t = .lt) (htu : prefixCmp t u = .lt) : prefixCmp s u = .lt := by
  induction s generalizing t u with
  | nil => cases t <;> cases hst
  | cons a s ih =>
    cases t with
    | nil => cases u <;> cases htu
    | cons b t =>
      cases u with
      | nil => rfl
      | cons c u =>
        rw [prefixCmp_cons] at hst htu ⊢
        by_cases hab : a < b
        · by_cases hbc : b < c
          · rw [if_pos (hab.trans hbc)]
          · rw [if_neg hbc] at htu
            by_cases hcb : c < b
            · rw [if_pos hcb] at htu
              cases htu
            · rw [if_pos (lt_of_lt_of_le hab (not_lt.mp hcb))]
        · rw [if_neg hab] at hst
          by_cases hba : b < a
          · rw [if_pos hba] at hst
            cases hst
          · rw [if_neg hba] at hst
            obtain rfl : a = b := le_antisymm (not_lt.mp hba) (not_lt.mp hab)
            by_cases hac : a < c
            · rw [if_pos hac]
            · rw [if_neg hac] at htu ⊢
              by_cases hca : c < a
              · rw [if_pos hca] at htu
                cases htu
              · rw [if_neg hca] at htu ⊢
                exact ih hst htu

/-- Strings of one length are compared before what follows them. -/
lemma prefixCmp_append (h : s.length = t.length) (u v : List α) :
    prefixCmp (s ++ u) (t ++ v) = (prefixCmp s t).then (prefixCmp u v) := by
  induction s generalizing t with
  | nil =>
    obtain rfl : t = [] := List.length_eq_zero_iff.mp h.symm
    rfl
  | cons a s ih =>
    obtain ⟨b, t, rfl⟩ := List.exists_cons_of_length_eq_add_one h.symm
    have hlen : s.length = t.length := Nat.succ.inj h
    rw [List.cons_append, List.cons_append]
    rw [prefixCmp_cons, prefixCmp_cons]
    split
    · rfl
    · split
      · rfl
      · exact ih hlen

/-- Of two prefixes of one string, the one that comes first is longer. -/
lemma length_lt_of_prefixCmp (hs : s <+: u) (ht : t <+: u) (h : prefixCmp s t = .lt) : t.length < s.length := by
  induction s generalizing t u with
  | nil => cases t <;> cases h
  | cons a s ih =>
    cases t with
    | nil => exact Nat.succ_pos _
    | cons b t =>
      obtain ⟨w, rfl⟩ := hs
      rw [List.cons_append, List.cons_prefix_cons] at ht
      obtain ⟨rfl, ht⟩ := ht
      rw [prefixCmp_cons_self] at h
      exact Nat.succ_lt_succ (ih (List.prefix_append s w) ht h)

end PrefixOrder
