import Mathlib.Logic.Relation
import Mathlib.Data.Set.Card
import Mathlib.Tactic

/-!
# Walks through a call graph

A walk that follows all calls and remembers only those that it is inside of passes exactly when everything it can reach
is fine and nothing it can reach calls itself.
-/

namespace CallGraph

open Relation

variable {α : Type*} {calls : α → α → Prop} {ok : α → Prop} {A B : Set α} {p q : α}

/-- The walk from `p`, inside of the calls of `A`, passes. -/
inductive WalkOk (calls : α → α → Prop) (ok : α → Prop) : Set α → α → Prop
  | intro {A : Set α} {p : α} (out : p ∉ A) (fine : ok p)
      (next : ∀ q, calls p q → WalkOk calls ok (insert p A) q) : WalkOk calls ok A p

lemma walkOk_iff : WalkOk calls ok A p ↔ p ∉ A ∧ ok p ∧ ∀ q, calls p q → WalkOk calls ok (insert p A) q := by
  constructor
  · rintro ⟨out, fine, next⟩
    exact ⟨out, fine, next⟩
  · rintro ⟨out, fine, next⟩
    exact ⟨out, fine, next⟩

lemma WalkOk.anti (h : WalkOk calls ok B p) (hAB : A ⊆ B) : WalkOk calls ok A p := by
  induction h generalizing A with
  | intro out fine _ ih =>
    exact ⟨fun hp => out (hAB hp), fine, fun q hq => ih q hq (Set.insert_subset_insert hAB)⟩

lemma WalkOk.reach (h : WalkOk calls ok A p) (hpq : ReflTransGen calls p q) : WalkOk calls ok A q := by
  induction hpq with
  | refl => exact h
  | tail _ hcall ih => exact ((walkOk_iff.mp ih).2.2 _ hcall).anti (Set.subset_insert _ A)

lemma WalkOk.acyclic (h : WalkOk calls ok A p) : ¬ TransGen calls p p := by
  intro hpp
  obtain ⟨q, hcall, hqp⟩ := TransGen.head'_iff.mp hpp
  have hback := ((walkOk_iff.mp h).2.2 q hcall).reach hqp
  exact (walkOk_iff.mp hback).1 (Set.mem_insert p A)

/-- All that can be reached is fine and not inside of itself. -/
def Fine (calls : α → α → Prop) (ok : α → Prop) (p : α) : Prop :=
  ∀ q, ReflTransGen calls p q → ok q ∧ ¬ TransGen calls q q

lemma Fine.next (h : Fine calls ok p) (hcall : calls p q) : Fine calls ok q :=
  fun r hr => h r (ReflTransGen.head hcall hr)

lemma ncard_compl_insert_lt [Finite α] (hp : p ∉ A) : (insert p A)ᶜ.ncard < Aᶜ.ncard := by
  refine Set.ncard_lt_ncard ⟨Set.compl_subset_compl.mpr (Set.subset_insert p A), ?_⟩ (Set.toFinite _)
  intro hsub
  exact hsub hp (Set.mem_insert p A)

/-- The walk ends, as there is always one less to enter. -/
lemma walkOk_of_fine [Finite α] (h : Fine calls ok p) (hout : ∀ q, ReflTransGen calls p q → q ∉ A) :
    WalkOk calls ok A p := by
  induction hn : Aᶜ.ncard using Nat.strong_induction_on generalizing A p with
  | _ n ih =>
    subst hn
    have hp := hout p ReflTransGen.refl
    refine ⟨hp, (h p ReflTransGen.refl).1, ?_⟩
    intro q hcall
    refine ih _ (ncard_compl_insert_lt hp) (h.next hcall) ?_ rfl
    intro r hr hmem
    rcases hmem with rfl | hmem
    · exact (h r ReflTransGen.refl).2 (TransGen.head' hcall hr)
    · exact hout r (ReflTransGen.head hcall hr) hmem

theorem walkOk_empty_iff [Finite α] : WalkOk calls ok ∅ p ↔ Fine calls ok p := by
  constructor
  · intro h q hq
    have hpass := h.reach hq
    exact ⟨(walkOk_iff.mp hpass).2.1, hpass.acyclic⟩
  · intro h
    exact walkOk_of_fine h (fun q _ hq => hq)

/-! ## How often a walk comes by -/

variable [DecidableEq α] {callees : α → List α} {k : Nat}

/-- The paths from `p` to `q` of less than `k` calls. -/
def paths (callees : α → List α) : Nat → α → α → Nat
  | 0, _, _ => 0
  | k + 1, p, q => (if q = p then 1 else 0) + ((callees p).map fun r => paths callees k r q).sum

/-- Where the walk passes there are no longer ones. -/
lemma WalkOk.paths_stable [Finite α] (hcalls : ∀ p q, calls p q ↔ q ∈ callees p) (h : WalkOk calls ok A p)
    (hk : Aᶜ.ncard < k) (j : Nat) (q : α) : paths callees (k + j) p q = paths callees k p q := by
  induction k generalizing A p with
  | zero => omega
  | succ k ih =>
    obtain ⟨hout, -, hnext⟩ := walkOk_iff.mp h
    have hless := ncard_compl_insert_lt hout
    rw [Nat.add_right_comm, paths, paths]
    congr 2
    refine List.map_congr_left fun r hr => ?_
    exact ih (hnext r ((hcalls p r).mpr hr)) (by omega)

lemma WalkOk.paths_pos [Finite α] (hcalls : ∀ p q, calls p q ↔ q ∈ callees p) (h : WalkOk calls ok A p)
    (hk : Aᶜ.ncard < k) (q : α) : 0 < paths callees k p q ↔ ReflTransGen calls p q := by
  induction k generalizing A p with
  | zero => omega
  | succ k ih =>
    obtain ⟨hout, -, hnext⟩ := walkOk_iff.mp h
    have hless := ncard_compl_insert_lt hout
    have hsum : 0 < ((callees p).map fun r => paths callees k r q).sum ↔ ∃ r ∈ callees p, ReflTransGen calls r q := by
      rw [Nat.pos_iff_ne_zero, Ne, List.sum_eq_zero_iff]
      simp only [List.mem_map, forall_exists_index, and_imp, forall_apply_eq_imp_iff₂, not_forall]
      constructor
      · rintro ⟨r, hr, hpos⟩
        exact ⟨r, hr, (ih (hnext r ((hcalls p r).mpr hr)) (by omega)).mp (Nat.pos_of_ne_zero hpos)⟩
      · rintro ⟨r, hr, hreach⟩
        exact ⟨r, hr, ((ih (hnext r ((hcalls p r).mpr hr)) (by omega)).mpr hreach).ne'⟩
    rw [paths, Nat.add_pos_iff_pos_or_pos, hsum, ReflTransGen.cases_head_iff]
    refine or_congr ?_ (exists_congr fun r => by rw [hcalls])
    by_cases hq : q = p
    · simp [hq]
    · simp [hq, Ne.symm hq]

end CallGraph
