import Mathlib.Data.List.Perm.Basic
import Mathlib.Data.List.Nodup
import Mathlib.Tactic

/-!
# Critical-bit trees over arbitrary keys

A tree node carries a name and the index of the bit it decides. Keys are seen only
through their bits. `seek` follows the bits of a key, `graft` puts a new leaf where a
key first leaves the tree, and `prune` drops a leaf together with the node above it.
-/

namespace CritBit

inductive Trie (N A : Type) where
  | leaf (a : A)
  | node (i : N) (c : Nat) (l r : Trie N A)

namespace Trie

variable {N A : Type}

def leaves : Trie N A → List A
  | leaf a => [a]
  | node _ _ l r => l.leaves ++ r.leaves

def names : Trie N A → List N
  | leaf _ => []
  | node i _ l r => i :: (l.names ++ r.names)

/-- The subtree on side `s`. -/
def side (l r : Trie N A) : Bool → Trie N A
  | false => l
  | true => r

/-- The node with its subtree on side `s` replaced by `u`. -/
def put (i : N) (c : Nat) (l r : Trie N A) (s : Bool) (u : Trie N A) : Trie N A :=
  if s then node i c l u else node i c u r

/-- Every bit decided at the root lies beyond `c`. -/
def Beyond (c : Nat) : Trie N A → Prop
  | leaf _ => True
  | node _ c' _ _ => c < c'

variable (bit : A → Nat → Bool)

/-- The path-prefix invariant: bits are decided in increasing order, the leaves below a node
agree on the bits before the one it decides, and lie on the side that bit gives. -/
def WF : Trie N A → Prop
  | leaf _ => True
  | node _ c l r => l.WF ∧ r.WF ∧ l.Beyond c ∧ r.Beyond c ∧
      (∀ a ∈ l.leaves, bit a c = false) ∧ (∀ a ∈ r.leaves, bit a c = true) ∧
      ∀ a ∈ l.leaves ++ r.leaves, ∀ b ∈ l.leaves ++ r.leaves, ∀ j < c, bit a j = bit b j

/-- The leaf reached by following the bits `x`. -/
def seek (x : Nat → Bool) : Trie N A → A
  | leaf a => a
  | node _ c l r => if x c then r.seek x else l.seek x

/-- The new node above `t` for a leaf `a` that leaves `t` at bit `c`. -/
def fork (i : N) (c : Nat) (a : A) (s : Bool) (t : Trie N A) : Trie N A :=
  if s then node i c t (leaf a) else node i c (leaf a) t

def graft (i : N) (c : Nat) (a : A) : Trie N A → Trie N A
  | leaf b => fork i c a (bit a c) (leaf b)
  | node j d l r =>
    if c < d then fork i c a (bit a c) (node j d l r)
    else if bit a d then node j d l (r.graft i c a) else node j d (l.graft i c a) r

/-- The tree without leaf `a`, or `none` when `a` is the whole tree. -/
def prune [DecidableEq A] (a : A) : Trie N A → Option (Trie N A)
  | leaf b => if b = a then none else some (leaf b)
  | node i c l r =>
    if bit a c then
      match r.prune a with
      | none => some l
      | some r' => some (node i c l r')
    else
      match l.prune a with
      | none => some r
      | some l' => some (node i c l' r)

variable {bit}

lemma leaves_node (i : N) (c : Nat) (l r : Trie N A) : (node i c l r).leaves = l.leaves ++ r.leaves := rfl

lemma names_node (i : N) (c : Nat) (l r : Trie N A) : (node i c l r).names = i :: (l.names ++ r.names) := rfl

lemma seek_node (x : Nat → Bool) (i : N) (c : Nat) (l r : Trie N A) :
    (node i c l r).seek x = if x c then r.seek x else l.seek x := rfl

lemma node_graft (i : N) (c : Nat) (a : A) (j : N) (d : Nat) (l r : Trie N A) : (node j d l r).graft bit i c a =
    if c < d then fork i c a (bit a c) (node j d l r)
    else if bit a d then node j d l (r.graft bit i c a) else node j d (l.graft bit i c a) r := rfl

lemma seek_mem (x : Nat → Bool) (t : Trie N A) : t.seek x ∈ t.leaves := by
  induction t with
  | leaf a => exact List.mem_singleton.mpr rfl
  | node i c l r ihl ihr =>
    rw [seek_node, leaves_node, List.mem_append]
    split
    · exact Or.inr ihr
    · exact Or.inl ihl

/-- A leaf with the bits `x` is the one that `seek` reaches. -/
lemma seek_eq_of_mem {t : Trie N A} (ht : t.WF bit) {a : A} (ha : a ∈ t.leaves) {x : Nat → Bool}
    (hx : ∀ j, bit a j = x j) : t.seek x = a := by
  induction t with
  | leaf b => exact (List.mem_singleton.mp ha).symm
  | node i c l r ihl ihr =>
    obtain ⟨hl, hr, -, -, hbl, hbr, -⟩ := ht
    rcases List.mem_append.mp ha with h | h
    · have hc := hbl a h
      rw [hx] at hc
      rw [seek_node, hc, if_neg Bool.false_ne_true]
      exact ihl hl h
    · have hc := hbr a h
      rw [hx] at hc
      rw [seek_node, hc, if_pos rfl]
      exact ihr hr h

/-- Distinct leaves of a well-formed tree have distinct bits. -/
lemma WF.leaf_unique {t : Trie N A} (ht : t.WF bit) {a b : A} (ha : a ∈ t.leaves) (hb : b ∈ t.leaves)
    (hab : ∀ j, bit a j = bit b j) : a = b := by
  rw [← seek_eq_of_mem ht ha hab, seek_eq_of_mem ht hb (fun _ => rfl)]

lemma WF.nodup {t : Trie N A} (ht : t.WF bit) : t.leaves.Nodup := by
  induction t with
  | leaf a => exact List.nodup_singleton a
  | node i c l r ihl ihr =>
    obtain ⟨hl, hr, -, -, hbl, hbr, -⟩ := ht
    refine List.Nodup.append (ihl hl) (ihr hr) ?_
    intro a hal har
    have h1 := hbl a hal
    rw [hbr a har] at h1
    exact absurd h1 (by decide)

/-- Well-formedness sees the keys only through the bits of the leaves. -/
lemma WF.congr {bit' : A → Nat → Bool} {t : Trie N A} (ht : t.WF bit)
    (h : ∀ a ∈ t.leaves, ∀ j, bit' a j = bit a j) : t.WF bit' := by
  induction t with
  | leaf a => trivial
  | node i c l r ihl ihr =>
    obtain ⟨hl, hr, hbl, hbr, h0, h1, hag⟩ := ht
    have hL : ∀ a ∈ l.leaves, ∀ j, bit' a j = bit a j := fun a ha => h a (List.mem_append_left _ ha)
    have hR : ∀ a ∈ r.leaves, ∀ j, bit' a j = bit a j := fun a ha => h a (List.mem_append_right _ ha)
    refine ⟨ihl hl hL, ihr hr hR, hbl, hbr, fun a ha => ?_, fun a ha => ?_, fun a ha b hb j hj => ?_⟩
    · rw [hL a ha, h0 a ha]
    · rw [hR a ha, h1 a ha]
    · rw [h a ha, h b hb, hag a ha b hb j hj]

/-- All leaves agree on the bits up to one that lies before the root's. -/
lemma WF.agree {t : Trie N A} (ht : t.WF bit) {c : Nat} (hc : t.Beyond c) {a b : A} (ha : a ∈ t.leaves)
    (hb : b ∈ t.leaves) {j : Nat} (hj : j ≤ c) : bit a j = bit b j := by
  cases t with
  | leaf d =>
    rw [List.mem_singleton.mp ha, List.mem_singleton.mp hb]
  | node i d l r =>
    obtain ⟨-, -, -, -, -, -, hag⟩ := ht
    exact hag a ha b hb j (lt_of_le_of_lt hj hc)

lemma graft_node (i : N) (c : Nat) (a : A) (j : N) (d : Nat) (l r : Trie N A) (h : ¬ c < d) :
    (node j d l r).graft bit i c a = put j d l r (bit a d) ((side l r (bit a d)).graft bit i c a) := by
  rw [node_graft, if_neg h]
  cases bit a d <;> rfl

lemma put_names (i : N) (c : Nat) (l r : Trie N A) (s : Bool) (u : Trie N A) :
    (put i c l r s u).names.Perm (i :: (u.names ++ (side l r !s).names)) := by
  cases s with
  | false => exact List.Perm.refl _
  | true => exact List.perm_append_comm.cons i

lemma node_names (i : N) (c : Nat) (l r : Trie N A) (s : Bool) :
    (node i c l r).names.Perm (i :: ((side l r s).names ++ (side l r !s).names)) := by
  cases s with
  | false => exact List.Perm.refl _
  | true => exact List.perm_append_comm.cons i

lemma fork_leaves (i : N) (c : Nat) (a : A) (s : Bool) (t : Trie N A) :
    (fork i c a s t).leaves.Perm (a :: t.leaves) := by
  unfold fork
  split
  · exact List.perm_append_singleton a t.leaves
  · exact List.Perm.refl _

lemma graft_leaves (i : N) (c : Nat) (a : A) (t : Trie N A) :
    (t.graft bit i c a).leaves.Perm (a :: t.leaves) := by
  induction t with
  | leaf b => exact fork_leaves ..
  | node j d l r ihl ihr =>
    rw [node_graft]
    split
    · exact fork_leaves ..
    · split
      · exact (ihr.append_left l.leaves).trans List.perm_middle
      · exact ihl.append_right r.leaves

lemma fork_names (i : N) (c : Nat) (a : A) (s : Bool) (t : Trie N A) : (fork i c a s t).names = i :: t.names := by
  unfold fork
  split
  · rw [names_node, names, List.append_nil]
  · rfl

lemma graft_names (i : N) (c : Nat) (a : A) (t : Trie N A) :
    (t.graft bit i c a).names.Perm (i :: t.names) := by
  induction t with
  | leaf b => exact .of_eq (fork_names i c a (bit a c) (leaf b))
  | node j d l r ihl ihr =>
    rw [node_graft]
    split
    · rw [fork_names]
    · split
      · have h := (ihr.append_left l.names).trans List.perm_middle
        exact (h.cons j).trans (List.Perm.swap i j _)
      · exact ((ihl.append_right r.names).cons j).trans (List.Perm.swap i j _)

lemma fork_wf {t : Trie N A} (ht : t.WF bit) (i : N) {c : Nat} {a b : A} (hc : t.Beyond c) (hb : b ∈ t.leaves)
    (hpre : ∀ j < c, bit a j = bit b j) (hdiff : bit a c ≠ bit b c) :
    (fork i c a (bit a c) t).WF bit := by
  have hside : ∀ d ∈ t.leaves, bit d c = !bit a c := by
    intro d hd
    rw [ht.agree hc hd hb le_rfl]
    exact Bool.eq_not_of_ne (Ne.symm hdiff)
  have hag : ∀ d ∈ t.leaves, ∀ j < c, bit d j = bit a j := by
    intro d hd j hj
    rw [ht.agree hc hd hb hj.le, hpre j hj]
  unfold fork
  split
  · rename_i hs
    refine ⟨ht, trivial, hc, trivial, fun d hd => by rw [hside d hd, hs]; rfl, ?_, ?_⟩
    · intro d hd
      rwa [List.mem_singleton.mp hd]
    · intro d hd e he j hj
      have hall : ∀ f ∈ t.leaves ++ (leaf a : Trie N A).leaves, bit f j = bit a j := by
        intro f hf
        rcases List.mem_append.mp hf with h | h
        · exact hag f h j hj
        · rw [List.mem_singleton.mp h]
      rw [hall d hd, hall e he]
  · rename_i hs
    have hs' : bit a c = false := by simpa using hs
    refine ⟨trivial, ht, trivial, hc, ?_, fun d hd => by rw [hside d hd, hs']; rfl, ?_⟩
    · intro d hd
      rwa [List.mem_singleton.mp hd]
    · intro d hd e he j hj
      have hall : ∀ f ∈ (leaf a : Trie N A).leaves ++ t.leaves, bit f j = bit a j := by
        intro f hf
        rcases List.mem_append.mp hf with h | h
        · rw [List.mem_singleton.mp h]
        · exact hag f h j hj
      rw [hall d hd, hall e he]

lemma fork_beyond {i : N} {c d : Nat} {a : A} {s : Bool} {t : Trie N A} (h : d < c) : (fork i c a s t).Beyond d := by
  unfold fork
  split <;> exact h

lemma graft_beyond {i : N} {c d : Nat} {a : A} {t : Trie N A} (ht : t.Beyond d) (h : d < c) :
    (t.graft bit i c a).Beyond d := by
  cases t with
  | leaf b => exact fork_beyond h
  | node j e l r =>
    rw [node_graft]
    split
    · exact fork_beyond h
    · split <;> exact ht

/-- On the path that `seek` takes, the critical bit is not decided yet, and grafting the new
leaf there keeps the tree well formed. -/
theorem graft_wf {t : Trie N A} (ht : t.WF bit) (i : N) {c : Nat} {a : A}
    (hpre : ∀ j < c, bit a j = bit (t.seek (bit a)) j) (hdiff : bit a c ≠ bit (t.seek (bit a)) c) :
    (t.graft bit i c a).WF bit := by
  induction t with
  | leaf b => exact fork_wf ht i trivial (List.mem_singleton.mpr rfl) hpre hdiff
  | node j d l r ihl ihr =>
    by_cases hcd : c < d
    · rw [node_graft, if_pos hcd]
      exact fork_wf ht i hcd (seek_mem _ _) hpre hdiff
    · obtain ⟨hl, hr, hbl, hbr, h0, h1, hag⟩ := ht
      rw [node_graft, if_neg hcd]
      by_cases hb : bit a d = true
      · rw [seek_node, if_pos hb] at hpre hdiff
        rw [if_pos hb]
        have hne : d ≠ c := by
          rintro rfl
          exact hdiff (by rw [hb, h1 _ (seek_mem _ _)])
        have hdc : d < c := by omega
        refine ⟨hl, ihr hr hpre hdiff, hbl, graft_beyond hbr hdc, h0, ?_, ?_⟩
        · intro e he
          rcases List.mem_cons.mp ((graft_leaves i c a r).mem_iff.mp he) with rfl | h
          · exact hb
          · exact h1 e h
        · have hall : ∀ f ∈ l.leaves ++ (r.graft bit i c a).leaves, ∀ k < d,
              bit f k = bit (r.seek (bit a)) k := by
            intro f hf k hk
            have hseek : r.seek (bit a) ∈ l.leaves ++ r.leaves := List.mem_append_right _ (seek_mem _ _)
            rcases List.mem_append.mp hf with h | h
            · exact hag f (List.mem_append_left _ h) _ hseek k hk
            · rcases List.mem_cons.mp ((graft_leaves i c a r).mem_iff.mp h) with rfl | h
              · exact hpre k (hk.trans hdc)
              · exact hag f (List.mem_append_right _ h) _ hseek k hk
          intro f hf g hg k hk
          rw [hall f hf k hk, hall g hg k hk]
      · have hb' : bit a d = false := by simpa using hb
        rw [seek_node, if_neg hb] at hpre hdiff
        rw [if_neg hb]
        have hne : d ≠ c := by
          rintro rfl
          exact hdiff (by rw [hb', h0 _ (seek_mem _ _)])
        have hdc : d < c := by omega
        refine ⟨ihl hl hpre hdiff, hr, graft_beyond hbl hdc, hbr, ?_, h1, ?_⟩
        · intro e he
          rcases List.mem_cons.mp ((graft_leaves i c a l).mem_iff.mp he) with rfl | h
          · exact hb'
          · exact h0 e h
        · have hall : ∀ f ∈ (l.graft bit i c a).leaves ++ r.leaves, ∀ k < d,
              bit f k = bit (l.seek (bit a)) k := by
            intro f hf k hk
            have hseek : l.seek (bit a) ∈ l.leaves ++ r.leaves := List.mem_append_left _ (seek_mem _ _)
            rcases List.mem_append.mp hf with h | h
            · rcases List.mem_cons.mp ((graft_leaves i c a l).mem_iff.mp h) with rfl | h
              · exact hpre k (hk.trans hdc)
              · exact hag f (List.mem_append_left _ h) _ hseek k hk
            · exact hag f (List.mem_append_right _ h) _ hseek k hk
          intro f hf g hg k hk
          rw [hall f hf k hk, hall g hg k hk]

lemma Beyond.trans {t : Trie N A} {c d : Nat} (ht : t.Beyond d) (h : c < d) : t.Beyond c := by
  cases t with
  | leaf b => trivial
  | node j e l r => exact h.trans ht

/-- Every decided bit is below `b`. -/
def Below (b : Nat) : Trie N A → Prop
  | leaf _ => True
  | node _ c l r => c < b ∧ l.Below b ∧ r.Below b

def height : Trie N A → Nat
  | leaf _ => 0
  | node _ _ l r => max l.height r.height + 1

lemma height_le {t : Trie N A} (ht : t.WF bit) {b c : Nat} (hb : t.Below b) (hc : t.Beyond c) (hcb : c < b) :
    t.height + c < b := by
  induction t generalizing c with
  | leaf a => simpa [height] using hcb
  | node i d l r ihl ihr =>
    obtain ⟨hl, hr, hbl, hbr, -⟩ := ht
    obtain ⟨hd, hl', hr'⟩ := hb
    have h1 := ihl hl hl' hbl hd
    have h2 := ihr hr hr' hbr hd
    have h3 : c < d := hc
    simp only [height]
    omega

/-- Decided bits increase, so a tree is no higher than the keys are long. -/
lemma height_le_of_below {t : Trie N A} (ht : t.WF bit) {b : Nat} (hb : t.Below b) : t.height ≤ b := by
  cases t with
  | leaf a => exact Nat.zero_le _
  | node i d l r =>
    obtain ⟨hl, hr, hbl, hbr, -⟩ := ht
    obtain ⟨hd, hl', hr'⟩ := hb
    have h1 := height_le hl hl' hbl hd
    have h2 := height_le hr hr' hbr hd
    simp only [height]
    omega

section Prune

variable [DecidableEq A]

lemma leaf_prune (a b : A) : (leaf b : Trie N A).prune bit a = if b = a then none else some (leaf b) := rfl

lemma node_prune (a : A) (i : N) (c : Nat) (l r : Trie N A) : (node i c l r).prune bit a =
    if bit a c then
      match r.prune bit a with
      | none => some l
      | some r' => some (node i c l r')
    else
      match l.prune bit a with
      | none => some r
      | some l' => some (node i c l' r) := rfl

lemma prune_node (a : A) (i : N) (c : Nat) (l r : Trie N A) :
    (node i c l r).prune bit a = match (side l r (bit a c)).prune bit a with
      | none => some (side l r !bit a c)
      | some u => some (put i c l r (bit a c) u) := by
  rw [node_prune]
  cases bit a c <;> rfl

/-- Where the pruned leaf sits alone below a node, the sibling takes the node's place. -/
lemma prune_eq_none {t : Trie N A} {a : A} (h : t.prune bit a = none) : t = leaf a := by
  cases t with
  | leaf b =>
    rw [leaf_prune] at h
    split at h
    · rename_i hb
      rw [hb]
    · cases h
  | node i c l r =>
    rw [node_prune] at h
    split at h <;> split at h <;> cases h

lemma prune_leaves {t t' : Trie N A} (ht : t.WF bit) {a : A} (ha : a ∈ t.leaves)
    (h : t.prune bit a = some t') : t.leaves.Perm (a :: t'.leaves) := by
  induction t generalizing t' with
  | leaf b =>
    rw [leaf_prune, if_pos (List.mem_singleton.mp ha).symm] at h
    cases h
  | node i c l r ihl ihr =>
    obtain ⟨hl, hr, -, -, h0, h1, -⟩ := ht
    rw [node_prune] at h
    rcases List.mem_append.mp ha with hal | har
    · rw [h0 a hal, if_neg Bool.false_ne_true] at h
      split at h
      · rename_i hp
        cases h
        rw [prune_eq_none hp]
        exact List.Perm.refl _
      · rename_i l' hp
        cases h
        exact (ihl hl hal hp).append_right r.leaves
    · rw [h1 a har, if_pos rfl] at h
      split at h
      · rename_i hp
        cases h
        rw [prune_eq_none hp]
        exact List.perm_append_singleton a _
      · rename_i r' hp
        cases h
        exact ((ihr hr har hp).append_left l.leaves).trans List.perm_middle

lemma prune_beyond {t t' : Trie N A} (ht : t.WF bit) {a : A} {d : Nat} (hd : t.Beyond d)
    (h : t.prune bit a = some t') : t'.Beyond d := by
  cases t with
  | leaf b =>
    rw [leaf_prune] at h
    split at h <;> cases h
    trivial
  | node i c l r =>
    obtain ⟨-, -, hbl, hbr, -⟩ := ht
    rw [node_prune] at h
    split at h <;> split at h <;> cases h
    · exact hbl.trans hd
    · exact hd
    · exact hbr.trans hd
    · exact hd

theorem prune_wf {t t' : Trie N A} (ht : t.WF bit) {a : A} (ha : a ∈ t.leaves)
    (h : t.prune bit a = some t') : t'.WF bit := by
  induction t generalizing t' with
  | leaf b =>
    rw [leaf_prune, if_pos (List.mem_singleton.mp ha).symm] at h
    cases h
  | node i c l r ihl ihr =>
    have hperm := prune_leaves ht ha h
    obtain ⟨hl, hr, hbl, hbr, h0, h1, hag⟩ := ht
    rw [node_prune] at h
    have hsub : ∀ f ∈ t'.leaves, f ∈ l.leaves ++ r.leaves :=
      fun f hf => hperm.mem_iff.mpr (List.mem_cons_of_mem _ hf)
    rcases List.mem_append.mp ha with hal | har
    · rw [h0 a hal, if_neg Bool.false_ne_true] at h
      split at h
      · cases h
        exact hr
      · rename_i l' hp
        cases h
        refine ⟨ihl hl hal hp, hr, prune_beyond hl hbl hp, hbr, fun f hf => ?_, h1, ?_⟩
        · exact h0 f ((prune_leaves hl hal hp).mem_iff.mpr (List.mem_cons_of_mem _ hf))
        · exact fun f hf g hg => hag f (hsub f hf) g (hsub g hg)
    · rw [h1 a har, if_pos rfl] at h
      split at h
      · cases h
        exact hl
      · rename_i r' hp
        cases h
        refine ⟨hl, ihr hr har hp, hbl, prune_beyond hr hbr hp, h0, fun f hf => ?_, ?_⟩
        · exact h1 f ((prune_leaves hr har hp).mem_iff.mpr (List.mem_cons_of_mem _ hf))
        · exact fun f hf g hg => hag f (hsub f hf) g (hsub g hg)

end Prune

end Trie

end CritBit
