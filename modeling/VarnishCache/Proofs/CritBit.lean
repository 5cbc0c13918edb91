import VarnishCache.CritBit
import VarnishCache.Lib.CritBit
import Mathlib.Data.Nat.Bitwise
import Mathlib.Tactic

/-!
# Digest bits and the critical bit of two digests
-/

namespace VarnishCache.Proofs

open VarnishCache

/-- Bit `k` of a byte, counted from the most significant one. -/
def byteBit (x : UInt8) (k : Nat) : Bool := x &&& UInt8.ofNat (0x80 >>> k) != 0

/-- Bit `j` of a digest, counted over its bytes from the most significant bit on. -/
def digestBit (d : Digest) (j : Nat) : Bool :=
  if h : j / 8 < digestLen then byteBit (d ⟨j / 8, h⟩) (j % 8) else false

lemma byteBit_eq (x : UInt8) {k : Nat} (hk : k < 8) : byteBit x k = x.toNat.testBit (7 - k) := by
  have hmask : (UInt8.ofNat (0x80 >>> k)).toNat = 2 ^ (7 - k) := by
    interval_cases k <;> rfl
  have hand : (x &&& UInt8.ofNat (0x80 >>> k)).toNat = (x.toNat.testBit (7 - k)).toNat * 2 ^ (7 - k) := by
    rw [UInt8.toNat_and, hmask, Nat.and_two_pow]
  have hpow : 0 < 2 ^ (7 - k) := Nat.two_pow_pos _
  unfold byteBit
  cases hbit : x.toNat.testBit (7 - k) with
  | false =>
    rw [hbit, Bool.toNat_false, Nat.zero_mul] at hand
    simpa using UInt8.toNat_inj.mp hand
  | true =>
    rw [hbit, Bool.toNat_true, Nat.one_mul] at hand
    rw [bne_iff_ne]
    intro h0
    rw [h0] at hand
    exact absurd hand.symm hpow.ne'

/-- The table counts leading zeros. -/
lemma hcbBittbl_eq : hcbBittbl = (List.range 256).map (fun z => if z = 0 then 8 else 7 - z.log2) := by
  decide +kernel

/-- The table counts the leading bits two bytes have in common. -/
lemma bittbl_spec (z : Fin 256) (hz : z ≠ 0) : hcbBittbl.getD z 0 < 8 ∧
    z.val.testBit (7 - hcbBittbl.getD z 0) = true ∧
    ∀ k < 8, k < hcbBittbl.getD z 0 → z.val.testBit (7 - k) = false := by
  have hz' : z.val ≠ 0 := fun h => hz (Fin.ext h)
  have hget : hcbBittbl.getD z 0 = 7 - z.val.log2 := by
    simp [hcbBittbl_eq, List.getD_eq_getElem?_getD, hz']
  have hlog : z.val.log2 < 8 := (Nat.log2_lt hz').mpr z.isLt
  rw [hget]
  refine ⟨by omega, ?_, ?_⟩
  · rw [show 7 - (7 - z.val.log2) = z.val.log2 by omega]
    exact Nat.testBit_of_two_pow_le_and_two_pow_add_one_gt (Nat.log2_self_le hz') Nat.lt_log2_self
  · intro k _ hk
    refine Nat.testBit_lt_two_pow (Nat.lt_log2_self.trans_le ?_)
    exact Nat.pow_le_pow_right (by decide) (by omega)

lemma hcbBits_spec {x y : UInt8} (hxy : x ≠ y) : hcbBits x y < 8 ∧
    byteBit x (hcbBits x y) ≠ byteBit y (hcbBits x y) ∧
    ∀ k < hcbBits x y, byteBit x k = byteBit y k := by
  have hz : (x ^^^ y).toFin ≠ 0 := by
    intro h
    have h0 : x ^^^ y = 0 := UInt8.toFin_inj.mp h
    exact hxy (UInt8.xor_eq_zero_iff.mp h0)
  obtain ⟨hr, h1, h0⟩ := bittbl_spec _ hz
  have hval : ((x ^^^ y).toFin : Fin 256).val = x.toNat ^^^ y.toNat := UInt8.toNat_xor x y
  have hbits : hcbBits x y = hcbBittbl.getD ((x ^^^ y).toFin : Fin 256).val 0 := rfl
  rw [← hbits] at hr h1 h0
  rw [hval] at h1 h0
  rw [Nat.testBit_xor] at h1
  refine ⟨hr, ?_, ?_⟩
  · rw [byteBit_eq x hr, byteBit_eq y hr]
    intro heq
    rw [heq, Bool.xor_self] at h1
    exact absurd h1 (by decide)
  · intro k hk
    have h := h0 k (hk.trans hr) hk
    rw [Nat.testBit_xor] at h
    rw [byteBit_eq x (hk.trans hr), byteBit_eq y (hk.trans hr)]
    simpa using h

/-- The fields of a node fit together: `ptr` and `bitmask` select bit `critbit`. -/
def HcbYOk (y : HcbY) : Prop :=
  y.critbit < digestLen * 8 ∧ y.ptr = y.critbit / 8 ∧ y.bitmask = UInt8.ofNat (0x80 >>> (y.critbit % 8))

lemma side_eq {y : HcbY} (hy : HcbYOk y) (d : Digest) : y.side d = some (digestBit d y.critbit) := by
  obtain ⟨hc, hp, hm⟩ := hy
  have h8 : y.critbit / 8 < digestLen := Nat.div_lt_of_lt_mul (by rw [Nat.mul_comm]; exact hc)
  unfold HcbY.side digestBit byteBit
  simp only [hp, hm, h8, dif_pos]

lemma diffByte_eq_none {d1 d2 : Digest} (h : diffByte d1 d2 = none) : d1 = d2 := by
  funext u
  have := List.find?_eq_none.mp h u (List.mem_finRange u)
  simpa using this

lemma diffByte_eq_some {d1 d2 : Digest} {u : Fin digestLen} (h : diffByte d1 d2 = some u) :
    d1 u ≠ d2 u ∧ ∀ v < u, d1 v = d2 v := by
  obtain ⟨hu, as, bs, hsplit, has⟩ := List.find?_eq_some_iff_append.mp h
  refine ⟨by simpa using hu, fun v hv => ?_⟩
  have hsorted : (as ++ u :: bs).Pairwise (· < ·) := by
    rw [← hsplit]
    exact List.pairwise_lt_finRange _
  have hmem : v ∈ as ++ u :: bs := by
    rw [← hsplit]
    exact List.mem_finRange v
  rcases List.mem_append.mp hmem with h1 | h1
  · simpa using has v h1
  · rcases List.mem_cons.mp h1 with rfl | h2
    · exact absurd hv (lt_irrefl _)
    · have := (List.pairwise_cons.mp (List.pairwise_append.mp hsorted).2.1).1 v h2
      exact absurd (hv.trans this) (lt_irrefl _)

/-- `hcb_crit_bit` finds the first bit in which two digests differ. -/
lemma hcbCritBit_spec {d1 d2 : Digest} (hne : d1 ≠ d2) (y : HcbY) :
    ∃ y', hcbCritBit d1 d2 y = some y' ∧ HcbYOk y' ∧
      digestBit d1 y'.critbit ≠ digestBit d2 y'.critbit ∧
      ∀ j < y'.critbit, digestBit d1 j = digestBit d2 j := by
  cases h : diffByte d1 d2 with
  | none => exact absurd (diffByte_eq_none h) hne
  | some u =>
    obtain ⟨hu, hpre⟩ := diffByte_eq_some h
    obtain ⟨hr, hdiff, hsame⟩ := hcbBits_spec hu
    have hdiv : (u.val * 8 + hcbBits (d1 u) (d2 u)) / 8 = u.val := by omega
    have hmod : (u.val * 8 + hcbBits (d1 u) (d2 u)) % 8 = hcbBits (d1 u) (d2 u) := by omega
    have hlen : u.val < digestLen := u.isLt
    refine ⟨_, by rw [hcbCritBit, h]; rfl, ⟨?_, ?_, ?_⟩, ?_, ?_⟩
    · change u.val * 8 + hcbBits (d1 u) (d2 u) < digestLen * 8
      omega
    · exact hdiv.symm
    · simp only [hmod]
    · simp only [digestBit, hdiv, hmod, hlen, dif_pos]
      exact hdiff
    · intro j hj
      change j < u.val * 8 + hcbBits (d1 u) (d2 u) at hj
      unfold digestBit
      split
      · rename_i hj8
        by_cases hju : j / 8 < u.val
        · rw [hpre ⟨j / 8, hj8⟩ hju]
        · have heq : j / 8 = u.val := by omega
          have heq' : (⟨j / 8, hj8⟩ : Fin digestLen) = u := Fin.ext heq
          rw [heq']
          exact hsame (j % 8) (by omega)
      · rfl

end VarnishCache.Proofs

/-!
## The tree in memory

`Rep m p t` says that the pointer `p` leads to the abstract tree `t`. The loops of the source
follow `seek`, and the two updates act on the abstract tree as `graft` and `prune`.
-/

namespace VarnishCache.Proofs

open VarnishCache CritBit

/-- Node addresses name the inner nodes, objheads are the leaves. -/
abbrev HTrie := Trie Nat Nat

/-- Bit `j` of the digest of an objhead. -/
def ohBit (m : Hcb) (oh j : Nat) : Bool :=
  match m.ohs oh with
  | some o => digestBit o.digest j
  | none => false

lemma ohBit_of_some {m : Hcb} {oh : Nat} {o : ObjHead} (h : m.ohs oh = some o) : ohBit m oh = digestBit o.digest := by
  funext j
  simp [ohBit, h]

def Rep (m : Hcb) : Ptr → HTrie → Prop
  | p, .leaf oh => p = .node oh ∧ (m.ohs oh).isSome
  | p, .node i c l r => p = .y i ∧ ∃ y, m.ys i = some y ∧ y.critbit = c ∧ HcbYOk y ∧
      Rep m (y.leaf false) l ∧ Rep m (y.leaf true) r

lemma Rep.side {m : Hcb} {y : HcbY} {l r : HTrie} (hl : Rep m (y.leaf false) l) (hr : Rep m (y.leaf true) r)
    (s : Bool) : Rep m (y.leaf s) (Trie.side l r s) := by
  cases s
  · exact hl
  · exact hr

lemma Rep.frame {m m' : Hcb} {p : Ptr} {t : HTrie} (h : Rep m p t) (hys : ∀ i ∈ t.names, m'.ys i = m.ys i)
    (hohs : ∀ oh ∈ t.leaves, (m.ohs oh).isSome → (m'.ohs oh).isSome) : Rep m' p t := by
  induction t generalizing p with
  | leaf oh => exact ⟨h.1, hohs oh (List.mem_singleton.mpr rfl) h.2⟩
  | node i c l r ihl ihr =>
    obtain ⟨hp, y, hy, hc, hok, hl, hr⟩ := h
    refine ⟨hp, y, by rw [hys i (by simp [Trie.names]), hy], hc, hok, ihl hl ?_ ?_, ihr hr ?_ ?_⟩
    · exact fun j hj => hys j (by simp [Trie.names, hj])
    · exact fun oh ho => hohs oh (by simp [Trie.leaves, ho])
    · exact fun j hj => hys j (by simp [Trie.names, hj])
    · exact fun oh ho => hohs oh (by simp [Trie.leaves, ho])

lemma Rep.below {m : Hcb} {p : Ptr} {t : HTrie} (h : Rep m p t) : t.Below (digestLen * 8) := by
  induction t generalizing p with
  | leaf oh => trivial
  | node i c l r ihl ihr =>
    obtain ⟨-, y, -, rfl, hok, hl, hr⟩ := h
    exact ⟨hok.1, ihl hl, ihr hr⟩

lemma Rep.ne_null {m : Hcb} {p : Ptr} {t : HTrie} (h : Rep m p t) : p ≠ .null := by
  cases t with
  | leaf oh => rw [h.1]; exact Ptr.noConfusion
  | node i c l r => rw [h.1]; exact Ptr.noConfusion

lemma Rep.leaf_some {m : Hcb} {p : Ptr} {t : HTrie} (h : Rep m p t) {oh : Nat} (ho : oh ∈ t.leaves) :
    (m.ohs oh).isSome := by
  induction t generalizing p with
  | leaf b =>
    rw [List.mem_singleton.mp ho]
    exact h.2
  | node i c l r ihl ihr =>
    obtain ⟨-, y, -, -, -, hl, hr⟩ := h
    rcases List.mem_append.mp ho with h1 | h1
    · exact ihl hl h1
    · exact ihr hr h1

/-- Every node of the tree is in memory. -/
lemma Rep.name_some {m : Hcb} {p : Ptr} {t : HTrie} (h : Rep m p t) {i : Nat} (hi : i ∈ t.names) :
    (m.ys i).isSome := by
  induction t generalizing p with
  | leaf b => cases hi
  | node j c l r ihl ihr =>
    obtain ⟨-, y, hy, -, -, hl, hr⟩ := h
    rcases List.mem_cons.mp hi with rfl | h1
    · rw [hy]; rfl
    · rcases List.mem_append.mp h1 with h2 | h2
      · exact ihl hl h2
      · exact ihr hr h2

lemma follow_eq {m : Hcb} {i : Nat} {y : HcbY} (hy : m.ys i = some y) (hok : HcbYOk y) (d : Digest) :
    m.follow d i = some (y.leaf (digestBit d y.critbit)) := by
  simp [Hcb.follow, hy, side_eq hok]

/-- The walk ends at the objhead that the bits of the digest lead to. -/
lemma walk_eq {m : Hcb} {p : Ptr} {t : HTrie} (h : Rep m p t) (d : Digest) {fuel : Nat} (hf : t.height < fuel) :
    m.walk d fuel p = some (.node (t.seek (digestBit d))) := by
  induction t generalizing p fuel with
  | leaf oh =>
    rw [h.1]
    cases fuel with
    | zero => exact absurd hf (Nat.not_lt_zero _)
    | succ n => rfl
  | node i c l r ihl ihr =>
    obtain ⟨rfl, y, hy, rfl, hok, hl, hr⟩ := h
    cases fuel with
    | zero => exact absurd hf (Nat.not_lt_zero _)
    | succ n =>
      simp only [Trie.height] at hf
      simp only [Hcb.walk, follow_eq hy hok, Option.bind_eq_bind, Option.bind_some, Trie.seek]
      cases hb : digestBit d y.critbit with
      | false => exact ihl hl (by omega)
      | true => exact ihr hr (by omega)

/-- `m'` differs from `m` only in the nodes `ns` and in the pointer at `p`. -/
structure Within (m m' : Hcb) (p : Loc) (ns : List Nat) : Prop where
  ohs : m'.ohs = m.ohs
  origo : p ≠ .origo → m'.origo = m.origo
  ys : ∀ j, j ∉ ns → (∀ s, p ≠ .leaf j s) → m'.ys j = m.ys j
  here : ∀ j s, p = .leaf j s → j ∉ ns → ∀ y, m.ys j = some y →
    ∃ v, m'.ys j = some { y with leaf := Function.update y.leaf s v }

lemma Within.load_eq {m m' : Hcb} {p q : Loc} {ns : List Nat} (h : Within m m' p ns) (hpq : q ≠ p)
    (hq : ∀ j s, q = .leaf j s → j ∉ ns) {v : Ptr} (hv : m.load q = some v) : m'.load q = some v := by
  cases q with
  | origo =>
    have : m'.origo = m.origo := h.origo (Ne.symm hpq)
    simpa [Hcb.load, this] using hv
  | leaf j s =>
    have hj := hq j s rfl
    by_cases hp : ∃ s', p = .leaf j s'
    · obtain ⟨s', rfl⟩ := hp
      obtain ⟨y, hy, hys⟩ := Option.map_eq_some_iff.mp hv
      obtain ⟨w, hw⟩ := h.here j s' rfl hj y hy
      have hss : s ≠ s' := fun e => hpq (by rw [e])
      simp only [Hcb.load, hw, Option.map_some, Function.update_of_ne hss, hys]
    · have hp' : ∀ s', p ≠ .leaf j s' := fun s' e => hp ⟨s', e⟩
      simpa [Hcb.load, h.ys j hj hp'] using hv

/-- A change below side `s` of node `i` is a change of the tree at `i`. -/
lemma Rep.descend {m m' : Hcb} {p : Loc} {i c : Nat} {l r u : HTrie} {s : Bool} {ns : List Nat}
    (hload : m.load p = some (.y i)) (hrep : Rep m (.y i) (.node i c l r))
    (hp : ∀ j s', p = .leaf j s' → j ≠ i ∧ j ∉ ns) (hin : i ∉ ns)
    (hother : ∀ j ∈ (Trie.side l r !s).names, j ≠ i ∧ j ∉ ns) (hw : Within m m' (.leaf i s) ns)
    (hsub : ∃ v, m'.load (.leaf i s) = some v ∧ Rep m' v u) :
    (∃ v, m'.load p = some v ∧ Rep m' v (Trie.put i c l r s u)) ∧ Within m m' p (i :: ns) := by
  obtain ⟨-, y, hy, hc, hok, hl, hr⟩ := hrep
  obtain ⟨v, hv, hvrep⟩ := hsub
  obtain ⟨w, hw'⟩ := hw.here i s rfl hin y hy
  have hvw : v = w := by simpa [Hcb.load, hw'] using hv.symm
  have hpi : p ≠ .leaf i s := fun e => (hp i s e).1 rfl
  have hrest : Rep m' (y.leaf !s) (Trie.side l r (!s)) := by
    refine (Rep.side hl hr (!s)).frame (fun j hj => ?_) (fun oh _ ho => by rwa [hw.ohs])
    have hj' := hother j hj
    exact hw.ys j hj'.2 (fun s' e => hj'.1 (Loc.leaf.inj e).1.symm)
  have hput : Rep m' (.y i) (Trie.put i c l r s u) := by
    subst hvw
    cases s with
    | false => exact ⟨rfl, _, hw', hc, hok, by simpa using hvrep, by simpa [Trie.side] using hrest⟩
    | true => exact ⟨rfl, _, hw', hc, hok, by simpa [Trie.side] using hrest, by simpa using hvrep⟩
  refine ⟨⟨.y i, ?_, hput⟩, hw.ohs, ?_, ?_, ?_⟩
  · exact hw.load_eq hpi (fun j s' e => (hp j s' e).2) hload
  · exact fun _ => hw.origo Loc.noConfusion
  · intro j hj _
    obtain ⟨hji, hjn⟩ := List.ne_and_not_mem_of_not_mem_cons hj
    exact hw.ys j hjn (fun s' e => hji (Loc.leaf.inj e).1.symm)
  · intro j s' e hj yj hyj
    obtain ⟨hji, hjn⟩ := List.ne_and_not_mem_of_not_mem_cons hj
    refine ⟨yj.leaf s', ?_⟩
    rw [Function.update_eq_self, hw.ys j hjn (fun s'' e' => hji (Loc.leaf.inj e').1.symm), hyj]

lemma store_load {m m' : Hcb} {p : Loc} {v : Ptr} (h : m.store p v = some m') : m'.load p = some v := by
  cases p with
  | origo =>
    cases h
    rfl
  | leaf i s =>
    obtain ⟨y, hy, rfl⟩ := Option.map_eq_some_iff.mp h
    simp [Hcb.load, Hcb.setY]

lemma store_within {m m' : Hcb} {p : Loc} {v : Ptr} (h : m.store p v = some m') : Within m m' p [] := by
  cases p with
  | origo =>
    cases h
    exact ⟨rfl, fun e => absurd rfl e, fun _ _ _ => rfl, fun j s e => Loc.noConfusion e⟩
  | leaf i s =>
    obtain ⟨y, hy, rfl⟩ := Option.map_eq_some_iff.mp h
    refine ⟨rfl, fun _ => rfl, fun j _ hj => ?_, ?_⟩
    · have hji : j ≠ i := fun e => hj s (by rw [e])
      simp [Hcb.setY, Function.update_of_ne hji]
    · intro j s' e _ yj hyj
      cases e
      rw [hy] at hyj
      cases hyj
      exact ⟨v, by simp [Hcb.setY]⟩

/-- The cool-off lists, but for `k` put on that of the nodes. -/
structure Cooled (m m' : Hcb) (k : List Nat) : Prop where
  coolY : m'.coolY = m.coolY ++ k
  deadY : m'.deadY = m.deadY
  coolH : m'.coolH = m.coolH
  deadH : m'.deadH = m.deadH

lemma store_cooled {m m' : Hcb} {p : Loc} {v : Ptr} (h : m.store p v = some m') : Cooled m m' [] := by
  cases p with
  | origo =>
    cases h
    exact ⟨(List.append_nil _).symm, rfl, rfl, rfl⟩
  | leaf j s =>
    obtain ⟨y, -, rfl⟩ := Option.map_eq_some_iff.mp h
    exact ⟨(List.append_nil _).symm, rfl, rfl, rfl⟩

lemma load_store {m : Hcb} {p : Loc} {w : Ptr} (h : m.load p = some w) (v : Ptr) : ∃ m', m.store p v = some m' := by
  cases p with
  | origo => exact ⟨_, rfl⟩
  | leaf i s =>
    obtain ⟨y, hy, -⟩ := Option.map_eq_some_iff.mp h
    exact ⟨_, by rw [Hcb.store, hy]; rfl⟩

lemma names_side {i c : Nat} {l r : HTrie} (h : (Trie.node i c l r).names.Nodup) (s : Bool) :
    (Trie.side l r s).names.Nodup ∧ i ∉ (Trie.side l r s).names ∧
      ∀ j ∈ (Trie.side l r !s).names, j ≠ i ∧ j ∉ (Trie.side l r s).names := by
  simp only [Trie.names, List.nodup_cons, List.mem_append, not_or, List.nodup_append] at h
  obtain ⟨⟨hil, hir⟩, hl, hr, hlr⟩ := h
  cases s with
  | false =>
    refine ⟨hl, hil, fun j hj => ⟨fun e => hir (e ▸ hj), fun hj' => ?_⟩⟩
    exact hlr j hj' j hj rfl
  | true =>
    refine ⟨hr, hir, fun j hj => ⟨fun e => hil (e ▸ hj), fun hj' => ?_⟩⟩
    exact hlr j hj j hj' rfl

lemma mem_names_side {i c : Nat} {l r : HTrie} {s : Bool} {j : Nat} (h : j ∈ (Trie.side l r s).names) :
    j ∈ (Trie.node i c l r).names := by
  cases s with
  | false => exact List.mem_cons_of_mem _ (List.mem_append_left _ h)
  | true => exact List.mem_cons_of_mem _ (List.mem_append_right _ h)

/-- A leaf lies on the side that its bit gives. -/
lemma mem_side {bit : Nat → Nat → Bool} {i c : Nat} {l r : HTrie} (hwf : (Trie.node i c l r).WF bit)
    {oh : Nat} (ho : oh ∈ (Trie.node i c l r).leaves) : oh ∈ (Trie.side l r (bit oh c)).leaves := by
  obtain ⟨-, -, -, -, h0, h1, -⟩ := hwf
  rcases List.mem_append.mp ho with h | h
  · rw [h0 oh h]
    exact h
  · rw [h1 oh h]
    exact h

lemma wf_side {bit : Nat → Nat → Bool} {i c : Nat} {l r : HTrie} (hwf : (Trie.node i c l r).WF bit) (s : Bool) :
    (Trie.side l r s).WF bit := by
  cases s with
  | false => exact hwf.1
  | true => exact hwf.2.1

lemma height_side (i c : Nat) (l r : HTrie) (s : Bool) :
    (Trie.side l r s).height < (Trie.node i c l r).height := by
  cases s <;> simp only [Trie.height, Trie.side] <;> omega

lemma Within.mono {m m' : Hcb} {p : Loc} {ns ns' : List Nat} (h : Within m m' p ns) (hs : ∀ j ∈ ns, j ∈ ns') :
    Within m m' p ns' := by
  refine ⟨h.ohs, h.origo, fun j hj => h.ys j (fun hj' => hj (hs j hj')), fun j s e hj => ?_⟩
  exact h.here j s e (fun hj' => hj (hs j hj'))

/-- Storing the sibling at `p` keeps what hangs below the sibling. -/
lemma Rep.of_store {m m' : Hcb} {p : Loc} {v : Ptr} {t : HTrie} (h : m.store p v = some m') (hv : Rep m v t)
    (hp : ∀ j s, p = .leaf j s → j ∉ t.names) : ∃ w, m'.load p = some w ∧ Rep m' w t := by
  have hw := store_within h
  refine ⟨v, store_load h, hv.frame (fun j hj => ?_) (fun oh _ ho => by rwa [hw.ohs])⟩
  exact hw.ys j (List.not_mem_nil) (fun s e => hp j s e hj)

lemma Rep.congr {m m' : Hcb} {p : Ptr} {t : HTrie} (h : Rep m p t) (hys : m'.ys = m.ys) (hohs : m'.ohs = m.ohs) :
    Rep m' p t :=
  h.frame (fun _ _ => by rw [hys]) (fun _ _ ho => by rwa [hohs])

lemma load_congr {m m' : Hcb} (horigo : m'.origo = m.origo) (hys : m'.ys = m.ys) (p : Loc) : m'.load p = m.load p := by
  cases p <;> simp [Hcb.load, horigo, hys]

/-- The loop of `hcb_delete` prunes the objhead and puts the node above it on the cool-off list. -/
lemma unlink_spec {m : Hcb} {oh : Nat} {o : ObjHead} (ho : m.ohs oh = some o) {t : HTrie} {p : Loc} {pp : Ptr}
    (hload : m.load p = some pp) (hrep : Rep m pp t) (hwf : t.WF (ohBit m)) (hnd : t.names.Nodup)
    (hp : ∀ j s, p = .leaf j s → j ∉ t.names) (hmem : oh ∈ t.leaves) (hne : t ≠ .leaf oh) {fuel : Nat}
    (hf : t.height < fuel) :
    ∃ m' t' i, m.unlink oh o.digest fuel p = some m' ∧ t.prune (ohBit m) oh = some t' ∧
      t.names.Perm (i :: t'.names) ∧ (∃ v, m'.load p = some v ∧ Rep m' v t') ∧ Within m m' p t.names ∧
      Cooled m m' [i] ∧ m'.ys i = m.ys i := by
  induction fuel generalizing t p pp with
  | zero => exact absurd hf (Nat.not_lt_zero _)
  | succ n ih =>
    cases t with
    | leaf b => exact absurd (by rw [List.mem_singleton.mp hmem]) hne
    | node i c l r =>
      have hrep0 := hrep
      obtain ⟨rfl, y, hy, rfl, hok, hl, hr⟩ := hrep
      have hbit : ohBit m oh y.critbit = digestBit o.digest y.critbit := by rw [ohBit_of_some ho]
      have hside := Rep.side hl hr (digestBit o.digest y.critbit)
      have hmem' := mem_side hwf hmem
      rw [hbit] at hmem'
      obtain ⟨hndS, hiS, hother⟩ := names_side hnd (digestBit o.digest y.critbit)
      have hpi : ∀ j s', p = .leaf j s' → j ≠ i ∧ j ∉ (Trie.side l r (digestBit o.digest y.critbit)).names :=
        fun j s' e => ⟨fun h => hp j s' e (by simp [h, Trie.names]),
          fun h => hp j s' e (mem_names_side h)⟩
      simp only [Hcb.unlink, hload, hy, side_eq hok, Option.bind_eq_bind, Option.bind_some]
      rw [Trie.prune_node, hbit]
      by_cases hend : y.leaf (digestBit o.digest y.critbit) = .node oh
      · have hu : Trie.side l r (digestBit o.digest y.critbit) = .leaf oh := by
          rw [hend] at hside
          cases hcase : Trie.side l r (digestBit o.digest y.critbit) with
          | leaf b =>
            rw [hcase] at hside
            rw [Ptr.node.inj hside.1]
          | node j d l2 r2 =>
            rw [hcase] at hside
            exact absurd hside.1 Ptr.noConfusion
        obtain ⟨m', hm'⟩ := load_store hload (y.leaf (!digestBit o.digest y.critbit))
        have hrest := Rep.of_store hm' (Rep.side hl hr (!digestBit o.digest y.critbit))
          (fun j s e h => hp j s e (mem_names_side h))
        have hw := store_within hm'
        have hcool := store_cooled hm'
        refine ⟨{ m' with coolY := m'.coolY ++ [i] }, Trie.side l r (!digestBit o.digest y.critbit), i,
          ?_, ?_, ?_, ?_, ?_, ⟨?_, hcool.deadY, hcool.coolH, hcool.deadH⟩,
          hw.ys i List.not_mem_nil (fun s e => (hpi i s e).1 rfl)⟩
        · simp [hend, hm']
        · simp [hu, Trie.prune]
        · have := Trie.node_names i y.critbit l r (digestBit o.digest y.critbit)
          rwa [hu] at this
        · obtain ⟨v, hv, hvrep⟩ := hrest
          exact ⟨v, (load_congr rfl rfl p).trans hv, hvrep.congr rfl rfl⟩
        · exact ⟨hw.ohs, hw.origo, fun j _ => hw.ys j List.not_mem_nil,
            fun j s e _ => hw.here j s e List.not_mem_nil⟩
        · simp [hcool.coolY]
      · have hu : Trie.side l r (digestBit o.digest y.critbit) ≠ .leaf oh := by
          intro h
          rw [h] at hside
          exact hend hside.1
        have hload' : m.load (.leaf i (digestBit o.digest y.critbit)) =
            some (y.leaf (digestBit o.digest y.critbit)) := by simp [Hcb.load, hy]
        obtain ⟨m', t', k, hm', ht', hperm, hsub, hw, hcool, hyk⟩ := ih hload' hside (wf_side hwf _) hndS
          (fun j s e h => hiS ((Loc.leaf.inj e).1 ▸ h)) hmem' hu
          (Nat.lt_of_lt_of_le (height_side i y.critbit l r _) (Nat.le_of_lt_succ hf))
        obtain ⟨hres, hw'⟩ := Rep.descend hload hrep0 hpi hiS hother hw hsub
        refine ⟨m', Trie.put i y.critbit l r (digestBit o.digest y.critbit) t', k, ?_, ?_, ?_, hres, ?_, hcool, hyk⟩
        · simp [hend, hm']
        · simp [ht']
        · have h1 := Trie.node_names i y.critbit l r (digestBit o.digest y.critbit)
          have h2 := Trie.put_names i y.critbit l r (digestBit o.digest y.critbit) t'
          have h3 := ((hperm.append_right (Trie.side l r !digestBit o.digest y.critbit).names).cons i).trans
            (List.Perm.swap k i _)
          exact (h1.trans h3).trans (h2.symm.cons k)
        · refine hw'.mono (fun j hj => ?_)
          rcases List.mem_cons.mp hj with rfl | h
          · exact List.mem_cons_self
          · exact mem_names_side h

/-- The second loop of `hcb_insert` stops where `graft` forks the tree, and forking there is grafting. -/
lemma place_spec {m : Hcb} {oh i c : Nat} {o : ObjHead} (ho : m.ohs oh = some o) {t : HTrie} {p : Loc} {pp : Ptr}
    (hload : m.load p = some pp) (hrep : Rep m pp t) (hwf : t.WF (ohBit m)) (hnd : t.names.Nodup)
    (hp : ∀ j s, p = .leaf j s → j ∉ t.names ∧ j ≠ i) (hi : i ∉ t.names)
    (hdiff : ohBit m oh c ≠ ohBit m (t.seek (ohBit m oh)) c) {fuel : Nat} (hf : t.height < fuel) :
    ∃ q v u, m.place o.digest c fuel p = some q ∧ m.load q = some v ∧ Rep m v u ∧
      (∀ j s, q = .leaf j s → j ∉ u.names ∧ j ≠ i) ∧ (∀ j ∈ u.names, j ∈ t.names) ∧
      ∀ m', Within m m' q [i] →
        (∃ w, m'.load q = some w ∧ Rep m' w (Trie.fork i c oh (ohBit m oh c) u)) →
        (∃ w, m'.load p = some w ∧ Rep m' w (t.graft (ohBit m) i c oh)) ∧ Within m m' p (i :: t.names) := by
  induction fuel generalizing t p pp with
  | zero => exact absurd hf (Nat.not_lt_zero _)
  | succ n ih =>
    cases t with
    | leaf b =>
      refine ⟨p, pp, .leaf b, ?_, hload, hrep, fun j s e => ⟨List.not_mem_nil, (hp j s e).2⟩,
        fun j hj => hj, fun m' hw hfork => ⟨hfork, hw⟩⟩
      obtain ⟨rfl, -⟩ := hrep
      simp [Hcb.place, hload]
    | node k d l r =>
      have hrep0 := hrep
      obtain ⟨rfl, y, hy, rfl, hok, hl, hr⟩ := hrep
      have hbit : ohBit m oh y.critbit = digestBit o.digest y.critbit := by rw [ohBit_of_some ho]
      have hne : y.critbit ≠ c := by
        rintro rfl
        apply hdiff
        have hseek := Trie.seek_mem (ohBit m oh) (.node k y.critbit l r)
        obtain ⟨-, -, -, -, h0, h1, -⟩ := hwf
        simp only [Trie.seek]
        cases hb : ohBit m oh y.critbit with
        | false => exact (h0 _ (Trie.seek_mem _ _)).symm
        | true => exact (h1 _ (Trie.seek_mem _ _)).symm
      simp only [Hcb.place, hload, hy, Option.bind_eq_bind, Option.bind_some, hne, ite_false]
      by_cases hlt : c < y.critbit
      · refine ⟨p, .y k, .node k y.critbit l r, by simp [hlt], hload, hrep0, hp, fun j hj => hj, fun m' hw hfork => ?_⟩
        refine ⟨?_, hw.mono (fun j hj => ?_)⟩
        · simpa only [Trie.graft, hlt, ite_true] using hfork
        · rw [List.mem_singleton.mp hj]
          exact List.mem_cons_self
      · have hside := Rep.side hl hr (digestBit o.digest y.critbit)
        obtain ⟨hndS, hkS, hother⟩ := names_side hnd (digestBit o.digest y.critbit)
        have hload' : m.load (.leaf k (digestBit o.digest y.critbit)) =
            some (y.leaf (digestBit o.digest y.critbit)) := by simp [Hcb.load, hy]
        have hki : k ≠ i := fun e => hi (by simp [e, Trie.names])
        have hdiff' : ohBit m oh c ≠
            ohBit m ((Trie.side l r (digestBit o.digest y.critbit)).seek (ohBit m oh)) c := by
          rw [← hbit]
          cases hb : ohBit m oh y.critbit with
          | false => simpa [Trie.seek, hb, Trie.side] using hdiff
          | true => simpa [Trie.seek, hb, Trie.side] using hdiff
        obtain ⟨q, v, u, hq, hv, hvrep, hqn, hun, hfin⟩ := ih hload' hside (wf_side hwf _) hndS
          (fun j s e => ⟨fun h => hkS ((Loc.leaf.inj e).1 ▸ h), fun h => hki ((Loc.leaf.inj e).1.trans h)⟩)
          (fun h => hi (mem_names_side h)) hdiff'
          (Nat.lt_of_lt_of_le (height_side k y.critbit l r _) (Nat.le_of_lt_succ hf))
        refine ⟨q, v, u, by simp [hlt, side_eq hok, hq], hv, hvrep, hqn, fun j hj => mem_names_side (hun j hj), ?_⟩
        intro m' hw hfork
        obtain ⟨hsub, hw'⟩ := hfin m' hw hfork
        have hdesc := Rep.descend (p := p) hload hrep0 (fun j s' e => ?_) ?_ (fun j hj => ?_) hw' hsub
        · refine ⟨?_, hdesc.2.mono (fun j hj => ?_)⟩
          · rw [Trie.graft_node _ _ _ _ _ _ _ hlt, hbit]
            exact hdesc.1
          · rcases List.mem_cons.mp hj with rfl | h
            · exact List.mem_cons_of_mem _ List.mem_cons_self
            · rcases List.mem_cons.mp h with rfl | h
              · exact List.mem_cons_self
              · exact List.mem_cons_of_mem _ (mem_names_side h)
        · obtain ⟨h1, h2⟩ := hp j s' e
          refine ⟨fun h => h1 (by simp [h, Trie.names]), fun h => ?_⟩
          rcases List.mem_cons.mp h with h | h
          · exact h2 h
          · exact h1 (mem_names_side h)
        · intro h
          rcases List.mem_cons.mp h with h | h
          · exact hki h
          · exact hkS h
        · refine ⟨(hother j hj).1, fun h => ?_⟩
          rcases List.mem_cons.mp h with h | h
          · exact hi (h ▸ mem_names_side hj)
          · exact (hother j hj).2 h

def leavesOf : Option HTrie → List Nat
  | none => []
  | some t => t.leaves

def namesOf : Option HTrie → List Nat
  | none => []
  | some t => t.names

/-- The memory holds the tree `ot`, the empty tree being `none`. -/
structure Holds (m : Hcb) (ot : Option HTrie) : Prop where
  empty : ot = none → m.origo = .null
  rep : ∀ t, ot = some t → Rep m m.origo t
  wf : ∀ t, ot = some t → t.WF (ohBit m)
  nodup : (namesOf ot).Nodup

lemma Holds.height_lt {m : Hcb} {t : HTrie} (h : Holds m (some t)) : t.height < pathFuel :=
  Nat.lt_succ_of_le (Trie.height_le_of_below (h.wf t rfl) (h.rep t rfl).below)

lemma Holds.leaf_some {m : Hcb} {ot : Option HTrie} (h : Holds m ot) {oh : Nat} (ho : oh ∈ leavesOf ot) :
    ∃ o, m.ohs oh = some o := by
  cases ot with
  | none => cases ho
  | some t => exact Option.isSome_iff_exists.mp ((h.rep t rfl).leaf_some ho)

lemma Holds.name_some {m : Hcb} {ot : Option HTrie} (h : Holds m ot) {i : Nat} (hi : i ∈ namesOf ot) :
    ∃ y, m.ys i = some y := by
  cases ot with
  | none => cases hi
  | some t => exact Option.isSome_iff_exists.mp ((h.rep t rfl).name_some hi)

/-- No two objheads of the tree have the same digest. -/
lemma Holds.leaf_unique {m : Hcb} {ot : Option HTrie} (h : Holds m ot) {a b : Nat} (ha : a ∈ leavesOf ot)
    (hb : b ∈ leavesOf ot) {oa ob : ObjHead} (hoa : m.ohs a = some oa) (hob : m.ohs b = some ob)
    (hd : oa.digest = ob.digest) : a = b := by
  cases ot with
  | none => cases ha
  | some t =>
    refine (h.wf t rfl).leaf_unique ha hb (fun j => ?_)
    rw [ohBit_of_some hoa, ohBit_of_some hob, hd]

lemma Holds.leaves_nodup {m : Hcb} {ot : Option HTrie} (h : Holds m ot) : (leavesOf ot).Nodup := by
  cases ot with
  | none => exact List.nodup_nil
  | some t => exact (h.wf t rfl).nodup

/-- The tree is the same after a change of other nodes and objheads. -/
lemma Holds.frame {m m' : Hcb} {ot : Option HTrie} (h : Holds m ot) (horigo : m'.origo = m.origo)
    (hys : ∀ i ∈ namesOf ot, m'.ys i = m.ys i)
    (hohs : ∀ oh o, m.ohs oh = some o → oh ∈ leavesOf ot → ∃ o', m'.ohs oh = some o' ∧ o'.digest = o.digest) :
    Holds m' ot := by
  refine ⟨fun e => horigo.trans (h.empty e), fun t e => ?_, fun t e => ?_, h.nodup⟩
  · subst e
    rw [horigo]
    refine (h.rep t rfl).frame hys (fun oh ho hs => ?_)
    obtain ⟨o, hoo⟩ := Option.isSome_iff_exists.mp hs
    obtain ⟨o', ho', -⟩ := hohs oh o hoo ho
    rw [ho']
    rfl
  · subst e
    refine (h.wf t rfl).congr (fun oh ho j => ?_)
    obtain ⟨o, hoo⟩ := h.leaf_some ho
    obtain ⟨o', ho', hd⟩ := hohs oh o hoo ho
    rw [ohBit_of_some hoo, ohBit_of_some ho', hd]

lemma ohBit_congr {m m' : Hcb} (h : m'.ohs = m.ohs) : ohBit m' = ohBit m := by
  funext oh j
  simp [ohBit, h]

lemma hcbDelete_spec {m : Hcb} {ot : Option HTrie} (h : Holds m ot) {oh : Nat} (hmem : oh ∈ leavesOf ot) :
    ∃ m' ot' k, m.hcbDelete oh = some m' ∧ Holds m' ot' ∧ (leavesOf ot).Perm (oh :: leavesOf ot') ∧
      (namesOf ot).Perm (k ++ namesOf ot') ∧ Cooled m m' k ∧ m'.ohs = m.ohs ∧
      (∀ j ∈ k, m'.ys j = m.ys j) ∧ ∀ j ∉ namesOf ot, m'.ys j = m.ys j := by
  cases ot with
  | none => cases hmem
  | some t =>
    have hrep := h.rep t rfl
    obtain ⟨o, ho⟩ := h.leaf_some hmem
    by_cases hone : t = .leaf oh
    · subst hone
      refine ⟨{ m with origo := .null }, none, [], ?_, ?_, List.Perm.refl _, List.Perm.refl _,
        ⟨(List.append_nil _).symm, rfl, rfl, rfl⟩, rfl, fun _ _ => rfl, fun _ _ => rfl⟩
      · simp [Hcb.hcbDelete, hrep.1]
      · exact ⟨fun _ => rfl, nofun, nofun, List.nodup_nil⟩
    · have horigo : m.origo ≠ .node oh := by
        intro e
        rw [e] at hrep
        cases t with
        | leaf b => exact hone (by rw [Ptr.node.inj hrep.1])
        | node i c l r => exact Ptr.noConfusion hrep.1
      obtain ⟨m', t', k, hm', ht', hperm, ⟨v, hv, hvrep⟩, hw, hcool, hyk⟩ := unlink_spec ho (p := .origo) rfl hrep
        (h.wf t rfl) h.nodup (fun _ _ e => Loc.noConfusion e) hmem hone h.height_lt
      have hv' : m'.origo = v := Option.some.inj hv
      have hperm' := Trie.prune_leaves (h.wf t rfl) hmem ht'
      refine ⟨m', some t', [k], ?_, ⟨?_, ?_, ?_, ?_⟩, hperm', hperm, hcool, hw.ohs, ?_, ?_⟩
      · simp [Hcb.hcbDelete, horigo, ho, hm']
      · exact nofun
      · intro u e
        cases e
        rwa [hv']
      · intro u e
        cases e
        rw [ohBit_congr hw.ohs]
        exact Trie.prune_wf (h.wf t rfl) hmem ht'
      · exact (List.nodup_cons.mp (hperm.nodup_iff.mp h.nodup)).2
      · intro j hj
        rw [List.mem_singleton.mp hj, hyk]
      · exact fun j hj => hw.ys j hj (fun _ e => Loc.noConfusion e)

/-- Following the digest of `oh` in a nonempty tree. -/
lemma walk_origo {m : Hcb} {t : HTrie} (h : Holds m (some t)) {oh : Nat} {o : ObjHead} (ho : m.ohs oh = some o) :
    m.walk o.digest pathFuel m.origo = some (.node (t.seek (ohBit m oh))) := by
  rw [walk_eq (h.rep t rfl) o.digest h.height_lt, ohBit_of_some ho]

lemma hcbInsert_found {m : Hcb} {ot : Option HTrie} (h : Holds m ot) {oh : Nat} {o : ObjHead}
    (ho : m.ohs oh = some o) {oh2 : Nat} {o2 : ObjHead} (hmem : oh2 ∈ leavesOf ot) (ho2 : m.ohs oh2 = some o2)
    (hd : o2.digest = o.digest) (np : Option Nat) (hasLock : Bool) :
    m.hcbInsert np oh hasLock = some (m, np, some oh2) := by
  cases ot with
  | none => cases hmem
  | some t =>
    have hseek : t.seek (ohBit m oh) = oh2 := by
      refine Trie.seek_eq_of_mem (h.wf t rfl) hmem (fun j => ?_)
      rw [ohBit_of_some ho, ohBit_of_some ho2, hd]
    have hw := walk_origo h ho
    rw [hseek] at hw
    simp [Hcb.hcbInsert, (h.rep t rfl).ne_null, ho, hw, Hcb.arrive, ho2, hd]

/-- The objhead at which the walk for an absent digest ends has another digest. -/
lemma seek_ne {m : Hcb} {t : HTrie} (h : Holds m (some t)) (oh : Nat) {o : ObjHead}
    (hno : ∀ b ∈ t.leaves, ∀ ob, m.ohs b = some ob → ob.digest ≠ o.digest) :
    ∃ o2, m.ohs (t.seek (ohBit m oh)) = some o2 ∧ o2.digest ≠ o.digest := by
  obtain ⟨o2, ho2⟩ := h.leaf_some (Trie.seek_mem (ohBit m oh) t)
  exact ⟨o2, ho2, hno _ (Trie.seek_mem _ _) o2 ho2⟩

lemma hcbInsert_absent {m : Hcb} {ot : Option HTrie} (h : Holds m ot) {oh : Nat} {o : ObjHead}
    (ho : m.ohs oh = some o) (hno : ∀ b ∈ leavesOf ot, ∀ ob, m.ohs b = some ob → ob.digest ≠ o.digest)
    (np : Option Nat) : m.hcbInsert np oh false = some (m, np, none) := by
  cases ot with
  | none => simp [Hcb.hcbInsert, h.empty rfl]
  | some t =>
    obtain ⟨o2, ho2, hd⟩ := seek_ne h oh hno
    simp [Hcb.hcbInsert, (h.rep t rfl).ne_null, ho, walk_origo h ho, Hcb.arrive, ho2, hd]

/-- The node that `hcb_insert` links in holds the fork of the new objhead with what was there. -/
lemma Rep.fork {m : Hcb} {i oh : Nat} {y : HcbY} {u : HTrie} {s : Bool} (hy : m.ys i = some y) (hok : HcbYOk y)
    (hs : y.leaf s = .node oh) (ho : (m.ohs oh).isSome) (hu : Rep m (y.leaf !s) u) :
    Rep m (.y i) (Trie.fork i y.critbit oh s u) := by
  cases s with
  | false => exact ⟨rfl, y, hy, rfl, hok, ⟨hs, ho⟩, hu⟩
  | true => exact ⟨rfl, y, hy, rfl, hok, hu, ⟨hs, ho⟩⟩

lemma graft_spec {m : Hcb} {t : HTrie} (h : Holds m (some t)) {oh i : Nat} {o o2 : ObjHead} {y0 : HcbY}
    (ho : m.ohs oh = some o) (ho2 : m.ohs (t.seek (ohBit m oh)) = some o2) (hd : o2.digest ≠ o.digest)
    (hy0 : m.ys i = some y0) (hi : i ∉ t.names) :
    ∃ m' t', m.graft i oh o o2 = some m' ∧ Holds m' (some t') ∧ t'.leaves.Perm (oh :: t.leaves) ∧
      t'.names.Perm (i :: t.names) ∧ Cooled m m' [] ∧ m'.ohs = m.ohs ∧
      ∀ j, j ≠ i → j ∉ t.names → m'.ys j = m.ys j := by
  obtain ⟨y2, hy2, hok, hdiff, hpre⟩ := hcbCritBit_spec (Ne.symm hd) y0
  rw [← ohBit_of_some ho, ← ohBit_of_some ho2] at hdiff hpre
  obtain ⟨q, v, u, hq, hv, hvrep, hqn, hun, hfin⟩ := place_spec ho (i := i) (p := .origo) rfl (h.rep t rfl)
    (h.wf t rfl) h.nodup (fun _ _ e => Loc.noConfusion e) hi hdiff h.height_lt
  set s2 := digestBit o.digest y2.critbit with hs2
  set y3 : HcbY := { y2 with leaf := Function.update (Function.update y2.leaf s2 (.node oh)) (!s2) v } with hy3
  have hload1 : (m.setY i y3).load q = some v := by
    cases q with
    | origo => exact hv
    | leaf j s =>
      have hji : j ≠ i := (hqn j s rfl).2
      simpa [Hcb.load, Hcb.setY, Function.update_of_ne hji] using hv
  obtain ⟨m', hm'⟩ := load_store hload1 (.y i)
  have hw1 := store_within hm'
  have hqi : ∀ s, q ≠ .leaf i s := fun s e => (hqn i s e).2 rfl
  have hyi : m'.ys i = some y3 := by
    rw [hw1.ys i List.not_mem_nil hqi]
    simp [Hcb.setY]
  have hw : Within m m' q [i] := by
    refine ⟨hw1.ohs, hw1.origo, fun j hj hqj => ?_, fun j s e hj yj hyj => ?_⟩
    · have hji : j ≠ i := fun e => hj (List.mem_singleton.mpr e)
      rw [hw1.ys j List.not_mem_nil hqj]
      simp [Hcb.setY, Function.update_of_ne hji]
    · have hji : j ≠ i := fun e => hj (List.mem_singleton.mpr e)
      refine hw1.here j s e List.not_mem_nil yj ?_
      simpa [Hcb.setY, Function.update_of_ne hji] using hyj
  have hurep : Rep m' v u := by
    refine hvrep.frame (fun j hj => hw.ys j ?_ (fun s e => (hqn j s e).1 hj)) (fun _ _ hs => by rwa [hw.ohs])
    exact fun e => hi (List.mem_singleton.mp e ▸ hun j hj)
  have hfork : Rep m' (.y i) (Trie.fork i y2.critbit oh (ohBit m oh y2.critbit) u) := by
    have hbit : ohBit m oh y2.critbit = s2 := by rw [ohBit_of_some ho]
    rw [hbit]
    refine Rep.fork (y := y3) hyi hok ?_ (by rw [hw.ohs, ho]; rfl) ?_
    · have hne : s2 ≠ !s2 := by simp
      change Function.update (Function.update y2.leaf s2 (.node oh)) (!s2) v s2 = .node oh
      rw [Function.update_of_ne hne, Function.update_self]
    · simpa [hy3] using hurep
  obtain ⟨⟨w, hw0, hwrep⟩, hwt⟩ := hfin m' hw ⟨.y i, store_load hm', hfork⟩
  have hw0' : m'.origo = w := Option.some.inj hw0
  have hcool := store_cooled hm'
  have hperm : (t.graft (ohBit m) i y2.critbit oh).names.Perm (i :: t.names) := Trie.graft_names i y2.critbit oh t
  refine ⟨m', t.graft (ohBit m) i y2.critbit oh, ?_, ⟨nofun, ?_, ?_, ?_⟩, Trie.graft_leaves i y2.critbit oh t,
    hperm, ⟨hcool.coolY, hcool.deadY, hcool.coolH, hcool.deadH⟩, hw.ohs, ?_⟩
  · have hs : y2.side o.digest = some s2 := side_eq hok o.digest
    simp [Hcb.graft, hy0, hy2, hs, (h.rep t rfl).ne_null, hq, hv, ← hy3, hm']
  · intro t' e
    cases e
    rwa [hw0']
  · intro t' e
    cases e
    rw [ohBit_congr hw.ohs]
    exact Trie.graft_wf (h.wf t rfl) i hpre hdiff
  · exact hperm.nodup_iff.mpr (List.nodup_cons.mpr ⟨hi, h.nodup⟩)
  · intro j hji hj
    refine hwt.ys j (fun hj' => ?_) (fun _ e => Loc.noConfusion e)
    rcases List.mem_cons.mp hj' with e | e
    · exact hji e
    · exact hj e

/-- A locked `hcb_insert` of an absent digest adds the new objhead. The node from `wrk->nhashpriv`
is used unless the tree was empty. -/
lemma hcbInsert_new {m : Hcb} {ot : Option HTrie} (h : Holds m ot) {oh i : Nat} {o : ObjHead} {y0 : HcbY}
    (ho : m.ohs oh = some o) (hno : ∀ b ∈ leavesOf ot, ∀ ob, m.ohs b = some ob → ob.digest ≠ o.digest)
    (hy0 : m.ys i = some y0) (hi : i ∉ namesOf ot) :
    ∃ m' ot' k np, m.hcbInsert (some i) oh true = some (m', np, some oh) ∧ Holds m' ot' ∧
      (leavesOf ot').Perm (oh :: leavesOf ot) ∧ (namesOf ot').Perm (k ++ namesOf ot) ∧
      (k = [] ∧ np = some i ∨ k = [i] ∧ np = none) ∧ Cooled m m' [] ∧ m'.ohs = m.ohs ∧
      ∀ j, j ∉ k → j ∉ namesOf ot → m'.ys j = m.ys j := by
  cases ot with
  | none =>
    refine ⟨{ m with origo := .node oh }, some (.leaf oh), [], some i, ?_, ⟨nofun, ?_, ?_, List.nodup_nil⟩,
      List.Perm.refl _, List.Perm.refl _, Or.inl ⟨rfl, rfl⟩,
      ⟨(List.append_nil _).symm, rfl, rfl, rfl⟩, rfl, fun _ _ _ => rfl⟩
    · simp [Hcb.hcbInsert, h.empty rfl]
    · intro t e
      cases e
      exact ⟨rfl, by simp [ho]⟩
    · intro t e
      cases e
      trivial
  | some t =>
    obtain ⟨o2, ho2, hd⟩ := seek_ne h oh hno
    obtain ⟨m', t', hm', hh, hl, hn, hcool, hohs, hys⟩ := graft_spec h ho ho2 hd hy0 hi
    refine ⟨m', some t', [i], none, ?_, hh, hl, hn, Or.inr ⟨rfl, rfl⟩, hcool, hohs, fun j hj hjt => ?_⟩
    · simp [Hcb.hcbInsert, (h.rep t rfl).ne_null, ho, walk_origo h ho, Hcb.arrive, ho2, hd, hm']
    · exact hys j (fun e => hj (List.mem_singleton.mpr e)) hjt

end VarnishCache.Proofs
