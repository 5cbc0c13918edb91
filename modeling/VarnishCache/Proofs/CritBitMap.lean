import VarnishCache.CritBitMap
import VarnishCache.Proofs.CritBit

/-!
# The critical-bit hash refines a finite map
-/

namespace VarnishCache.Proofs

open VarnishCache CritBit

lemma leads_iff {m : Hcb} {p : Ptr} {t : HTrie} (h : Rep m p t) (oh : Nat) : m.Leads p oh ↔ oh ∈ t.leaves := by
  induction t generalizing p with
  | leaf b =>
    obtain ⟨rfl, -⟩ := h
    constructor
    · intro hl
      cases hl
      exact List.mem_singleton.mpr rfl
    · intro hm
      rw [List.mem_singleton.mp hm]
      exact .node b
  | node i c l r ihl ihr =>
    obtain ⟨rfl, y, hy, rfl, hok, hl, hr⟩ := h
    constructor
    · intro hlead
      cases hlead with
      | y hy' hsub =>
        rename_i y' s
        rw [hy] at hy'
        cases hy'
        cases s with
        | false => exact List.mem_append_left _ ((ihl hl).mp hsub)
        | true => exact List.mem_append_right _ ((ihr hr).mp hsub)
    · intro hm
      rcases List.mem_append.mp hm with h1 | h1
      · exact .y hy ((ihl hl).mpr h1)
      · exact .y hy ((ihr hr).mpr h1)

lemma leads_origo {m : Hcb} {ot : Option HTrie} (h : Holds m ot) (oh : Nat) :
    m.Leads m.origo oh ↔ oh ∈ leavesOf ot := by
  cases ot with
  | none =>
    rw [h.empty rfl]
    constructor
    · nofun
    · nofun
  | some t => exact leads_iff (h.rep t rfl) oh

lemma bitOf_eq {m : Hcb} {oh j : Nat} (ho : (m.ohs oh).isSome) (hj : j < digestLen * 8) :
    m.bitOf oh j = some (ohBit m oh j) := by
  obtain ⟨o, ho⟩ := Option.isSome_iff_exists.mp ho
  have hj8 : j / 8 < digestLen := Nat.div_lt_of_lt_mul (by rw [Nat.mul_comm]; exact hj)
  rw [ohBit_of_some ho]
  simp [Hcb.bitOf, Hcb.digestOf, ho, hj8, digestBit, byteBit]

/-- The invariant of one node, read off the abstract tree below it. -/
lemma prefix_of_rep {m : Hcb} {p : Ptr} {t : HTrie} (h : Rep m p t) (hwf : t.WF (ohBit m)) {i : Nat}
    (hi : m.Inner p i) : ∃ y, m.ys i = some y ∧ y.critbit < digestLen * 8 ∧
    (∀ s j y', y.leaf s = .y j → m.ys j = some y' → y.critbit < y'.critbit) ∧
    (∀ s oh, m.Leads (y.leaf s) oh → m.bitOf oh y.critbit = some s) ∧
    ∀ oh oh', m.Leads (.y i) oh → m.Leads (.y i) oh' → ∀ j < y.critbit, m.bitOf oh j = m.bitOf oh' j := by
  induction t generalizing p with
  | leaf b =>
    obtain ⟨rfl, -⟩ := h
    cases hi
  | node k c l r ihl ihr =>
    have hrep := h
    obtain ⟨rfl, y, hy, rfl, hok, hl, hr⟩ := h
    cases hi with
    | here =>
      have hsome : ∀ oh, m.Leads (.y i) oh → (m.ohs oh).isSome :=
        fun oh ho => hrep.leaf_some ((leads_iff hrep oh).mp ho)
      obtain ⟨-, -, hbl, hbr, h0, h1, hag⟩ := hwf
      refine ⟨y, hy, hok.1, ?_, ?_, ?_⟩
      · intro s j y' hs hy'
        have key : ∀ u : HTrie, Rep m (y.leaf s) u → u.Beyond y.critbit → y.critbit < y'.critbit := by
          intro u hu hb
          rw [hs] at hu
          cases u with
          | leaf b => exact absurd hu.1 Ptr.noConfusion
          | node j' c' l' r' =>
            obtain ⟨e, y'', hy'', hc, -⟩ := hu
            rw [← Ptr.y.inj e, hy'] at hy''
            cases hy''
            rw [hc]
            exact hb
        cases s with
        | false => exact key l hl hbl
        | true => exact key r hr hbr
      · intro s oh hlead
        rw [bitOf_eq (hsome oh (.y hy hlead)) hok.1]
        cases s with
        | false => rw [h0 oh ((leads_iff hl oh).mp hlead)]
        | true => rw [h1 oh ((leads_iff hr oh).mp hlead)]
      · intro oh oh' ho ho' j hj
        rw [bitOf_eq (hsome oh ho) (hj.trans hok.1), bitOf_eq (hsome oh' ho') (hj.trans hok.1)]
        rw [hag oh ((leads_iff hrep oh).mp ho) oh' ((leads_iff hrep oh').mp ho') j hj]
    | next hy' hsub =>
      rename_i y' s
      rw [hy] at hy'
      cases hy'
      cases s with
      | false => exact ihl hl hwf.1 hsub
      | true => exact ihr hr hwf.2.1 hsub

lemma Holds.pathPrefix {m : Hcb} {ot : Option HTrie} (h : Holds m ot) : m.PathPrefix := by
  intro i hi
  cases ot with
  | none =>
    rw [h.empty rfl] at hi
    cases hi
  | some t => exact prefix_of_rep (h.rep t rfl) (h.wf t rfl) hi

/-- The tree, the prepared nodes and the cool-off lists keep apart. -/
structure WorkersInv (s : HcbWorkers) (ot : Option HTrie) : Prop where
  holds : Holds s.hcb ot
  priv : ∀ w i, s.nhashpriv w = some i → (∃ y, s.hcb.ys i = some y) ∧ i ∉ namesOf ot ∧ i ∉ s.hcb.coolY ∧
    i ∉ s.hcb.deadY
  own : ∀ w w' i, s.nhashpriv w = some i → s.nhashpriv w' = some i → w = w'
  nodes : ∀ i ∈ s.hcb.coolY ++ s.hcb.deadY, i ∉ namesOf ot ∧ ∃ y, s.hcb.ys i = some y
  nodesOnce : (s.hcb.coolY ++ s.hcb.deadY).Nodup
  gone : ∀ oh ∈ s.hcb.coolH ++ s.hcb.deadH, oh ∉ leavesOf ot ∧ ∃ o, s.hcb.ohs oh = some o
  goneOnce : (s.hcb.coolH ++ s.hcb.deadH).Nodup

lemma refines_of_leaves {m : Hcb} {ot : Option HTrie} {f : HcbMap} (h : Holds m ot)
    (hheads : ∀ oh d, m.digestOf oh = some d → f.heads oh = some d)
    (hmap : ∀ d oh, f.map d = some oh ↔ oh ∈ leavesOf ot ∧ m.digestOf oh = some d) : m.Refines f := by
  refine ⟨hheads, fun d oh => by rw [leads_origo h, hmap], ?_⟩
  refine (List.finite_toSet ((leavesOf ot).filterMap m.digestOf)).subset (fun d hd => ?_)
  obtain ⟨oh, hoh⟩ := Option.isSome_iff_exists.mp hd
  exact List.mem_filterMap.mpr ⟨oh, (hmap d oh).mp hoh⟩

lemma map_iff_leaves {m : Hcb} {ot : Option HTrie} {f : HcbMap} (h : Holds m ot) (hf : m.Refines f) (d : Digest)
    (oh : Nat) : f.map d = some oh ↔ oh ∈ leavesOf ot ∧ m.digestOf oh = some d := by
  rw [hf.map, leads_origo h]

lemma digestOf_some {m : Hcb} {oh : Nat} {d : Digest} (h : m.digestOf oh = some d) :
    ∃ o, m.ohs oh = some o ∧ o.digest = d := Option.map_eq_some_iff.mp h

/-- One call: the tree and the map answer alike and stay in step. -/
def Simulates (s : HcbWorkers) (f : HcbMap) (op : HcbOp) : Prop :=
  ∃ s' r ot', s.exec op = some (s', r) ∧ (f.exec op).2 = r ∧ WorkersInv s' ot' ∧ s'.hcb.Refines (f.exec op).1

variable {s : HcbWorkers} {ot : Option HTrie} {f : HcbMap}

lemma simulates_prep (h : WorkersInv s ot) (hf : s.hcb.Refines f) {w i : Nat} (hi : s.hcb.ys i = none) :
    Simulates s f (.prep w i) := by
  cases hw : s.nhashpriv w with
  | some j =>
    refine ⟨s, none, ot, ?_, rfl, h, hf⟩
    simp [HcbWorkers.exec, HcbWorkers.hcbPrep, hw]
  | none =>
    have hin : i ∉ namesOf ot := by
      intro hmem
      obtain ⟨y, hy⟩ := h.holds.name_some hmem
      rw [hi] at hy
      cases hy
    have hcool : ∀ j ∈ s.hcb.coolY ++ s.hcb.deadY, j ≠ i := by
      rintro j hj rfl
      obtain ⟨-, y, hy⟩ := h.nodes j hj
      rw [hi] at hy
      cases hy
    have hys : ∀ j, j ≠ i → (s.hcb.allocY i).ys j = s.hcb.ys j := fun j hj => Function.update_of_ne hj _ _
    have hpriv : ∀ w' j, s.nhashpriv w' = some j → j ≠ i := by
      rintro w' j hj rfl
      obtain ⟨⟨y, hy⟩, -⟩ := h.priv w' j hj
      rw [hi] at hy
      cases hy
    have hholds : Holds (s.hcb.allocY i) ot :=
      h.holds.frame rfl (fun j hj => hys j (fun e => hin (e ▸ hj))) (fun oh o ho _ => ⟨o, ho, rfl⟩)
    refine ⟨{ hcb := s.hcb.allocY i, nhashpriv := Function.update s.nhashpriv w (some i) }, none, ot,
      by simp [HcbWorkers.exec, HcbWorkers.hcbPrep, hw], rfl,
      ⟨hholds, ?_, ?_, ?_, h.nodesOnce, h.gone, h.goneOnce⟩, ?_⟩
    · intro w' j hj
      by_cases hww : w' = w
      · subst hww
        have hji : i = j := by simpa using hj
        subst hji
        exact ⟨⟨_, Function.update_self _ _ _⟩, hin, fun hc => hcool _ (List.mem_append_left _ hc) rfl,
          fun hc => hcool _ (List.mem_append_right _ hc) rfl⟩
      · have hj' : s.nhashpriv w' = some j := by simpa [Function.update_of_ne hww] using hj
        obtain ⟨hy, hrest⟩ := h.priv w' j hj'
        exact ⟨by rwa [hys j (hpriv w' j hj')], hrest⟩
    · intro w1 w2 j h1 h2
      by_cases e1 : w1 = w <;> by_cases e2 : w2 = w
      · rw [e1, e2]
      · subst e1
        have hji : i = j := by simpa using h1
        exact absurd hji.symm (hpriv w2 j (by simpa [Function.update_of_ne e2] using h2))
      · subst e2
        have hji : i = j := by simpa using h2
        exact absurd hji.symm (hpriv w1 j (by simpa [Function.update_of_ne e1] using h1))
      · exact h.own w1 w2 j (by simpa [Function.update_of_ne e1] using h1)
          (by simpa [Function.update_of_ne e2] using h2)
    · intro j hj
      obtain ⟨hn, hy⟩ := h.nodes j hj
      exact ⟨hn, by rwa [hys j (hcool j hj)]⟩
    · have hmap := map_iff_leaves h.holds hf
      exact refines_of_leaves hholds hf.heads hmap

lemma simulates_newHead (h : WorkersInv s ot) (hf : s.hcb.Refines f) {oh : Nat} {d : Digest}
    (ho : s.hcb.ohs oh = none) : Simulates s f (.newHead oh d) := by
  have hleaf : ∀ b ∈ leavesOf ot, b ≠ oh := by
    rintro b hb rfl
    obtain ⟨o, hoo⟩ := h.holds.leaf_some hb
    rw [ho] at hoo
    cases hoo
  have hohs : ∀ b, b ≠ oh → (s.hcb.setOh oh { digest := d, refcnt := 1 }).ohs b = s.hcb.ohs b :=
    fun b hb => Function.update_of_ne hb _ _
  have hholds : Holds (s.hcb.setOh oh { digest := d, refcnt := 1 }) ot :=
    h.holds.frame rfl (fun _ _ => rfl) (fun b o hb hbm => ⟨o, by rw [hohs b (hleaf b hbm), hb], rfl⟩)
  refine ⟨_, none, ot, rfl, rfl, ⟨hholds, h.priv, h.own, h.nodes, h.nodesOnce, ?_, h.goneOnce⟩,
    refines_of_leaves hholds ?_ ?_⟩
  · intro b hb
    obtain ⟨hn, o, hoo⟩ := h.gone b hb
    have hne : b ≠ oh := by
      rintro rfl
      rw [ho] at hoo
      cases hoo
    exact ⟨hn, o, by rw [hohs b hne, hoo]⟩
  · intro b e hb
    by_cases hbo : b = oh
    · subst hbo
      have : d = e := by simpa [Hcb.digestOf, Hcb.setOh] using hb
      simp [HcbMap.exec, this]
    · have hb' : s.hcb.digestOf b = some e := by simpa [Hcb.digestOf, hohs b hbo] using hb
      simpa [HcbMap.exec, Function.update_of_ne hbo] using hf.heads b e hb'
  · intro e b
    rw [show ((f.exec (.newHead oh d)).1).map = f.map from rfl, map_iff_leaves h.holds hf]
    refine and_congr_right (fun hb => ?_)
    rw [Hcb.digestOf, Hcb.digestOf, hohs b (hleaf b hb)]

lemma simulates_clean (h : WorkersInv s ot) (hf : s.hcb.Refines f) : Simulates s f .clean := by
  have hys : ∀ i, i ∉ s.hcb.deadY → s.hcb.hcbCleaner.ys i = s.hcb.ys i := fun i hi => by
    simp [Hcb.hcbCleaner, hi]
  have hohs : ∀ oh, oh ∉ s.hcb.deadH → s.hcb.hcbCleaner.ohs oh = s.hcb.ohs oh := fun oh ho => by
    simp [Hcb.hcbCleaner, ho]
  have hleaf : ∀ b ∈ leavesOf ot, b ∉ s.hcb.deadH :=
    fun b hb hd => (h.gone b (List.mem_append_right _ hd)).1 hb
  have hholds : Holds s.hcb.hcbCleaner ot := by
    refine h.holds.frame rfl (fun j hj => hys j ?_) (fun b o hb hbm => ⟨o, by rw [hohs b (hleaf b hbm), hb], rfl⟩)
    exact fun hd => (h.nodes j (List.mem_append_right _ hd)).1 hj
  have hnd := List.nodup_append.mp h.nodesOnce
  have hgd := List.nodup_append.mp h.goneOnce
  have hcoolY : ∀ j ∈ s.hcb.coolY, j ∉ s.hcb.deadY := fun j hj hd => hnd.2.2 j hj j hd rfl
  have hcoolH : ∀ b ∈ s.hcb.coolH, b ∉ s.hcb.deadH := fun b hb hd => hgd.2.2 b hb b hd rfl
  refine ⟨_, none, ot, rfl, rfl, ⟨hholds, ?_, h.own, ?_, hnd.1, ?_, hgd.1⟩, refines_of_leaves hholds ?_ ?_⟩
  · intro w i hi
    obtain ⟨hy, hn, hc, hd⟩ := h.priv w i hi
    exact ⟨by rwa [hys i hd], hn, List.not_mem_nil, hc⟩
  · intro j hj
    obtain ⟨hn, hy⟩ := h.nodes j (List.mem_append_left _ hj)
    exact ⟨hn, by rwa [hys j (hcoolY j hj)]⟩
  · intro b hb
    obtain ⟨hn, ho⟩ := h.gone b (List.mem_append_left _ hb)
    exact ⟨hn, by rwa [hohs b (hcoolH b hb)]⟩
  · intro b d hb
    refine hf.heads b d ?_
    by_cases hd : b ∈ s.hcb.deadH
    · simp [Hcb.digestOf, Hcb.hcbCleaner, hd] at hb
    · simpa [Hcb.digestOf, hohs b hd] using hb
  · intro d b
    rw [show (f.exec .clean).1.map = f.map from rfl, map_iff_leaves h.holds hf]
    refine and_congr_right (fun hb => ?_)
    rw [Hcb.digestOf, Hcb.digestOf, hohs b (hleaf b hb)]

lemma digestOf_congr {m m' : Hcb} (h : m'.ohs = m.ohs) : m'.digestOf = m.digestOf := by
  funext oh
  simp [Hcb.digestOf, h]

lemma simulates_delete (h : WorkersInv s ot) (hf : s.hcb.Refines f) {oh : Nat}
    (hl : s.hcb.Leads s.hcb.origo oh) : Simulates s f (.delete oh) := by
  have hmem := (leads_origo h.holds oh).mp hl
  obtain ⟨m', ot', k, hm', hholds, hleaves, hnames, hcool, hohs, hk, hys⟩ := hcbDelete_spec h.holds hmem
  obtain ⟨o, ho⟩ := h.holds.leaf_some hmem
  have hd : s.hcb.digestOf oh = some o.digest := by simp [Hcb.digestOf, ho]
  have hnodup := (hnames.nodup_iff.mp h.holds.nodup)
  have hlnodup := List.nodup_cons.mp (hleaves.nodup_iff.mp h.holds.leaves_nodup)
  have hsub : ∀ j ∈ namesOf ot', j ∈ namesOf ot := fun j hj => hnames.mem_iff.mpr (List.mem_append_right _ hj)
  have hksub : ∀ j ∈ k, j ∈ namesOf ot := fun j hj => hnames.mem_iff.mpr (List.mem_append_left _ hj)
  have hkn : ∀ j ∈ k, j ∉ namesOf ot' := fun j hj hj' => (List.nodup_append.mp hnodup).2.2 j hj j hj' rfl
  have hholds' : Holds { m' with coolH := m'.coolH ++ [oh] } ot' :=
    hholds.frame rfl (fun _ _ => rfl) (fun b o hb _ => ⟨o, hb, rfl⟩)
  have hcase : ∀ j ∈ (m'.coolY ++ m'.deadY), j ∈ k ∨ j ∈ s.hcb.coolY ++ s.hcb.deadY := by
    intro j hj
    rw [hcool.coolY, hcool.deadY] at hj
    rcases List.mem_append.mp hj with hj | hj
    · rcases List.mem_append.mp hj with hj | hj
      · exact Or.inr (List.mem_append_left _ hj)
      · exact Or.inl hj
    · exact Or.inr (List.mem_append_right _ hj)
  have hpriv : ∀ w i, s.nhashpriv w = some i → i ∉ k := fun w i hi hik => (h.priv w i hi).2.1 (hksub i hik)
  have hgone : ∀ b ∈ s.hcb.coolH ++ s.hcb.deadH, b ≠ oh := fun b hb e => (h.gone b hb).1 (e ▸ hmem)
  refine ⟨{ s with hcb := { m' with coolH := m'.coolH ++ [oh] } }, none, ot',
    by simp [HcbWorkers.exec, Hcb.derefDelete, hm'], by rfl,
    ⟨hholds', ?_, h.own, ?_, ?_, ?_, ?_⟩, refines_of_leaves hholds' ?_ ?_⟩
  · intro w i hi
    obtain ⟨hy, hn, hc, hdd⟩ := h.priv w i hi
    refine ⟨by rwa [show ({ m' with coolH := m'.coolH ++ [oh] } : Hcb).ys i = _ from hys i hn],
      fun hj => hn (hsub i hj), ?_, by rwa [hcool.deadY]⟩
    rw [hcool.coolY]
    exact fun hj => (List.mem_append.mp hj).elim hc (hpriv w i hi)
  · intro j hj
    rcases hcase j hj with hjk | hjc
    · obtain ⟨y, hy⟩ := h.holds.name_some (hksub j hjk)
      exact ⟨hkn j hjk, y, (hk j hjk).trans hy⟩
    · obtain ⟨hn, y, hy⟩ := h.nodes j hjc
      exact ⟨fun hj' => hn (hsub j hj'), y, (hys j hn).trans hy⟩
  · have hperm : (m'.coolY ++ m'.deadY).Perm (k ++ (s.hcb.coolY ++ s.hcb.deadY)) := by
      rw [hcool.coolY, hcool.deadY, ← List.append_assoc]
      exact List.perm_append_comm.append_right _
    refine hperm.nodup_iff.mpr (List.nodup_append.mpr ⟨(List.nodup_append.mp hnodup).1, h.nodesOnce, ?_⟩)
    rintro a ha b hb rfl
    exact (h.nodes a hb).1 (hksub a ha)
  · intro b hb
    change b ∈ m'.coolH ++ [oh] ++ m'.deadH at hb
    change b ∉ leavesOf ot' ∧ ∃ o, m'.ohs b = some o
    rw [hcool.coolH, hcool.deadH] at hb
    rw [hohs]
    by_cases hbo : b = oh
    · subst hbo
      exact ⟨hlnodup.1, o, ho⟩
    · have hb' : b ∈ s.hcb.coolH ++ s.hcb.deadH := by
        simpa [hbo] using hb
      obtain ⟨hn, hs⟩ := h.gone b hb'
      exact ⟨fun hl => hn (hleaves.mem_iff.mpr (List.mem_cons_of_mem _ hl)), hs⟩
  · change (m'.coolH ++ [oh] ++ m'.deadH).Nodup
    rw [hcool.coolH, hcool.deadH, List.append_assoc]
    refine List.perm_middle.nodup_iff.mpr (List.nodup_cons.mpr ⟨fun hb => hgone oh hb rfl, h.goneOnce⟩)
  · intro b d hb
    have hb' : s.hcb.digestOf b = some d := by
      rw [← digestOf_congr hohs]
      exact hb
    simpa [HcbMap.exec, hf.heads oh _ hd] using hf.heads b d hb'
  · intro d b
    rw [show ({ m' with coolH := m'.coolH ++ [oh] } : Hcb).digestOf b = s.hcb.digestOf b from
      congrFun (digestOf_congr hohs) b]
    simp only [HcbMap.exec, hf.heads oh _ hd, Option.map_some, Option.getD_some]
    by_cases hdd : d = o.digest
    · subst hdd
      rw [Function.update_self]
      refine ⟨fun e => absurd e (by simp), ?_⟩
      rintro ⟨hb, hbd⟩
      obtain ⟨ob, hob, hobd⟩ := digestOf_some hbd
      have hbm : b ∈ leavesOf ot := hleaves.mem_iff.mpr (List.mem_cons_of_mem _ hb)
      exact absurd (h.holds.leaf_unique hbm hmem hob ho hobd ▸ hb) hlnodup.1
    · rw [Function.update_of_ne hdd, map_iff_leaves h.holds hf, hleaves.mem_iff, List.mem_cons]
      constructor
      · rintro ⟨rfl | hb, hbd⟩
        · rw [hd] at hbd
          exact absurd (Option.some.inj hbd).symm hdd
        · exact ⟨hb, hbd⟩
      · rintro ⟨hb, hbd⟩
        exact ⟨Or.inr hb, hbd⟩

/-- The map has no entry for a digest that no stored objhead has. -/
lemma absent_of_map (h : Holds s.hcb ot) (hf : s.hcb.Refines f) {d : Digest} (hd : f.map d = none) :
    ∀ b ∈ leavesOf ot, ∀ ob, s.hcb.ohs b = some ob → ob.digest ≠ d := by
  intro b hb ob hob hdd
  have := (map_iff_leaves h hf d b).mpr ⟨hb, by simp [Hcb.digestOf, hob, hdd]⟩
  rw [hd] at this
  cases this

lemma insert_found (h : WorkersInv s ot) (hf : s.hcb.Refines f) {w oh oh2 : Nat} {o : ObjHead}
    (ho : s.hcb.ohs oh = some o) (hd : f.map o.digest = some oh2) (hasLock : Bool) :
    s.insert w oh hasLock = some (s, some oh2) := by
  obtain ⟨hmem, hd2⟩ := (map_iff_leaves h.holds hf _ _).mp hd
  obtain ⟨o2, ho2, hdd⟩ := digestOf_some hd2
  simp [HcbWorkers.insert, hcbInsert_found h.holds ho hmem ho2 hdd]

lemma simulates_lookup (h : WorkersInv s ot) (hf : s.hcb.Refines f) {w oh : Nat} (ho : (s.hcb.ohs oh).isSome) :
    Simulates s f (.lookup w oh) := by
  obtain ⟨o, ho⟩ := Option.isSome_iff_exists.mp ho
  have hhead : f.heads oh = some o.digest := hf.heads oh o.digest (by simp [Hcb.digestOf, ho])
  refine ⟨s, f.map o.digest, ot, ?_, by simp [HcbMap.exec, hhead], h, hf⟩
  cases hd : f.map o.digest with
  | some oh2 => exact insert_found h hf ho hd false
  | none => simp [HcbWorkers.exec, HcbWorkers.insert, hcbInsert_absent h.holds ho (absent_of_map h.holds hf hd)]

lemma simulates_insert (h : WorkersInv s ot) (hf : s.hcb.Refines f) {w oh : Nat} (ho : (s.hcb.ohs oh).isSome)
    (hc : oh ∉ s.hcb.coolH) (hdd : oh ∉ s.hcb.deadH) (hw : (s.nhashpriv w).isSome) :
    Simulates s f (.insert w oh) := by
  obtain ⟨o, ho⟩ := Option.isSome_iff_exists.mp ho
  obtain ⟨i, hi⟩ := Option.isSome_iff_exists.mp hw
  have hhead : f.heads oh = some o.digest := hf.heads oh o.digest (by simp [Hcb.digestOf, ho])
  have hexec : f.exec (.insert w oh) = f.insert oh o.digest := by simp [HcbMap.exec, hhead]
  cases hd : f.map o.digest with
  | some oh2 =>
    have hins : f.insert oh o.digest = (f, some oh2) := by simp [HcbMap.insert, hd]
    refine ⟨s, some oh2, ot, insert_found h hf ho hd true, ?_, h, ?_⟩ <;> rw [hexec, hins]
    exact hf
  | none =>
    have hins : f.insert oh o.digest = ({ f with map := Function.update f.map o.digest (some oh) }, some oh) := by
      simp [HcbMap.insert, hd]
    obtain ⟨⟨y0, hy0⟩, hin, hic, hid⟩ := h.priv w i hi
    obtain ⟨m', ot', k, np, hm', hholds, hleaves, hnames, hk, hcool, hohs, hys⟩ :=
      hcbInsert_new h.holds ho (absent_of_map h.holds hf hd) hy0 hin
    have hkp : ∀ w' j, Function.update s.nhashpriv w np w' = some j → s.nhashpriv w' = some j ∧ j ∉ k := by
      intro w' j hj
      by_cases hww : w' = w
      · subst hww
        rw [Function.update_self] at hj
        rcases hk with ⟨rfl, hnp⟩ | ⟨rfl, hnp⟩
        · rw [hnp] at hj
          exact ⟨hi.trans hj, List.not_mem_nil⟩
        · rw [hnp] at hj
          cases hj
      · rw [Function.update_of_ne hww] at hj
        refine ⟨hj, fun hjk => ?_⟩
        rcases hk with ⟨rfl, -⟩ | ⟨rfl, -⟩
        · exact List.not_mem_nil hjk
        · exact hww (h.own w' w j hj (List.mem_singleton.mp hjk ▸ hi))
    have hki : ∀ j ∈ k, j = i := by
      intro j hj
      rcases hk with ⟨rfl, -⟩ | ⟨rfl, -⟩
      · cases hj
      · exact List.mem_singleton.mp hj
    have hnew : ∀ j, j ∉ k → j ∉ namesOf ot → j ∉ namesOf ot' := fun j hjk hj hj' =>
      (List.mem_append.mp (hnames.mem_iff.mp hj')).elim hjk hj
    have hgone : ∀ b ∈ s.hcb.coolH ++ s.hcb.deadH, b ≠ oh := by
      rintro b hb rfl
      exact (List.mem_append.mp hb).elim hc hdd
    refine ⟨{ hcb := m', nhashpriv := Function.update s.nhashpriv w np }, some oh, ot', ?_, by rw [hexec, hins],
      ⟨hholds, ?_, ?_, ?_, ?_, ?_, ?_⟩, refines_of_leaves hholds ?_ ?_⟩
    · simp [HcbWorkers.exec, HcbWorkers.insert, hi, hm']
    · intro w' j hj
      obtain ⟨hj', hjk⟩ := hkp w' j hj
      obtain ⟨hy, hn, hjc, hjd⟩ := h.priv w' j hj'
      refine ⟨by rwa [hys j hjk hn], hnew j hjk hn, ?_, by rwa [hcool.deadY]⟩
      rwa [hcool.coolY, List.append_nil]
    · exact fun w1 w2 j h1 h2 => h.own w1 w2 j (hkp w1 j h1).1 (hkp w2 j h2).1
    · intro j hj
      rw [hcool.coolY, hcool.deadY, List.append_nil] at hj
      obtain ⟨hn, hy⟩ := h.nodes j hj
      have hjk : j ∉ k := by
        intro hjk
        rw [hki j hjk] at hj
        exact (List.mem_append.mp hj).elim hic hid
      exact ⟨hnew j hjk hn, by rwa [hys j hjk hn]⟩
    · rw [hcool.coolY, hcool.deadY, List.append_nil]
      exact h.nodesOnce
    · intro b hb
      rw [hcool.coolH, hcool.deadH] at hb
      obtain ⟨hn, hs⟩ := h.gone b hb
      refine ⟨fun hl => ?_, by rwa [hohs]⟩
      exact (List.mem_cons.mp (hleaves.mem_iff.mp hl)).elim (hgone b hb) hn
    · rw [hcool.coolH, hcool.deadH]
      exact h.goneOnce
    · intro b d hb
      rw [digestOf_congr hohs] at hb
      rw [hexec, hins]
      exact hf.heads b d hb
    · intro d b
      rw [hexec, hins, digestOf_congr hohs, hleaves.mem_iff, List.mem_cons]
      change Function.update f.map o.digest (some oh) d = some b ↔ _
      by_cases hde : d = o.digest
      · subst hde
        rw [Function.update_self]
        constructor
        · intro e
          cases e
          exact ⟨Or.inl rfl, by simp [Hcb.digestOf, ho]⟩
        · rintro ⟨rfl | hb, hbd⟩
          · rfl
          · obtain ⟨ob, hob, hobd⟩ := digestOf_some hbd
            exact absurd hobd (absent_of_map h.holds hf hd b hb ob hob)
      · rw [Function.update_of_ne hde, map_iff_leaves h.holds hf]
        refine and_congr_left (fun hbd => ⟨Or.inr, ?_⟩)
        rintro (rfl | hb)
        · obtain ⟨ob, hob, hobd⟩ := digestOf_some hbd
          rw [ho] at hob
          cases hob
          exact absurd hobd.symm hde
        · exact hb

lemma simulates (h : WorkersInv s ot) (hf : s.hcb.Refines f) {op : HcbOp} (ha : s.Admits op) :
    Simulates s f op := by
  cases op with
  | prep w i => exact simulates_prep h hf ha
  | newHead oh d => exact simulates_newHead h hf ha
  | insert w oh => exact simulates_insert h hf ha.1 ha.2.1 ha.2.2.1 ha.2.2.2
  | lookup w oh => exact simulates_lookup h hf ha
  | delete oh => exact simulates_delete h hf ha
  | clean => exact simulates_clean h hf

lemma workersInv_start : WorkersInv .start none := by
  refine ⟨⟨fun _ => rfl, nofun, nofun, List.nodup_nil⟩, nofun, nofun, ?_, List.nodup_nil, ?_, List.nodup_nil⟩
  · exact fun i hi => absurd hi List.not_mem_nil
  · exact fun i hi => absurd hi List.not_mem_nil

lemma run_simulates {tr : List (HcbOp × Option Nat)} (h : HcbRun tr s) :
    ∃ f ot, HcbMap.Run tr f ∧ WorkersInv s ot ∧ s.hcb.Refines f := by
  induction h with
  | nil =>
    refine ⟨.empty, none, .nil, workersInv_start, refines_of_leaves workersInv_start.holds nofun ?_⟩
    exact fun d oh => ⟨nofun, nofun⟩
  | snoc _ ha hexec ih =>
    obtain ⟨f, ot, hrun, hinv, hf⟩ := ih
    obtain ⟨s', r, ot', hexec', hr, hinv', hf'⟩ := simulates hinv hf ha
    rw [hexec] at hexec'
    cases hexec'
    exact ⟨_, ot', .snoc hrun (Prod.ext rfl hr), hinv', hf'⟩

/-- Every sequence of calls on the critical-bit tree is a sequence of calls with the same results on a
finite map from digests to objheads; the path-prefix invariant holds after each of them, and no
assertion fails in a further one. -/
theorem hcb_refines_map {tr : List (HcbOp × Option Nat)} (h : HcbRun tr s) :
    (∃ f, HcbMap.Run tr f ∧ s.hcb.Refines f) ∧ s.hcb.PathPrefix ∧
      ∀ op, s.Admits op → ∃ s' r, s.exec op = some (s', r) := by
  obtain ⟨f, ot, hrun, hinv, hf⟩ := run_simulates h
  refine ⟨⟨f, hrun, hf⟩, hinv.holds.pathPrefix, fun op ha => ?_⟩
  obtain ⟨s', r, -, hexec, -⟩ := simulates hinv hf ha
  exact ⟨s', r, hexec⟩

/-- Two objheads are inserted, the first one is found, deleted and no longer found. -/
def twoHeads : List (HcbOp × Option Nat) :=
  [(.prep 0 0, none), (.newHead 10 (fun _ => 0), none), (.insert 0 10, some 10), (.newHead 11 (fun _ => 1), none),
    (.insert 0 11, some 11), (.lookup 0 10, some 10), (.delete 10, none), (.lookup 0 10, none)]

theorem hcb_refines_map_two_heads :
    ∃ s, HcbRun twoHeads s ∧ (∃ f, HcbMap.Run twoHeads f ∧ s.hcb.Refines f) ∧ s.hcb.PathPrefix ∧
      ∀ op, s.Admits op → ∃ s' r, s.exec op = some (s', r) := by
  have h0 : HcbRun [] .start := .nil
  have h1 := h0.snoc (show HcbWorkers.Admits _ (.prep 0 0) from rfl) rfl
  have h2 := h1.snoc (show HcbWorkers.Admits _ (.newHead 10 (fun _ => 0)) from rfl) rfl
  have h3 := h2.snoc (show HcbWorkers.Admits _ (.insert 0 10) from ⟨rfl, nofun, nofun, rfl⟩) rfl
  have h4 := h3.snoc (show HcbWorkers.Admits _ (.newHead 11 (fun _ => 1)) from rfl) rfl
  have h5 := h4.snoc (show HcbWorkers.Admits _ (.insert 0 11) from ⟨rfl, nofun, nofun, rfl⟩) rfl
  have h6 := h5.snoc (show HcbWorkers.Admits _ (.lookup 0 10) from rfl) rfl
  have h7 := h6.snoc (show HcbWorkers.Admits _ (.delete 10) from (.y (s := false) rfl (.node 10))) rfl
  have h8 := h7.snoc (show HcbWorkers.Admits _ (.lookup 0 10) from rfl) rfl
  exact ⟨_, h8, hcb_refines_map h8⟩

end VarnishCache.Proofs
