import VarnishCache.Proofs.BanSteps

/-!
# Inserting bans and hunting down duplicates
-/

namespace VarnishCache.Proofs

open VarnishCache BanState

variable {re : String → String → Bool} {st st' : BanState}

/-- The list with a new ban at the front. -/
def inserted (st : BanState) (spec : List BanTest) : BanState :=
  { st with
    first := st.first + 1
    ban := Function.update st.ban (st.first + 1)
      { gone := false, lurk := 0, refcount := 0, objcore := [], spec := spec } }

/-- One more call of `BAN_Insert` that refers to the last ban. -/
def hunting (st : BanState) (b : Nat) : BanState :=
  { st.setBan st.last (fun be => { be with refcount := be.refcount + 1 }) with hunts := st.hunts ++ [(b, st.last)] }

lemma banInsert_eq (st : BanState) (spec : List BanTest) (dups : Bool) :
    st.banInsert spec dups = if dups then hunting (inserted st spec) (st.first + 1) else inserted st spec := by
  cases dups <;> rfl

lemma inserted_ban {spec : List BanTest} {B : Nat} (hB : B ≠ st.first + 1) : (inserted st spec).ban B = st.ban B :=
  Function.update_of_ne hB _ _

lemma inserted_inv (hi : BanInv re st) (spec : List BanTest) : BanInv re (inserted st spec) := by
  have hwf := hi.wf
  have horder := hwf.order
  have hself : (inserted st spec).ban (st.first + 1) =
      { gone := false, lurk := 0, refcount := 0, objcore := [], spec := spec } := Function.update_self _ _ _
  have hobj : ∀ a, ((inserted st spec).ban a).objcore = (st.ban a).objcore := by
    intro a
    by_cases ha : a = st.first + 1
    · subst ha
      rw [hself, hwf.empty (Nat.lt_succ_self _)]
    · rw [inserted_ban ha]
  have hzero : st.hunts.countP (fun p => p.2 = st.first + 1) = 0 := by
    refine List.countP_eq_zero.mpr (fun p hp => ?_)
    have := (hwf.hunts p hp).1
    simp only [decide_eq_true_eq]
    omega
  suffices hstep : SessStep none st (inserted st spec) by
    refine hstep.inv hi (fun B hB => ?_) (fun _ _ => rfl) (fun _ _ ht => by cases ht)
    rw [inserted_ban (by omega)]
  refine ⟨⟨hwf.last, ?_, ?_, ?_, ?_, ?_, ?_, hwf.newborn⟩, ⟨?_, rfl, ?_, ?_, ?_⟩, ?_, ?_, ?_, rfl, rfl, ?_, by simp⟩
  · exact horder.trans (Nat.le_succ _)
  · intro x a
    rw [hobj]
    exact hwf.attached x a
  · intro a
    rw [hobj]
    exact hwf.nodup a
  · intro x o a h
    exact ⟨(hwf.inList x o a h).1, (hwf.inList x o a h).2.trans (Nat.le_succ _)⟩
  · intro a
    rw [hobj]
    by_cases ha : a = st.first + 1
    · subst ha
      rw [hself, hwf.empty (Nat.lt_succ_self _)]
      change 0 = 0 + st.hunts.countP _
      rw [hzero]
    · rw [inserted_ban ha]
      exact hwf.refs a
  · intro p hp
    obtain ⟨h1, h2, h3⟩ := hwf.hunts p hp
    exact ⟨h1, h2, h3.trans (Nat.le_succ _)⟩
  · exact Nat.le_succ _
  · intro B hB
    rw [inserted_ban (by omega)]
  · intro B hB hg
    rw [inserted_ban (by omega)]
    exact hg
  · intro B h1 h2
    have e : B = st.first + 1 := by
      have h2' : B ≤ st.first + 1 := h2
      omega
    rw [e, hself]
  · intro B hB
    by_cases hne : B = st.first + 1
    · rw [hne, hself]
      exact Or.inl rfl
    · have hB' : B ≤ st.first + 1 := hB
      rw [inserted_ban hne]
      exact Or.inr ⟨by omega, rfl⟩
  · intro x o a h
    exact Or.inl ⟨o, h, rfl, fun hb => ⟨hb, rfl⟩⟩
  · intro a
    rw [hobj]
    exact Or.inl (List.Sublist.refl _)
  · exact ⟨fun _ _ hm _ => hm, fun _ _ _ ho _ _ _ _ => ho⟩

lemma hunting_ban (st : BanState) (b B : Nat) : (hunting st b).ban B =
    if B = st.last then { st.ban st.last with refcount := (st.ban st.last).refcount + 1 } else st.ban B :=
  setBan_apply st st.last (fun be => { be with refcount := be.refcount + 1 }) B

lemma hunting_inv (hi : BanInv re st) {b : Nat} (hlo : st.last < b) (hhi : b ≤ st.first) : BanInv re (hunting st b) := by
  have hwf := hi.wf
  have hsame : ∀ B, _ := fun B => setBan_same st st.last (f := fun be => { be with refcount := be.refcount + 1 })
    (fun y => ⟨rfl, rfl, rfl⟩) B
  have hobj : ∀ B, ((hunting st b).ban B).objcore = (st.ban B).objcore := by
    intro B
    rw [hunting_ban]
    by_cases hB : B = st.last
    · subst hB
      simp
    · simp [hB]
  suffices hstep : SessStep none st (hunting st b) from
    hstep.inv hi (fun B _ => (hsame B).2.1) (fun _ _ => rfl) (fun _ _ ht => by cases ht)
  refine ⟨⟨hwf.last, hwf.order, ?_, ?_, hwf.inList, ?_, ?_, hwf.newborn⟩, ?_, ?_, ?_, ?_, rfl, rfl, ?_, by simp⟩
  · intro x a
    rw [hobj]
    exact hwf.attached x a
  · intro a
    rw [hobj]
    exact hwf.nodup a
  · intro a
    rw [hobj, hunting_ban, show (hunting st b).hunts = st.hunts ++ [(b, st.last)] from rfl, List.countP_append]
    by_cases ha : a = st.last
    · subst ha
      have := hwf.refs st.last
      simp only [ite_true, List.countP_singleton, decide_true]
      omega
    · have := hwf.refs a
      simp only [ha, ite_false, List.countP_singleton, Ne.symm ha, decide_false, Bool.false_eq_true]
      exact this
  · intro p hp
    rcases List.mem_append.mp hp with hp | hp
    · exact hwf.hunts p hp
    · rw [List.mem_singleton.mp hp]
      exact ⟨rfl, hlo, hhi⟩
  · exact BanFrame.of_same rfl rfl (fun B => ⟨(hsame B).1, (hsame B).2.1⟩)
  · exact Untags.of_same rfl (fun B => Or.inr (hsame B).2.2)
  · intro x o a h
    exact Or.inl ⟨o, h, rfl, fun hb => ⟨hb, rfl⟩⟩
  · intro a
    rw [hobj]
    exact Or.inl (List.Sublist.refl _)
  · exact ⟨fun _ _ hm _ => hm, fun _ _ _ ho _ _ _ _ => ho⟩

lemma banInsert_inv (hi : BanInv re st) (spec : List BanTest) (dups : Bool) : BanInv re (st.banInsert spec dups) := by
  rw [banInsert_eq]
  have h1 := inserted_inv hi spec
  cases dups with
  | false => exact h1
  | true =>
    refine hunting_inv h1 ?_ le_rfl
    have := hi.wf.order
    change st.last < st.first + 1
    omega

/-- The bans after the duplicates of `p.1` are gone. -/
lemma banHunt_ban {p : Nat × Nat} (h : st.banHunt p = some st') (B : Nat) :
    (st'.ban B).spec = (st.ban B).spec ∧ (st'.ban B).lurk = (st.ban B).lurk ∧ (st'.ban B).objcore = (st.ban B).objcore ∧
      (st'.ban B).gone = ((st.ban B).gone || st.isDup p B) ∧
      (st'.ban B).refcount = (st.ban B).refcount - (if B = p.2 then 1 else 0) := by
  unfold banHunt at h
  split at h
  · cases h
  cases h
  rw [setBan_apply]
  by_cases hB : B = p.2
  · subst hB
    by_cases hd : st.isDup p p.2
    · simp [hd]
    · simp [hd]
  · by_cases hd : st.isDup p B
    · simp [hB, hd]
    · simp [hB, hd]

lemma banHunt_wf (hwf : BanWf st) {p : Nat × Nat} (h : st.banHunt p = some st') : BanWf st' := by
  have hban := banHunt_ban h
  unfold banHunt at h
  split at h
  · cases h
  rename_i hmem
  rw [not_not] at hmem
  cases h
  refine ⟨hwf.last, hwf.order, ?_, ?_, hwf.inList, ?_, fun q hq => hwf.hunts q (List.mem_of_mem_erase hq), hwf.newborn⟩
  · intro x a
    rw [(hban a).2.2.1]
    exact hwf.attached x a
  · intro a
    rw [(hban a).2.2.1]
    exact hwf.nodup a
  · intro a
    have hr := hwf.refs a
    have hc : st.hunts.countP (fun q => q.2 = a) =
        (st.hunts.erase p).countP (fun q => q.2 = a) + if p.2 = a then 1 else 0 := by
      rw [(List.perm_cons_erase hmem).countP_eq, List.countP_cons]
      simp
    rw [(hban a).2.2.1, (hban a).2.2.2.2]
    change _ = _ + (st.hunts.erase p).countP _
    by_cases ha : a = p.2
    · subst ha
      simp only [ite_true] at hc ⊢
      omega
    · simp only [ha, Ne.symm ha, ite_false] at hc ⊢
      omega

/-- Hunting down duplicates, under the condition that no lookup in progress that does not see the new ban has a
matching duplicate before it. -/
lemma banHunt_inv (hi : BanInv re st) {p : Nat × Nat} (h : st.banHunt p = some st')
    (hcond : ∀ s σ c o a i, st.sess s = some σ → σ.check = some c → st.ocs c.oc = some o → o.ban = some a →
      c.b0 < p.1 → a < i → i ≤ c.b → st.isDup p i = true → banEvaluate re (st.ban i).spec o.http σ.req = false) :
    BanInv re st' := by
  have hban := banHunt_ban h
  have hwf' := banHunt_wf hi.wf h
  unfold banHunt at h
  split at h
  · cases h
  rename_i hmem
  rw [not_not] at hmem
  obtain ⟨-, hp1, hp2⟩ := hi.wf.hunts p hmem
  cases h
  set st' := BanState.setBan _ p.2 _ with hst'
  have hdup : ∀ B, (st.ban B).gone = false → (st'.ban B).gone = true →
      B < p.1 ∧ (st.ban B).spec = (st.ban p.1).spec ∧ st.isDup p B = true := by
    intro B h1 h2
    rw [(hban B).2.2.2.1, h1, Bool.false_or] at h2
    have h3 := h2
    simp only [isDup, Bool.and_eq_true, decide_eq_true_eq] at h3
    exact ⟨h3.1.1.2, h3.2, h2⟩
  have hkept : ∀ B, p.1 ≤ B → (st'.ban B).gone = (st.ban B).gone := by
    intro B hB
    rw [(hban B).2.2.2.1]
    have : st.isDup p B = false := by
      simp only [isDup, Bool.and_eq_false_iff, decide_eq_false_iff_not]
      exact Or.inl (Or.inl (by omega))
    rw [this, Bool.or_false]
  have hspec : ∀ B, (st'.ban B).spec = (st.ban B).spec := fun B => (hban B).1
  have hframe : BanFrame st st' := by
    refine ⟨le_rfl, rfl, fun B _ => hspec B, fun B _ hg => ?_, fun B h1 h2 => absurd h1 (Nat.not_lt.mpr h2)⟩
    rw [(hban B).2.2.2.1, hg, Bool.true_or]
  have hfol : Follows st st' := fun x o a h => Or.inl ⟨o, h, rfl, fun hb => ⟨hb, rfl⟩⟩
  have hstep : SessStep none st st' := by
    refine ⟨hwf', hframe, Untags.of_same rfl (fun B => Or.inr (hban B).2.1), hfol, fun a => Or.inl ?_, rfl, rfl,
      ⟨fun _ _ hm _ => hm, fun _ _ _ ho _ _ _ _ => ho⟩, by simp⟩
    rw [(hban a).2.2.1]
  have hall : ∀ t σ, st'.sess t = some σ → st'.mtx σ.objhead = some (.sess t) ∧ LookupOk re st' σ := by
    intro t σ hσ
    have hσ0 : st.sess t = some σ := hσ
    refine hi.sess.other hframe hstep.respects hσ0 (by simp) (fun c o a B hc hat h1 h2 h3 h4 => ?_)
    obtain ⟨hlt, hsp, hd⟩ := hdup B h3 h4
    by_cases hb0 : p.1 ≤ c.b0
    · by_cases hg : (st.ban p.1).gone = true
      · rcases hat.settled p.1 (h1.trans hlt) hb0 hg with hs | ⟨B', k1, k2, k3, k4⟩
        · refine Or.inl ?_
          rw [hspec, hsp]
          exact hs
        · refine Or.inr ⟨B', hlt.trans k1, k2, ?_, ?_⟩
          · rw [hspec, hspec, k3, hsp]
          · rw [hkept B' k1.le]
            exact k4
      · refine Or.inr ⟨p.1, hlt, hb0, ?_, ?_⟩
        · rw [hspec, hspec, hsp]
        · rw [hkept p.1 le_rfl]
          simpa using hg
    · refine Or.inl ?_
      rw [hspec]
      by_cases hcur : B ≤ c.b
      · exact hcond t σ c o a B hσ0 hc hat.att.1 hat.att.2 (Nat.not_le.mp hb0) h1 hcur hd
      · exact hat.walked B (Nat.not_le.mp hcur) h2
  refine ⟨hwf', ⟨fun t σ hσ => (hall t σ hσ).1, fun t σ hσ => (hall t σ hσ).2⟩, ?_, hstep.lurk hi⟩
  refine hi.guarded.frame hframe hfol.keeps (fun x o a o' B hatt hkeep h1 h2 h3 h4 => ?_)
  obtain ⟨hlt, hsp, -⟩ := hdup B h3 h4
  by_cases hg : (st.ban p.1).gone = true
  · rcases hi.guarded x o a hatt p.1 (h1.trans hlt) hp2 hg with ⟨hb, hh⟩ | ⟨B', k1, k2, k3, k4⟩
    · obtain ⟨hb', hh'⟩ := hkeep hb
      refine Or.inl ⟨hb', ?_⟩
      unfold Harmless Ban.req at hh ⊢
      rw [hspec, hsp, hh']
      exact hh
    · refine Or.inr ⟨B', hlt.trans k1, k2, ?_, ?_⟩
      · rw [hspec, hspec, k3, hsp]
      · rw [hkept B' k1.le]
        exact k4
  · refine Or.inr ⟨p.1, hlt, hp2, ?_, ?_⟩
    · rw [hspec, hspec, hsp]
    · rw [hkept p.1 le_rfl]
      simpa using hg

end VarnishCache.Proofs
