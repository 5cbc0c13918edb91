import VarnishCache.Proofs.BanInsert

/-!
# The steps of the lurker keep the invariant of the ban list
-/

namespace VarnishCache.Proofs

open VarnishCache BanState

variable {re : String → String → Bool} {st st' : BanState} {x a : Nat} {o : BanOc}

/-- A step of the lurker, as the sessions see it. -/
structure LurkStep (re : String → String → Bool) (st st' : BanState) : Prop where
  wf : BanWf st'
  frame : BanFrame st st'
  keeps : Keeps st st'
  respects : Respects (some .lurker) st st'
  sess : st'.sess = st.sess
  tested : ∀ y p a' B, Att st y p a' → a' < B → B ≤ st.first → (st.ban B).gone = false → (st'.ban B).gone = true →
    p.busy = false ∧ Harmless re st B p.http

lemma LurkStep.inv (h : LurkStep re st st') (hi : BanInv re st)
    (hlurk : ∃ q β, Tags st' q β ∧ LurkPhase re st' β st'.lurker) : BanInv re st' := by
  have hall : ∀ t σ, st'.sess t = some σ → st'.mtx σ.objhead = some (.sess t) ∧ LookupOk re st' σ := by
    intro t σ hσ
    rw [h.sess] at hσ
    refine hi.sess.other h.frame h.respects hσ (by simp) (fun c p a' B hc hat h1 h2 h3 h4 => Or.inl ?_)
    have hB := h2.trans hat.front
    rw [h.frame.spec B hB]
    exact (h.tested c.oc p a' B hat.att h1 hB h3 h4).2.2 _
  refine ⟨h.wf, ⟨fun t σ hσ => (hall t σ hσ).1, fun t σ hσ => (hall t σ hσ).2⟩, ?_, hlurk⟩
  refine hi.guarded.frame h.frame h.keeps (fun y p a' p' B hatt hkeep h1 h2 h3 h4 => Or.inl ?_)
  obtain ⟨hb, hh⟩ := h.tested y p a' B hatt h1 h2 h3 h4
  obtain ⟨hb', hh'⟩ := hkeep hb
  refine ⟨hb', ?_⟩
  rw [hh']
  exact hh.frame h.frame h2

/-- A step that changes nothing but where the lurker is, what is tagged and what the lurker has locked. -/
lemma LurkStep.of_ocs (hwf : BanWf st) (hfirst : st'.first = st.first) (hlast : st'.last = st.last)
    (hhunts : st'.hunts = st.hunts) (hsess : st'.sess = st.sess) (hocs : st'.ocs = st.ocs)
    (hban : ∀ B, (st'.ban B).objcore = (st.ban B).objcore ∧ (st'.ban B).refcount = (st.ban B).refcount ∧
      (st'.ban B).spec = (st.ban B).spec ∧ (st'.ban B).gone = (st.ban B).gone)
    (hmtx : ∀ oh h, st.mtx oh = some h → some h ≠ some BanHolder.lurker → st'.mtx oh = some h) :
    LurkStep re st st' := by
  have hatt : ∀ y p b, Att st' y p b ↔ Att st y p b := by
    intro y p b
    rw [Att, Att, hocs]
  refine ⟨?_, BanFrame.of_same hfirst hlast (fun B => ⟨(hban B).2.2.1, (hban B).2.2.2⟩), ?_, ⟨hmtx, ?_⟩, hsess, ?_⟩
  · refine hwf.congr hfirst hlast hhunts (fun b => ?_) (fun y b => by simp only [hatt]) ?_
    · rw [(hban b).1]
      exact ⟨.refl _, (hban b).2.1⟩
    · rw [hocs]
      exact hwf.newborn
  · intro y p b hp
    exact Or.inl ⟨p, b, (hatt y p b).mp hp, le_rfl, fun hb => ⟨hb, rfl⟩⟩
  · intro y p h hp _ _ _ _
    rw [hocs]
    exact hp
  · intro y p b B _ _ _ h3 h4
    rw [(hban B).2.2.2, h3] at h4
    cases h4

lemma banCheckLast_inv (hi : BanInv re st) (h : st.banCheckLast = some st') : BanInv re st' := by
  unfold banCheckLast at h
  cases hl : st.lurker with
  | idle =>
    simp only [hl] at h
    split_ifs at h with h1 h2
    · cases h
      have hwf := hi.wf
      have hr := hwf.refs st.last
      rw [h1.2] at hr
      have hempty : (st.ban st.last).objcore = [] := List.length_eq_zero_iff.mp (by omega)
      have hno : ∀ p ∈ st.hunts, False := by
        intro p hp
        have hz : st.hunts.countP (fun q => q.2 = st.last) = 0 := by omega
        have := List.countP_eq_zero.mp hz p hp
        simp only [(hwf.hunts p hp).1, decide_true, not_true_eq_false] at this
      have horder : st.last + 1 ≤ st.first := by
        have := hwf.order
        omega
      obtain ⟨q, β, htags, hphase⟩ := hi.lurk
      rw [hl] at hphase
      refine ⟨⟨by have := hwf.last; exact this.trans (Nat.le_succ _), horder, hwf.attached, hwf.nodup, ?_, hwf.refs,
        fun p hp => (hno p hp).elim, hwf.newborn⟩, ⟨hi.sess.lock, fun s σ hσ c hc => ?_⟩, hi.guarded, q, β, ?_, ?_⟩
      · intro y p b hp
        obtain ⟨k1, k2⟩ := hwf.inList y p b hp
        refine ⟨?_, k2⟩
        have hne : b ≠ st.last := by
          rintro rfl
          have := (hwf.attached y _).mpr ⟨p, hp⟩
          rw [hempty] at this
          cases this
        change st.last + 1 ≤ b
        omega
      · obtain ⟨p, b, hat⟩ := hi.sess.lookup s σ hσ c hc
        exact ⟨p, b, hat.hasReq, hat.att, hat.head, hat.onHead, hat.idle, hat.newer, hat.low, hat.high, hat.front,
          hat.walked, hat.settled⟩
      · exact ⟨htags.pass, htags.other, htags.front, htags.ocs, fun B k1 => htags.gone B ((Nat.le_succ _).trans k1),
          fun B k1 => htags.bans B ((Nat.le_succ _).trans k1)⟩
      · exact ⟨hphase.1, fun B k1 => hphase.2 B ((Nat.le_succ _).trans k1)⟩
    · cases h
      exact hi
  | tagging b b0 => simp [hl] at h
  | working b b0 => simp [hl] at h
  | got b b0 y => simp [hl] at h
  | checking b b0 c => simp [hl] at h

lemma startPass_inv (hi : BanInv re st) (h : st.startPass = some st') : BanInv re st' := by
  unfold BanState.startPass at h
  cases hl : st.lurker with
  | idle =>
    simp only [hl, Option.some.injEq] at h
    subst h
    obtain ⟨q, β, htags, hphase⟩ := hi.lurk
    rw [hl] at hphase
    have hstep : LurkStep re st { st with lurker := .tagging st.first none } :=
      .of_ocs hi.wf rfl rfl rfl rfl rfl (fun B => ⟨rfl, rfl, rfl, rfl⟩) (fun _ _ hm _ => hm)
    refine hstep.inv hi ⟨q, β, ⟨htags.pass, htags.other, htags.front, htags.ocs, htags.gone, htags.bans⟩, hphase.1,
      le_rfl, hphase.2, fun k hk => ?_⟩
    cases hk
  | tagging b b0 => simp [hl] at h
  | working b b0 => simp [hl] at h
  | got b b0 y => simp [hl] at h
  | checking b b0 c => simp [hl] at h

/-- With no object tagged, the lurker can start at the last ban. -/
lemma PassAt.start (hwf : BanWf st) (hun : Unused st) {k : Nat} (hlo : st.last ≤ k) (hhi : k ≤ st.first)
    (htag : TaggedUpTo st k) : PassAt re st st.last k := by
  refine ⟨le_rfl, hlo, hhi, fun y p b hp hlt => ?_, fun y p b hp hl => absurd hl (hun y p b hp), fun _ => ?_,
    fun B h1 h2 => absurd h1 (Nat.not_le.mpr h2), htag⟩
  · exact absurd (hwf.inList y p b hp).1 (Nat.not_le.mpr hlt)
  · refine List.pairwise_of_forall_mem_list (fun y hy z _ p p' hp _ hl => ?_)
    obtain ⟨p0, hp0⟩ := (hwf.attached y st.last).mp hy
    have e := Option.some.inj (hp0.1.symm.trans hp)
    subst e
    exact absurd hl (hun y p0 st.last hp0)

/-- The bans of a pass, with one more tagged. -/
lemma tagged_phase (hwf : BanWf st) {q β b : Nat} {b0 : Option Nat} (htags : Tags st q β)
    (hphase : LurkPhase re st β (.tagging b b0)) (hlo : st.last ≤ b) (hg : (st.ban b).gone = false)
    (hr : (st.ban b).req = false) :
    Tags { st.setBan b (fun y => { y with lurk := st.pass }) with lurker := .tagging (b - 1) (some (b0.getD b)) } q β ∧
      LurkPhase re { st.setBan b (fun y => { y with lurk := st.pass }) with
        lurker := .tagging (b - 1) (some (b0.getD b)) } β (.tagging (b - 1) (some (b0.getD b))) := by
  obtain ⟨hun, hb, htag, hb0⟩ := hphase
  set st1 : BanState := { st.setBan b (fun y => { y with lurk := st.pass }) with
    lurker := .tagging (b - 1) (some (b0.getD b)) } with hst1
  have hban : ∀ B, st1.ban B = if B = b then { st.ban b with lurk := st.pass } else st.ban B :=
    fun B => setBan_apply st b (fun y => { y with lurk := st.pass }) B
  have hspec : ∀ B, (st1.ban B).spec = (st.ban B).spec ∧ (st1.ban B).gone = (st.ban B).gone := by
    intro B
    rw [hban]
    by_cases hB : B = b
    · subst hB
      simp
    · simp [hB]
  have hreq : ∀ B, (st1.ban B).req = (st.ban B).req := fun B => by simp only [Ban.req, (hspec B).1]
  have hlurk : ∀ B, B ≠ b → (st1.ban B).lurk = (st.ban B).lurk := fun B hB => by rw [hban, if_neg hB]
  have hlast := hwf.last
  have hk : b < b0.getD b + 1 ∧ b - 1 < b0.getD b ∧ st.last ≤ b0.getD b ∧ β < b0.getD b ∧ b0.getD b ≤ st.first := by
    cases hb0' : b0 with
    | none =>
      refine ⟨Nat.lt_succ_self b, by simp only [Option.getD_none]; omega, hlo, ?_, hb⟩
      by_contra hle
      rw [htags.gone b hlo (Nat.not_lt.mp hle) hr] at hg
      cases hg
    | some k =>
      obtain ⟨k0, k1, k2, k3⟩ := hb0 k hb0'
      exact ⟨by simp only [Option.getD_some]; omega, by simp only [Option.getD_some]; omega, k1, k2, k3⟩
  refine ⟨⟨htags.pass, htags.other, htags.front, htags.ocs, fun B h1 h2 h3 => ?_, fun B h1 h2 h3 => ?_⟩,
    hun, (Nat.sub_le _ _).trans hb, fun B h1 h2 h3 h4 => ?_, fun k hk' => ?_⟩
  · rw [hreq] at h3
    rw [(hspec B).2]
    exact htags.gone B h1 h2 h3
  · rw [hreq]
    by_cases hB : B = b
    · rw [hB]
      exact hr
    · rw [hlurk B hB] at h3
      exact htags.bans B h1 h2 h3
  · by_cases hB : B = b
    · subst hB
      rw [hban, if_pos rfl]
      exact ⟨rfl, Nat.lt_succ_iff.mp hk.1⟩
    · rw [hlurk B hB] at h3 ⊢
      rw [(hspec B).2] at h4
      obtain ⟨k1, k2⟩ := htag B h1 h2 h3 h4
      refine ⟨k1, k2.trans ?_⟩
      cases b0 <;> simp
  · cases hk'
    exact hk.2

lemma tagBan_inv (hi : BanInv re st) (h : st.tagBan = some st') : BanInv re st' := by
  unfold tagBan at h
  obtain ⟨q, β, htags, hphase⟩ := hi.lurk
  cases hl : st.lurker with
  | tagging b b0 =>
    rw [hl] at hphase
    obtain ⟨hun, hb, htag, hb0⟩ := hphase
    have hmove : ∀ l, LurkPhase re { st with lurker := l } β l → BanInv re { st with lurker := l } := by
      intro l hp
      have hstep : LurkStep re st { st with lurker := l } :=
        .of_ocs hi.wf rfl rfl rfl rfl rfl (fun B => ⟨rfl, rfl, rfl, rfl⟩) (fun _ _ hm _ => hm)
      exact hstep.inv hi ⟨q, β, ⟨htags.pass, htags.other, htags.front, htags.ocs, htags.gone, htags.bans⟩, hp⟩
    simp only [hl] at h
    split_ifs at h with h1 h2
    · cases b0 with
      | none =>
        cases h
        exact hmove .idle ⟨hun, htag⟩
      | some k =>
        cases h
        obtain ⟨-, k1, k2, k3⟩ := hb0 k rfl
        have hp : PassAt re st st.last k := PassAt.start hi.wf hun k1 k3 htag
        exact hmove (.working st.last k)
          ⟨k2, hp.low, hp.high, hp.front, hp.done, hp.tested, hp.shape, hp.marked, hp.tagged⟩
    · cases h
      exact hmove (.tagging (b - 1) b0) ⟨hun, (Nat.sub_le _ _).trans hb, htag, fun k hk => by
        obtain ⟨k0, k1⟩ := hb0 k hk
        exact ⟨by omega, k1⟩⟩
    · cases h
      obtain ⟨h3, h4, -⟩ : (st.ban b).gone = false ∧ (st.ban b).req = false ∧ b ≠ st.last := by
        simpa only [not_or, Bool.not_eq_true] using h2
      obtain ⟨ht, hp⟩ := tagged_phase hi.wf htags ⟨hun, hb, htag, hb0⟩ (Nat.not_lt.mp h1) h3 h4
      have hstep : LurkStep re st { st.setBan b (fun y => { y with lurk := st.pass }) with
          lurker := .tagging (b - 1) (some (b0.getD b)) } := by
        refine .of_ocs hi.wf rfl rfl rfl rfl rfl (fun B => ?_) (fun _ _ hm _ => hm)
        simp only [setBan_apply]
        by_cases hB : B = b
        · subst hB
          simp
        · simp [hB]
      exact hstep.inv hi ⟨q, β, ht, hp⟩
  | idle => simp [hl] at h
  | working b b0 => simp [hl] at h
  | got b b0 y => simp [hl] at h
  | checking b b0 c => simp [hl] at h

lemma nextPass_ne (p : Nat) : nextPass p ≠ p ∧ nextPass p ≠ 0 := by
  unfold nextPass
  split_ifs with h
  · omega
  · omega

/-- Ban `b` with its objects done. -/
def marked (st : BanState) (b : Nat) : BanState :=
  if (st.ban b).req then st else st.setBan b (fun y => { y with gone := true })

lemma marked_ban (st : BanState) (b B : Nat) : ((marked st b).ban B).spec = (st.ban B).spec ∧
    ((marked st b).ban B).lurk = (st.ban B).lurk ∧ ((marked st b).ban B).objcore = (st.ban B).objcore ∧
    ((marked st b).ban B).refcount = (st.ban B).refcount ∧
    ((marked st b).ban B).gone = ((st.ban B).gone || (decide (B = b) && !(st.ban b).req)) := by
  unfold marked
  by_cases hr : (st.ban b).req
  · simp [hr]
  · rw [if_neg hr, setBan_apply]
    by_cases hB : B = b
    · subst hB
      simp [hr]
    · simp [hB]

lemma marked_rest (st : BanState) (b : Nat) : (marked st b).first = st.first ∧ (marked st b).last = st.last ∧
    (marked st b).ocs = st.ocs ∧ (marked st b).mtx = st.mtx ∧ (marked st b).sess = st.sess ∧
    (marked st b).hunts = st.hunts ∧ (marked st b).pass = st.pass := by
  unfold marked
  split_ifs <;> simp [setBan]

lemma banDone_eq (st : BanState) (b b0 : Nat) : st.banDone b b0 =
    if b = b0 then { marked st b with pass := nextPass st.pass, lurker := .idle }
    else { marked st b with lurker := .working (b + 1) b0 } := by
  unfold banDone marked
  by_cases hr : (st.ban b).req
  · simp [hr]
  · simp [hr, setBan]

/-- The lurker is done with ban `b` when all its objects, if newer bans of the pass remain, have been tested. -/
lemma banDone_inv (hi : BanInv re st) {q β b b0 : Nat} (htags : Tags st q β) (hβ : β < b0) (hp : PassAt re st b b0)
    (hlist : b < b0 → ∀ y p, Att st y p b → p.lurk = st.pass) : BanInv re (st.banDone b b0) := by
  have hban := marked_ban st b
  obtain ⟨hfirst, hlast, hocs, hmtx, hsess, hhunts, hpass⟩ := marked_rest st b
  have hreq : ∀ B, ((marked st b).ban B).req = (st.ban B).req := fun B => by simp only [Ban.req, (hban B).1]
  have hatt : ∀ y p c, Att (marked st b) y p c ↔ Att st y p c := by
    intro y p c
    rw [Att, Att, hocs]
  have hmono : ∀ B, (st.ban B).gone = true → ((marked st b).ban B).gone = true := by
    intro B hg
    rw [(hban B).2.2.2.2, hg, Bool.true_or]
  have hharm : ∀ B http, Harmless re st B http → Harmless re (marked st b) B http := by
    intro B http hh
    unfold Harmless
    rw [hreq, (hban B).1]
    exact hh
  have hall : ∀ B, st.last ≤ B → B ≤ b → (st.ban B).req = false → ((marked st b).ban B).gone = true := by
    intro B h1 h2 h3
    rcases Nat.lt_or_eq_of_le h2 with h2 | rfl
    · exact hmono B (hp.marked B h1 h2 h3)
    · rw [(hban B).2.2.2.2, h3]
      simp
  have hdone : b ≠ b0 → ∀ y p c, Att st y p c → c < b + 1 → p.lurk = st.pass := by
    intro hne y p c hy hlt
    rcases Nat.lt_or_eq_of_le (Nat.lt_succ_iff.mp hlt) with h1 | rfl
    · exact hp.done y p c hy h1
    · exact hlist (lt_of_le_of_ne hp.high hne) y p hy
  have hstep : ∀ (n : Nat) (l : BanLurker), LurkStep re st { marked st b with pass := n, lurker := l } := by
    intro n l
    refine ⟨?_, ?_, ?_, ⟨fun oh h hm _ => by rw [← hmtx] at hm; exact hm, ?_⟩, hsess, ?_⟩
    · refine hi.wf.congr hfirst hlast hhunts (fun c => ?_) (fun y c => exists_congr (fun p => hatt y p c)) ?_
      · change ((marked st b).ban c).objcore.Perm _ ∧ ((marked st b).ban c).refcount = _
        rw [(hban c).2.2.1]
        exact ⟨.refl _, (hban c).2.2.2.1⟩
      · change ∀ x o, (marked st b).ocs x = some o → _
        rw [hocs]
        exact hi.wf.newborn
    · refine ⟨hfirst.ge, hlast, fun B _ => (hban B).1, fun B _ hg => hmono B hg, fun B h1 h2 => ?_⟩
      change B ≤ (marked st b).first at h2
      omega
    · intro y p c hy
      exact Or.inl ⟨p, c, (hatt y p c).mp hy, le_rfl, fun hb => ⟨hb, rfl⟩⟩
    · intro y p h hy _ _ _ _
      change (marked st b).ocs y = some p
      rw [hocs]
      exact hy
    · intro y p c B hy h1 h2 h3 h4
      change ((marked st b).ban B).gone = true at h4
      rw [(hban B).2.2.2.2, h3, Bool.false_or] at h4
      simp only [Bool.and_eq_true, decide_eq_true_eq, Bool.not_eq_true'] at h4
      obtain ⟨rfl, hr⟩ := h4
      obtain ⟨-, hb, ht⟩ := hp.tested y p c hy (hp.done y p c hy h1)
      exact ⟨hb, ht B h1 hp.high h3 hr⟩
  have htag : TaggedUpTo (marked st b) b0 := by
    intro B h1 h2 h3 h4
    rw [hlast] at h1
    rw [hfirst] at h2
    rw [(hban B).2.1] at h3 ⊢
    rw [hpass]
    refine hp.tagged B h1 h2 h3 ?_
    by_contra hg
    rw [hmono B (by simpa using hg)] at h4
    cases h4
  rw [banDone_eq]
  by_cases hbb : b = b0
  · subst hbb
    rw [if_pos rfl]
    obtain ⟨hn1, hn2⟩ := nextPass_ne st.pass
    have hold : ∀ y p c, Att st y p c → p.lurk ≠ 0 → p.lurk = st.pass ∧ c ≤ b := by
      intro y p c hy hl
      rcases htags.ocs y p c hy hl with h1 | ⟨h1, h2⟩
      · exact ⟨h1, (hp.tested y p c hy h1).1⟩
      · exact absurd (h1.symm.trans (hp.done y p c hy (by omega))) htags.other
    refine (hstep (nextPass st.pass) .idle).inv hi ⟨st.pass, b, ⟨hn2, hn1.symm, ?_, ?_, ?_, ?_⟩, ?_, ?_⟩
    · exact hp.front.trans hfirst.ge
    · intro y p c hy hl
      obtain ⟨h1, h2⟩ := hold y p c ((hatt y p c).mp hy) hl
      exact Or.inr ⟨h1, h2⟩
    · intro B h1 h2 h3
      exact hall B (hlast ▸ h1) h2 ((hreq B).symm.trans h3)
    · intro B h1 h2 h3
      refine (hreq B).trans (htags.bans B (hlast ▸ h1) (hfirst ▸ h2) ?_)
      rw [← (hban B).2.1]
      exact h3
    · intro y p c hy hl
      have hy' := (hatt y p c).mp hy
      have hl' : p.lurk = nextPass st.pass := hl
      obtain ⟨h1, -⟩ := hold y p c hy' (by rw [hl']; exact hn2)
      exact hn1 (hl'.symm.trans h1)
    · intro B h1 h2 h3 h4
      have hr : (st.ban B).req = false :=
        htags.bans B (hlast ▸ h1) (hfirst ▸ h2) (by rw [← (hban B).2.1]; exact h3)
      have hle := (htag B h1 h2 h3 h4).2
      exact absurd ((hall B (hlast ▸ h1) hle hr).symm.trans h4) (by simp)
  · rw [if_neg hbb]
    have hlt : b < b0 := lt_of_le_of_ne hp.high hbb
    have hst : ({ marked st b with lurker := .working (b + 1) b0 } : BanState) =
        { marked st b with pass := st.pass, lurker := .working (b + 1) b0 } := by rw [← hpass]
    rw [hst]
    refine (hstep st.pass (.working (b + 1) b0)).inv hi
      ⟨q, β, ⟨htags.pass, htags.other, htags.front.trans hfirst.ge, ?_, ?_, ?_⟩,
      hβ, ?_, hlt, hp.front.trans hfirst.ge, ?_, ?_, ?_, ?_, ?_⟩
    · intro y p c hy hl
      exact htags.ocs y p c ((hatt y p c).mp hy) hl
    · intro B h1 h2 h3
      exact hmono B (htags.gone B (hlast ▸ h1) h2 ((hreq B).symm.trans h3))
    · intro B h1 h2 h3
      refine (hreq B).trans (htags.bans B (hlast ▸ h1) (hfirst ▸ h2) ?_)
      rw [← (hban B).2.1]
      exact h3
    · change (marked st b).last ≤ b + 1
      rw [hlast]
      exact hp.low.trans (Nat.le_succ _)
    · intro y p c hy hc
      exact hdone hbb y p c ((hatt y p c).mp hy) hc
    · intro y p c hy hl
      obtain ⟨h1, h2, h3⟩ := hp.tested y p c ((hatt y p c).mp hy) hl
      refine ⟨h1.trans (Nat.le_succ _), h2, fun T k1 k2 k3 k4 => hharm T _ (h3 T k1 k2 ?_ ((hreq T).symm.trans k4))⟩
      by_contra hg
      exact absurd ((hmono T (by simpa using hg)).symm.trans k3) (by simp)
    · intro _
      refine List.pairwise_of_forall_mem_list (fun y hy z _ p p' hp1 _ hl => ?_)
      change y ∈ ((marked st b).ban (b + 1)).objcore at hy
      rw [(hban _).2.2.1] at hy
      obtain ⟨p0, hp0⟩ := (hi.wf.attached y (b + 1)).mp hy
      have hp1' : st.ocs y = some p := by
        rw [← hocs]
        exact hp1
      have e := Option.some.inj (hp0.1.symm.trans hp1')
      subst e
      have := (hp.tested y p0 (b + 1) hp0 hl).1
      omega
    · intro B h1 h2 h3
      exact hall B (hlast ▸ h1) (Nat.lt_succ_iff.mp h2) ((hreq B).symm.trans h3)
    · intro B h1 h2 h3 h4
      obtain ⟨k1, k2⟩ := htag B h1 h2 h3 h4
      exact ⟨k1.trans hpass, k2⟩

/-- A change of the tag of `x` and of the order of the objects of its ban `b`. -/
lemma retag_step (hi : BanInv re st) (hatt : Att st x o a) (hidle : o.busy = false)
    (hfirst : st'.first = st.first) (hlast : st'.last = st.last) (hhunts : st'.hunts = st.hunts)
    (hsess : st'.sess = st.sess) {n : Nat} (hocs : st'.ocs = Function.update st.ocs x (some { o with lurk := n }))
    (hban : ∀ B, (st'.ban B).objcore.Perm (st.ban B).objcore ∧ (st'.ban B).refcount = (st.ban B).refcount ∧
      (st'.ban B).spec = (st.ban B).spec ∧ (st'.ban B).gone = (st.ban B).gone)
    (hmtx : ∀ oh h, st.mtx oh = some h → some h ≠ some BanHolder.lurker → st'.mtx oh = some h)
    (hlock : st.mtx o.objhead = none ∨ st.mtx o.objhead = some .lurker) : LurkStep re st st' := by
  have hatt' : ∀ y p b, Att st' y p b ↔ (y = x ∧ p = { o with lurk := n } ∧ b = a) ∨ (y ≠ x ∧ Att st y p b) := by
    intro y p b
    rw [Att, hocs]
    by_cases hy : y = x
    · subst hy
      simp only [Function.update_self, Option.some.injEq, true_and, ne_eq, not_true_eq_false, false_and, or_false]
      constructor
      · rintro ⟨rfl, hb⟩
        exact ⟨rfl, (Option.some.inj (hatt.2.symm.trans hb)).symm⟩
      · rintro ⟨rfl, rfl⟩
        exact ⟨rfl, hatt.2⟩
    · simp [hy, Att]
  refine ⟨?_, BanFrame.of_same hfirst hlast (fun B => ⟨(hban B).2.2.1, (hban B).2.2.2⟩), ?_, ⟨hmtx, ?_⟩, hsess, ?_⟩
  · refine hi.wf.congr hfirst hlast hhunts (fun b => ⟨(hban b).1, (hban b).2.1⟩) (fun y b => ?_) (fun y p hp hn hb => ?_)
    · constructor
      · rintro ⟨p, hp⟩
        rcases (hatt' y p b).mp hp with ⟨rfl, -, rfl⟩ | ⟨-, hp⟩
        · exact ⟨o, hatt⟩
        · exact ⟨p, hp⟩
      · rintro ⟨p, hp⟩
        by_cases hy : y = x
        · subst hy
          have e := Option.some.inj (hatt.1.symm.trans hp.1)
          subst e
          exact ⟨{ o with lurk := n }, (hatt' y _ b).mpr (Or.inl ⟨rfl, rfl, Option.some.inj (hp.2.symm.trans hatt.2)⟩)⟩
        · exact ⟨p, (hatt' y p b).mpr (Or.inr ⟨hy, hp⟩)⟩
    · by_cases hy : y = x
      · subst hy
        rw [hocs, Function.update_self] at hp
        cases hp
        exact absurd (hidle.symm.trans hb) (by simp)
      · rw [hocs, Function.update_of_ne hy] at hp
        exact hi.wf.newborn y p hp hn hb
  · intro y p b hp
    rcases (hatt' y p b).mp hp with ⟨rfl, rfl, rfl⟩ | ⟨-, hp⟩
    · exact Or.inl ⟨o, b, hatt, le_rfl, fun hb => ⟨hb, rfl⟩⟩
    · exact Or.inl ⟨p, b, hp, le_rfl, fun hb => ⟨hb, rfl⟩⟩
  · intro y p h hp _ _ hm hne
    have hy : y ≠ x := by
      rintro rfl
      have e := Option.some.inj (hatt.1.symm.trans hp)
      subst e
      rcases hlock with hk | hk
      · rw [hk] at hm
        cases hm
      · exact hne (by rw [← hm, hk])
    rw [hocs, Function.update_of_ne hy]
    exact hp
  · intro y p b B _ _ _ h3 h4
    rw [(hban B).2.2.2, h3] at h4
    cases h4

/-- The lurker takes object `x` of ban `b`, whose tag it clears. -/
lemma take_phase {q β b b0 : Nat} (htags : Tags st q β) (hp : PassAt re st b b0) (hatt : Att st x o b)
    (hne : o.lurk ≠ st.pass)
    (hfirst : st'.first = st.first) (hlast : st'.last = st.last) (hpass : st'.pass = st.pass) (hban : st'.ban = st.ban)
    (hocs : st'.ocs = Function.update st.ocs x (some { o with lurk := 0 })) :
    Tags st' q β ∧ PassAt re st' b b0 := by
  have hold : ∀ y p c, Att st' y p c → p.lurk ≠ 0 → y ≠ x ∧ Att st y p c := by
    intro y p c hy hl
    rw [Att, hocs] at hy
    by_cases hyx : y = x
    · subst hyx
      rw [Function.update_self] at hy
      cases hy.1
      exact absurd rfl hl
    · rw [Function.update_of_ne hyx] at hy
      exact ⟨hyx, hy⟩
  have hlurk : ∀ y p, st'.ocs y = some p → y ≠ x → st.ocs y = some p := by
    intro y p hy hyx
    rw [hocs, Function.update_of_ne hyx] at hy
    exact hy
  have hx' : ∀ p, st'.ocs x = some p → p.lurk = 0 := by
    intro p hx
    rw [hocs, Function.update_self] at hx
    cases hx
    rfl
  have h0 := htags.pass
  refine ⟨⟨by rw [hpass]; exact h0, by rw [hpass]; exact htags.other, by rw [hfirst]; exact htags.front, ?_, ?_, ?_⟩,
    by rw [hlast]; exact hp.low, hp.high, by rw [hfirst]; exact hp.front, ?_, ?_, ?_, ?_, ?_⟩
  · intro y p c hy hl
    rw [hpass]
    exact htags.ocs y p c (hold y p c hy hl).2 hl
  · rw [hlast, hban]
    exact htags.gone
  · rw [hlast, hfirst, hban]
    exact htags.bans
  · intro y p c hy hc
    rw [hpass]
    by_cases hyx : y = x
    · subst hyx
      rw [Att, hocs, Function.update_self] at hy
      obtain ⟨h1, h2⟩ := hy
      cases h1
      have := Option.some.inj (hatt.2.symm.trans h2)
      omega
    · exact hp.done y p c ⟨hlurk y p hy.1 hyx, hy.2⟩ hc
  · intro y p c hy hl
    rw [hpass] at hl
    obtain ⟨-, hy'⟩ := hold y p c hy (by rw [hl]; exact h0)
    obtain ⟨h1, h2, h3⟩ := hp.tested y p c hy' hl
    unfold Harmless at h3 ⊢
    rw [hban]
    exact ⟨h1, h2, h3⟩
  · intro hlt
    rw [hban, hpass]
    refine (hp.shape hlt).imp (fun {y z} hyz p p' hy hz hl => ?_)
    have hyx : y ≠ x := by
      rintro rfl
      exact h0 (hl.symm.trans (hx' p hy))
    have hzx : z ≠ x := by
      rintro rfl
      exact hne (hyz p o (hlurk y p hy hyx) hatt.1 hl)
    exact hyz p p' (hlurk y p hy hyx) (hlurk z p' hz hzx) hl
  · rw [hlast, hban]
    exact hp.marked
  · unfold TaggedUpTo
    rw [hlast, hfirst, hban, hpass]
    exact hp.tagged

/-- The lurker looks at an object, under the condition that it is not a busy one it could take. -/
lemma lurkLook_inv (hi : BanInv re st) (h : st.lurkLook = some st')
    (hcond : ∀ b b0 y l oc, st.lurker = .working b b0 → (st.ban b).objcore = y :: l → st.ocs y = some oc →
      oc.busy = true → oc.lurk = st.pass ∨ (st.mtx oc.objhead).isSome ∨ oc.onHead = false) : BanInv re st' := by
  unfold lurkLook at h
  obtain ⟨q, β, htags, hphase⟩ := hi.lurk
  cases hl : st.lurker with
  | working b b0 =>
    rw [hl] at hphase
    obtain ⟨hβ, hp⟩ := hphase
    simp only [hl] at h
    cases hobj : (st.ban b).objcore with
    | nil =>
      simp only [hobj, Option.some.injEq] at h
      subst h
      refine banDone_inv hi htags hβ hp (fun _ y p hy => ?_)
      have := (hi.wf.attached y b).mpr ⟨p, hy⟩
      rw [hobj] at this
      cases this
    | cons x l =>
      simp only [hobj] at h
      obtain ⟨o, ho, h⟩ := Option.bind_eq_some_iff.mp h
      obtain ⟨o', hatt⟩ := (hi.wf.attached x b).mp (by rw [hobj]; exact List.mem_cons_self)
      have e := Option.some.inj (hatt.1.symm.trans ho)
      subst e
      split_ifs at h with h1 h2 h3 h4
      · cases h
        refine banDone_inv hi htags hβ hp (fun hlt y p hy => ?_)
        have hy' := (hi.wf.attached y b).mpr ⟨p, hy⟩
        have hshape := hp.shape hlt
        rw [hobj] at hy' hshape
        rcases List.mem_cons.mp hy' with rfl | hy'
        · have e := Option.some.inj (hatt.1.symm.trans hy.1)
          subst e
          exact h1
        · exact (List.pairwise_cons.mp hshape).1 y hy' o' p hatt.1 hy.1 h1
      · cases h
        exact hi
      · cases h
        exact hi
      · rcases hcond b b0 x l o' hl hobj hatt.1 h4 with hc | hc | hc
        · exact absurd hc h1
        · exact absurd hc h2
        · exact absurd hc h3
      · cases h
        have hfree : st.mtx o'.objhead = none := by simpa using h2
        have hidle : o'.busy = false := by simpa using h4
        have hstep : LurkStep re st { (st.setMtx o'.objhead (some .lurker)).setOc x (some { o' with lurk := 0 }) with
            lurker := .got b b0 x } := by
          refine retag_step hi hatt hidle rfl rfl rfl rfl rfl (fun B => ⟨.refl _, rfl, rfl, rfl⟩) (fun oh hd hm _ => ?_)
            (Or.inl hfree)
          have hne : oh ≠ o'.objhead := by
            rintro rfl
            rw [hfree] at hm
            cases hm
          exact (Function.update_of_ne hne _ _).trans hm
        have hphase' : Tags { (st.setMtx o'.objhead (some .lurker)).setOc x (some { o' with lurk := 0 }) with
              lurker := .got b b0 x } q β ∧
            PassAt re { (st.setMtx o'.objhead (some .lurker)).setOc x (some { o' with lurk := 0 }) with
              lurker := .got b b0 x } b b0 := take_phase htags hp hatt h1 rfl rfl rfl rfl rfl
        obtain ⟨ht, hp'⟩ := hphase'
        refine hstep.inv hi ⟨q, β, ht, hβ, hp', { o' with lurk := 0 }, ⟨Function.update_self _ _ _, hatt.2⟩, rfl, hidle,
          by simpa using h3, Function.update_self _ _ _⟩
  | idle => simp [hl] at h
  | tagging b b0 => simp [hl] at h
  | got b b0 y => simp [hl] at h
  | checking b b0 c => simp [hl] at h

/-- The tags and the pass do not depend on locks and on what the lurker holds. -/
lemma phase_same {q β b b0 : Nat} (htags : Tags st q β) (hp : PassAt re st b b0) (hfirst : st'.first = st.first)
    (hlast : st'.last = st.last) (hpass : st'.pass = st.pass) (hban : st'.ban = st.ban) (hocs : st'.ocs = st.ocs) :
    Tags st' q β ∧ PassAt re st' b b0 := by
  have hatt : ∀ y p c, Att st' y p c ↔ Att st y p c := by
    intro y p c
    rw [Att, Att, hocs]
  refine ⟨⟨by rw [hpass]; exact htags.pass, by rw [hpass]; exact htags.other,
    by rw [hfirst]; exact htags.front, ?_, ?_, ?_⟩,
    by rw [hlast]; exact hp.low, hp.high, by rw [hfirst]; exact hp.front, ?_, ?_, ?_, ?_, ?_⟩
  · simp only [hatt, hpass]
    exact htags.ocs
  · rw [hlast, hban]
    exact htags.gone
  · rw [hlast, hfirst, hban]
    exact htags.bans
  · simp only [hatt, hpass]
    exact hp.done
  · simp only [hatt, hpass, Harmless, hban]
    exact hp.tested
  · rw [hban, hocs, hpass]
    exact hp.shape
  · rw [hlast, hban]
    exact hp.marked
  · unfold TaggedUpTo
    rw [hlast, hfirst, hban, hpass]
    exact hp.tagged

lemma freeMtx (st : BanState) {oh : Nat} (hm : st.mtx oh = some .lurker) (oh' : Nat) (h : BanHolder)
    (hh : st.mtx oh' = some h) (hne : some h ≠ some BanHolder.lurker) : Function.update st.mtx oh none oh' = some h := by
  have hoh : oh' ≠ oh := by
    rintro rfl
    exact hne (hh.symm.trans hm)
  rw [Function.update_of_ne hoh]
  exact hh

lemma lurkBegin_inv (hi : BanInv re st) (h : st.lurkBegin = some st') : BanInv re st' := by
  unfold lurkBegin at h
  obtain ⟨q, β, htags, hphase⟩ := hi.lurk
  cases hl : st.lurker with
  | got b b0 x =>
    rw [hl] at hphase
    obtain ⟨hβ, hp, o, hgot⟩ := hphase
    simp only [hl] at h
    obtain ⟨o', ho, h⟩ := Option.bind_eq_some_iff.mp h
    have e := Option.some.inj (hgot.att.1.symm.trans ho)
    subst e
    split at h
    · cases h
      have hstep : LurkStep re st { st.setMtx o.objhead none with lurker := .working b b0 } :=
        .of_ocs hi.wf rfl rfl rfl rfl rfl (fun B => ⟨rfl, rfl, rfl, rfl⟩) (freeMtx st hgot.mtx)
      have hsame : Tags { st.setMtx o.objhead none with lurker := .working b b0 } q β ∧
          PassAt re { st.setMtx o.objhead none with lurker := .working b b0 } b b0 :=
        phase_same htags hp rfl rfl rfl rfl rfl
      exact hstep.inv hi ⟨q, β, hsame.1, hβ, hsame.2⟩
    · rename_i c hc
      cases h
      unfold checkBegin at hc
      split at hc
      · cases hc
      rename_i hfirst
      cases hc
      set c : BanCheck := { hasReq := false, oc := x, b0 := st.first, b := st.first, skipped := 0, hit := false }
      have hstep : LurkStep re st { st with lurker := .checking b b0 c } :=
        .of_ocs hi.wf rfl rfl rfl rfl rfl (fun B => ⟨rfl, rfl, rfl, rfl⟩) (fun _ _ hm _ => hm)
      have hsame : Tags { st with lurker := .checking b b0 c } q β ∧
          PassAt re { st with lurker := .checking b b0 c } b b0 := phase_same htags hp rfl rfl rfl rfl rfl
      have hb := (hi.wf.inList x o b hgot.att).2
      have hlt : b < st.first := by
        refine lt_of_le_of_ne hb (fun e => hfirst ?_)
        rw [hgot.att.2, e]
      refine hstep.inv hi ⟨q, β, hsame.1, hβ, hsame.2, o,
        ⟨hgot.att, hgot.lurk, hgot.idle, hgot.onHead, hgot.mtx⟩, rfl, hlt,
        hp.front, hb, le_rfl, le_rfl, fun T h1 h2 => absurd h1 (Nat.not_lt.mpr h2),
        fun _ T h1 h2 => absurd h1 (Nat.not_lt.mpr h2)⟩
  | idle => simp [hl] at h
  | tagging b b0 => simp [hl] at h
  | working b b0 => simp [hl] at h
  | checking b b0 c => simp [hl] at h

lemma lurkWalk_inv (hi : BanInv re st) (h : st.lurkWalk re = some st') : BanInv re st' := by
  unfold lurkWalk at h
  obtain ⟨q, β, htags, hphase⟩ := hi.lurk
  cases hl : st.lurker with
  | checking b b0 c =>
    rw [hl] at hphase
    obtain ⟨hβ, hp, o, hgot, hck⟩ := hphase
    simp only [hl] at h
    obtain ⟨c', hc', h⟩ := Option.bind_eq_some_iff.mp h
    cases h
    obtain ⟨o', ho, -, hne, hcases⟩ := checkWalk_cases hc'
    have e := Option.some.inj (hgot.att.1.symm.trans ho)
    subst e
    have hlt : b < c.b := by
      refine lt_of_le_of_ne hck.low (fun e => hne ?_)
      rw [hgot.att.2, e]
    have hmove : ∀ c1 : BanCheck, c1.oc = c.oc → LurkCheckAt re { st with lurker := .checking b b0 c1 } b b0 c1 o →
        BanInv re { st with lurker := .checking b b0 c1 } := by
      intro c1 h1 h2
      have hstep : LurkStep re st { st with lurker := .checking b b0 c1 } :=
        .of_ocs hi.wf rfl rfl rfl rfl rfl (fun B => ⟨rfl, rfl, rfl, rfl⟩) (fun _ _ hm _ => hm)
      have hsame : Tags { st with lurker := .checking b b0 c1 } q β ∧
          PassAt re { st with lurker := .checking b b0 c1 } b b0 := phase_same htags hp rfl rfl rfl rfl rfl
      refine hstep.inv hi ⟨q, β, hsame.1, hβ, hsame.2, o, ⟨?_, hgot.lurk, hgot.idle, hgot.onHead, hgot.mtx⟩, h2⟩
      rw [h1]
      exact hgot.att
    have hnext : ∀ n, ((st.ban c.b).gone = false → (st.ban c.b).req = false → Harmless re st c.b o.http) →
        (n = 0 → c.skipped = 0 ∧ ((st.ban c.b).gone = false → (st.ban c.b).req = false)) →
        LurkCheckAt re { st with lurker := .checking b b0 { c with b := c.b - 1, skipped := n } } b b0
          { c with b := c.b - 1, skipped := n } o := by
      intro n hcur hreq
      refine ⟨hck.hasReq, hck.newer, hck.pass, Nat.le_sub_one_of_lt hlt, (Nat.sub_le _ _).trans hck.high, hck.front,
        fun T h1 h2 h3 h4 => ?_, fun h0 T h1 h2 h3 => ?_⟩
      · by_cases hT : T = c.b
        · subst hT
          exact hcur h3 h4
        · have h1' : c.b - 1 < T := h1
          exact hck.walked T (by omega) h2 h3 h4
      · obtain ⟨hskip, hcurReq⟩ := hreq h0
        by_cases hT : T = c.b
        · subst hT
          exact hcurReq h3
        · have h1' : c.b - 1 < T := h1
          exact hck.asked hskip T (by omega) h2 h3
    rcases hcases with ⟨hg, rfl⟩ | ⟨-, h1, h2, -⟩ | ⟨-, hr, rfl⟩ | ⟨hr, hev, rfl⟩ | rfl
    · refine hmove _ rfl (hnext c.skipped (fun h1 => ?_) (fun h0 => ⟨h0, fun h1 => ?_⟩))
      · rw [hg] at h1
        cases h1
      · rw [hg] at h1
        cases h1
    · exact absurd (h2.trans hgot.lurk) h1
    · refine hmove _ rfl (hnext (c.skipped + 1) (fun _ h2 => ?_) (fun h0 => by cases h0))
      rw [hr] at h2
      cases h2
    · refine hmove _ rfl (hnext c.skipped (fun _ h2 => ⟨h2, fun r => ?_⟩) (fun h0 => ⟨h0, fun _ => ?_⟩))
      · rw [banEvaluate_noReq h2 o.http r noReq]
        exact hev
      · simpa using fun hreq => hr ⟨hck.hasReq, hreq⟩
    · exact hmove _ rfl ⟨hck.hasReq, hck.newer, hck.pass, hck.low, hck.high, hck.front, hck.walked, hck.asked⟩
  | idle => simp [hl] at h
  | tagging b b0 => simp [hl] at h
  | working b b0 => simp [hl] at h
  | got b b0 y => simp [hl] at h

/-- The lurker tags object `x`, which it has tested against all bans of the pass, and puts it last. -/
lemma tag_phase (hwf : BanWf st) {q β b b0 : Nat} (htags : Tags st q β) (hp : PassAt re st b b0) (hatt : Att st x o b)
    (hidle : o.busy = false)
    (htested : ∀ T, b < T → T ≤ b0 → (st.ban T).gone = false → (st.ban T).req = false → Harmless re st T o.http)
    (hfirst : st'.first = st.first) (hlast : st'.last = st.last) (hpass : st'.pass = st.pass)
    (hban : ∀ B, (st'.ban B).spec = (st.ban B).spec ∧ (st'.ban B).gone = (st.ban B).gone ∧
      (st'.ban B).lurk = (st.ban B).lurk)
    (hlist : (st'.ban b).objcore = (st.ban b).objcore.erase x ++ [x])
    (hocs : st'.ocs = Function.update st.ocs x (some { o with lurk := st.pass })) :
    Tags st' q β ∧ PassAt re st' b b0 := by
  have hreq : ∀ B, (st'.ban B).req = (st.ban B).req := fun B => by simp only [Ban.req, (hban B).1]
  have hatt' : ∀ y p c, Att st' y p c → (y = x ∧ p = { o with lurk := st.pass } ∧ c = b) ∨ (y ≠ x ∧ Att st y p c) := by
    intro y p c hy
    rw [Att, hocs] at hy
    by_cases hyx : y = x
    · subst hyx
      rw [Function.update_self] at hy
      obtain ⟨h1, h2⟩ := hy
      cases h1
      exact Or.inl ⟨rfl, rfl, Option.some.inj (h2.symm.trans hatt.2)⟩
    · rw [Function.update_of_ne hyx] at hy
      exact Or.inr ⟨hyx, hy⟩
  have hharm : ∀ B http, Harmless re st B http → Harmless re st' B http := by
    intro B http hh
    unfold Harmless
    rw [hreq, (hban B).1]
    exact hh
  refine ⟨⟨by rw [hpass]; exact htags.pass, by rw [hpass]; exact htags.other,
    by rw [hfirst]; exact htags.front, ?_, ?_, ?_⟩,
    by rw [hlast]; exact hp.low, hp.high, by rw [hfirst]; exact hp.front, ?_, ?_, ?_, ?_, ?_⟩
  · intro y p c hy hl
    rw [hpass]
    rcases hatt' y p c hy with ⟨-, rfl, -⟩ | ⟨-, hy⟩
    · exact Or.inl rfl
    · exact htags.ocs y p c hy hl
  · intro B h1 h2 h3
    rw [(hban B).2.1]
    exact htags.gone B (hlast ▸ h1) h2 ((hreq B).symm.trans h3)
  · intro B h1 h2 h3
    rw [(hban B).2.2] at h3
    exact (hreq B).trans (htags.bans B (hlast ▸ h1) (hfirst ▸ h2) h3)
  · intro y p c hy hc
    rw [hpass]
    rcases hatt' y p c hy with ⟨-, rfl, -⟩ | ⟨-, hy⟩
    · rfl
    · exact hp.done y p c hy hc
  · intro y p c hy hl
    rw [hpass] at hl
    rcases hatt' y p c hy with ⟨-, rfl, rfl⟩ | ⟨-, hy⟩
    · refine ⟨le_rfl, hidle, fun T h1 h2 h3 h4 => hharm T _ (htested T h1 h2 ?_ ((hreq T).symm.trans h4))⟩
      rw [← (hban T).2.1]
      exact h3
    · obtain ⟨h1, h2, h3⟩ := hp.tested y p c hy hl
      refine ⟨h1, h2, fun T k1 k2 k3 k4 => hharm T _ (h3 T k1 k2 ?_ ((hreq T).symm.trans k4))⟩
      rw [← (hban T).2.1]
      exact k3
  · intro hlt
    rw [hlist, hpass]
    refine List.pairwise_append.mpr ⟨?_, List.pairwise_singleton _ _, fun y _ z hz p p' _ hp' _ => ?_⟩
    · refine ((hp.shape hlt).sublist List.erase_sublist).imp_of_mem (fun {y z} hy hz hyz p p' hp1 hp2 hl => ?_)
      have hy' := ((hwf.nodup b).mem_erase_iff.mp hy).1
      have hz' := ((hwf.nodup b).mem_erase_iff.mp hz).1
      rw [hocs, Function.update_of_ne hy'] at hp1
      rw [hocs, Function.update_of_ne hz'] at hp2
      exact hyz p p' hp1 hp2 hl
    · rw [List.mem_singleton.mp hz, hocs, Function.update_self] at hp'
      cases hp'
      rfl
  · intro B h1 h2 h3
    rw [(hban B).2.1]
    exact hp.marked B (hlast ▸ h1) h2 ((hreq B).symm.trans h3)
  · intro B h1 h2 h3 h4
    rw [(hban B).2.2] at h3 ⊢
    rw [(hban B).2.1] at h4
    rw [hpass]
    exact hp.tagged B (hlast ▸ h1) (hfirst ▸ h2) h3 h4

/-- The lurker has moved or dropped object `x` and unlocks it. -/
lemma lurkLeave_inv (hi : BanInv re st) {q β b b0 : Nat} (htags : Tags st q β) (hβ : β < b0) (hp : PassAt re st b b0)
    (hgot : GotAt st b x o) {st1 : BanState} (hwf : BanWf st1) (hframe : BanFrame st st1) (huntags : Untags st st1)
    (hgone : ∀ B, (st1.ban B).gone = (st.ban B).gone) (hfol : Follows st st1) (hlists : Lists st st1)
    (hpass : st1.pass = st.pass) (hmtx : st1.mtx = st.mtx) (hsess : st1.sess = st.sess) (o1 : Option BanOc)
    (hocs : st1.ocs = Function.update st.ocs x o1) :
    BanInv re { st1.setMtx o.objhead none with lurker := .working b b0 } := by
  have hp1 := hp.frame hi.wf hwf hframe huntags hfol hlists hpass htags.pass
  have ht1 := htags.frame hframe huntags hfol hpass
  have hsame : Tags { st1.setMtx o.objhead none with lurker := .working b b0 } q β ∧
      PassAt re { st1.setMtx o.objhead none with lurker := .working b b0 } b b0 :=
    phase_same ht1 hp1 rfl rfl rfl rfl rfl
  have hresp := setOc_respects_own hgot.mtx hgot.att.1 hmtx o1 hocs
  have hstep : LurkStep re st { st1.setMtx o.objhead none with lurker := .working b b0 } := by
    refine ⟨hwf.congr rfl rfl rfl (fun _ => ⟨.refl _, rfl⟩) (fun _ _ => Iff.rfl) hwf.newborn,
      ⟨hframe.first, hframe.last, hframe.spec, hframe.gone, hframe.fresh⟩, hfol.keeps, ⟨fun oh h hm hne => ?_, hresp.oc⟩,
      hsess, fun y p c B _ _ _ h3 h4 => ?_⟩
    · change Function.update st1.mtx o.objhead none oh = some h
      rw [hmtx]
      exact freeMtx st hgot.mtx oh h hm hne
    · exact absurd (h3.symm.trans ((hgone B).symm.trans h4)) (by simp)
  exact hstep.inv hi ⟨q, β, hsame.1, hβ, hsame.2⟩

lemma lurkFinish_inv (hi : BanInv re st) (h : st.lurkFinish = some st') : BanInv re st' := by
  unfold lurkFinish at h
  obtain ⟨q, β, htags, hphase⟩ := hi.lurk
  cases hl : st.lurker with
  | checking b b0 c =>
    rw [hl] at hphase
    obtain ⟨hβ, hp, o, hgot, hck⟩ := hphase
    simp only [hl] at h
    obtain ⟨⟨st1, v⟩, hfin, h⟩ := Option.bind_eq_some_iff.mp h
    obtain ⟨o1, ho1, h⟩ := Option.bind_eq_some_iff.mp h
    obtain ⟨o2, a, hatt, hcases⟩ := checkFinish_cases hfin
    have e := Option.some.inj (hgot.att.1.symm.trans hatt.1)
    subst e
    have e := Option.some.inj (hgot.att.2.symm.trans hatt.2)
    subst e
    rcases hcases with ⟨hb, -, rfl, rfl⟩ | ⟨hb, rfl, rfl⟩ | ⟨hb, rfl, rfl⟩
    · have e := Option.some.inj (hgot.att.1.symm.trans ho1)
      subst e
      simp only [ite_true, Option.some.injEq] at h
      subst h
      have hbits : o.lurk ||| st1.pass = st1.pass := by rw [hgot.lurk, Nat.zero_or]
      rw [hbits]
      have hmem : c.oc ∈ (st1.ban b).objcore := (hi.wf.attached _ _).mpr ⟨o, hgot.att⟩
      have hperm : ((st1.ban b).objcore.erase c.oc ++ [c.oc]).Perm (st1.ban b).objcore :=
        (List.perm_append_singleton _ _).trans (List.perm_cons_erase hmem).symm
      set st2 : BanState := { ((st1.setBan b (fun y => { y with objcore := y.objcore.erase c.oc ++ [c.oc] })).setOc c.oc
        (some { o with lurk := st1.pass })).setMtx o.objhead none with lurker := .working b b0 } with hst2
      have hban : ∀ B, st2.ban B = if B = b then { st1.ban b with
          objcore := (st1.ban b).objcore.erase c.oc ++ [c.oc] } else st1.ban B :=
        fun B => setBan_apply st1 b (fun y => { y with objcore := y.objcore.erase c.oc ++ [c.oc] }) B
      have hsame : ∀ B, (st2.ban B).objcore.Perm (st1.ban B).objcore ∧ (st2.ban B).refcount = (st1.ban B).refcount ∧
          (st2.ban B).spec = (st1.ban B).spec ∧ (st2.ban B).gone = (st1.ban B).gone ∧
          (st2.ban B).lurk = (st1.ban B).lurk := by
        intro B
        rw [hban]
        by_cases hB : B = b
        · subst hB
          simpa using hperm
        · simp [hB]
      have hstep : LurkStep re st1 st2 :=
        retag_step hi hgot.att hgot.idle rfl rfl rfl rfl rfl
          (fun B => ⟨(hsame B).1, (hsame B).2.1, (hsame B).2.2.1, (hsame B).2.2.2.1⟩)
          (freeMtx st1 hgot.mtx) (Or.inr hgot.mtx)
      have hph : Tags st2 q β ∧ PassAt re st2 b b0 := by
        refine tag_phase hi.wf htags hp hgot.att hgot.idle (fun T h1 h2 h3 h4 => ?_) rfl rfl rfl
          (fun B => ⟨(hsame B).2.2.1, (hsame B).2.2.2.1, (hsame B).2.2.2.2⟩) ?_ rfl
        · exact hck.walked T (hb ▸ h1) (h2.trans hck.pass) h3 h4
        · rw [hban, if_pos rfl]
      exact hstep.inv hi ⟨q, β, hph.1, hβ, hph.2⟩
    · simp only [reduceCtorEq, ite_false, Option.some.injEq] at h
      subst h
      have ho1' : o1 = { o with ban := some c.b0 } := by
        have : (moved st c.oc o b c.b0).ocs c.oc = some { o with ban := some c.b0 } := Function.update_self _ _ _
        exact Option.some.inj (ho1.symm.trans this)
      subst ho1'
      obtain ⟨hframe, huntags, hgone⟩ := moved_frame st c.oc o hck.newer
      exact lurkLeave_inv hi htags hβ hp hgot (moved_wf hi.wf hgot.att hgot.idle hck.newer hck.front) hframe huntags hgone
        (moved_follows hgot.att hgot.lurk hck.newer) (moved_lists hgot.att hgot.lurk hck.newer) rfl rfl rfl _ rfl
    · simp only [reduceCtorEq, ite_false, Option.some.injEq] at h
      subst h
      have ho1' : o1 = { o with ban := none } := by
        have : (dropped st c.oc o b).ocs c.oc = some { o with ban := none } := Function.update_self _ _ _
        exact Option.some.inj (ho1.symm.trans this)
      subst ho1'
      obtain ⟨hframe, huntags, hgone⟩ := dropped_frame st c.oc o b
      have hwf : BanWf (dropped st c.oc o b) := by
        refine hi.wf.detach hgot.att (fun p' hp' => ?_)
        cases hp'
        exact ⟨rfl, fun hb => absurd (hgot.idle.symm.trans hb) (by simp)⟩
      exact lurkLeave_inv hi htags hβ hp hgot hwf hframe huntags hgone (dropped_follows st c.oc o b)
        (dropped_lists st c.oc o b) rfl rfl rfl _ rfl
  | idle => simp [hl] at h
  | tagging b b0 => simp [hl] at h
  | working b b0 => simp [hl] at h
  | got b b0 y => simp [hl] at h

end VarnishCache.Proofs
