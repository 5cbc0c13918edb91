import VarnishCache.Proofs.Ban

/-!
# The steps of sessions keep the invariant of the ban list
-/

namespace VarnishCache.Proofs

open VarnishCache BanState

variable {re : String → String → Bool} {st st' : BanState} {x a : Nat} {o : BanOc}

lemma BanWf.empty (h : BanWf st) (ha : st.first < a) : (st.ban a).objcore = [] := by
  refine List.eq_nil_iff_forall_not_mem.mpr (fun x hx => ?_)
  obtain ⟨o, ho⟩ := (h.attached x a).mp hx
  have := (h.inList x o a ho).2
  omega

/-- Which object is on which ban, and who refers to which ban, is unchanged. -/
lemma BanWf.congr (h : BanWf st) (hfirst : st'.first = st.first) (hlast : st'.last = st.last)
    (hhunts : st'.hunts = st.hunts)
    (hban : ∀ a, (st'.ban a).objcore.Perm (st.ban a).objcore ∧ (st'.ban a).refcount = (st.ban a).refcount)
    (hatt : ∀ x a, (∃ o, Att st' x o a) ↔ ∃ o, Att st x o a)
    (hborn : ∀ x o, st'.ocs x = some o → o.ban = none → o.busy = true → o.lurk = 0) : BanWf st' := by
  refine ⟨by rw [hlast]; exact h.last, by rw [hlast, hfirst]; exact h.order, ?_, ?_, ?_, ?_, ?_, hborn⟩
  · intro x a
    rw [(hban a).1.mem_iff, hatt]
    exact h.attached x a
  · intro a
    exact (hban a).1.nodup_iff.mpr (h.nodup a)
  · intro x o a ho
    obtain ⟨o', ho'⟩ := (hatt x a).mp ⟨o, ho⟩
    rw [hlast, hfirst]
    exact h.inList x o' a ho'
  · intro a
    rw [(hban a).1.length_eq, (hban a).2, hhunts]
    exact h.refs a
  · rw [hhunts, hlast, hfirst]
    exact h.hunts

lemma setOc_ban (st : BanState) (x : Nat) (o1 : Option BanOc) : (st.setOc x o1).ban = st.ban := rfl

lemma att_setOc (st : BanState) (x : Nat) (o1 : Option BanOc) (y : Nat) (o : BanOc) (a : Nat) :
    Att (st.setOc x o1) y o a ↔ (y = x ∧ o1 = some o ∧ o.ban = some a) ∨ (y ≠ x ∧ Att st y o a) := by
  unfold Att setOc
  by_cases hy : y = x
  · subst hy
    simp
  · simp [hy, Function.update_of_ne]

/-- An objcore that is replaced by one on the same ban. -/
lemma BanWf.setOc (h : BanWf st) (ho : st.ocs x = some o) {o' : BanOc} (hban : o'.ban = o.ban)
    (hborn : o'.ban = none → o'.busy = true → o'.lurk = 0) : BanWf (st.setOc x (some o')) := by
  refine h.congr rfl rfl rfl (fun a => ⟨.refl _, rfl⟩) (fun y a => ?_) (fun y p hp hn hb => ?_)
  · by_cases hy : y = x
    · subst hy
      simp [Att, BanState.setOc, ho, hban]
    · simp [att_setOc, hy]
  · by_cases hy : y = x
    · subst hy
      simp only [BanState.setOc, Function.update_self, Option.some.injEq] at hp
      subst hp
      exact hborn hn hb
    · simp only [BanState.setOc, Function.update_of_ne hy] at hp
      exact h.newborn y p hp hn hb

/-- An object leaves its ban. -/
lemma BanWf.detach (h : BanWf st) (hatt : Att st x o a) {o1 : Option BanOc}
    (ho1 : ∀ p, o1 = some p → p.ban = none ∧ (p.busy = true → p.lurk = 0)) :
    BanWf ((st.setBan a (fun b => { b with refcount := b.refcount - 1, objcore := b.objcore.erase x })).setOc x o1) := by
  have hmem : x ∈ (st.ban a).objcore := (h.attached x a).mpr ⟨o, hatt⟩
  have hobj : ∀ a', (Function.update st.ban a { st.ban a with
      refcount := (st.ban a).refcount - 1, objcore := (st.ban a).objcore.erase x } a').objcore =
      (st.ban a').objcore.erase x := by
    intro a'
    by_cases ha : a' = a
    · subst ha
      simp
    · rw [Function.update_of_ne ha]
      refine (List.erase_of_not_mem (fun hx => ha ?_)).symm
      obtain ⟨o', ho'⟩ := (h.attached x a').mp hx
      have e := Option.some.inj (ho'.1.symm.trans hatt.1)
      subst e
      exact Option.some.inj (ho'.2.symm.trans hatt.2)
  refine ⟨h.last, h.order, ?_, ?_, ?_, ?_, h.hunts, ?_⟩
  · intro y a'
    change y ∈ (Function.update st.ban a _ a').objcore ↔ _
    rw [hobj, (h.nodup a').mem_erase_iff, h.attached]
    simp only [att_setOc]
    constructor
    · rintro ⟨hy, p, hp⟩
      exact ⟨p, Or.inr ⟨hy, hp⟩⟩
    · rintro ⟨p, ⟨-, hp, hb⟩ | ⟨hy, hp⟩⟩
      · rw [(ho1 p hp).1] at hb
        cases hb
      · exact ⟨hy, p, hp⟩
  · intro a'
    change (Function.update st.ban a _ a').objcore.Nodup
    rw [hobj]
    exact (h.nodup a').erase x
  · intro y p a' hp
    rcases (att_setOc _ _ _ _ _ _).mp hp with ⟨-, hp, hb⟩ | ⟨-, hp⟩
    · rw [(ho1 p hp).1] at hb
      cases hb
    · exact h.inList y p a' hp
  · intro a'
    change (Function.update st.ban a _ a').refcount = (Function.update st.ban a _ a').objcore.length + _
    by_cases ha : a' = a
    · subst ha
      have hr := h.refs a'
      have hlen := List.length_erase_of_mem hmem
      have hpos := List.length_pos_of_mem hmem
      simp only [Function.update_self, hlen]
      change _ = _ + st.hunts.countP _
      omega
    · simp only [Function.update_of_ne ha]
      exact h.refs a'
  · intro y p hp hn hb
    by_cases hy : y = x
    · subst hy
      simp only [BanState.setOc, Function.update_self] at hp
      exact (ho1 p hp).2 hb
    · simp only [BanState.setOc, Function.update_of_ne hy] at hp
      exact h.newborn y p hp hn hb

/-- An object joins a ban of the list. -/
lemma BanWf.attach (h : BanWf st) (ho : st.ocs x = some o) (hn : o.ban = none) (hlo : st.last ≤ a) (hhi : a ≤ st.first)
    {o' : BanOc} (ho' : o'.ban = some a) :
    BanWf ((st.setBan a (fun b => { b with refcount := b.refcount + 1, objcore := b.objcore ++ [x] })).setOc x
      (some o')) := by
  have hnot : ∀ a', x ∉ (st.ban a').objcore := by
    intro a' hx
    obtain ⟨p, hp⟩ := (h.attached x a').mp hx
    have e := Option.some.inj (hp.1.symm.trans ho)
    subst e
    rw [hp.2] at hn
    cases hn
  have hobj : ∀ y a', y ∈ (Function.update st.ban a { st.ban a with
      refcount := (st.ban a).refcount + 1, objcore := (st.ban a).objcore ++ [x] } a').objcore ↔
      y ∈ (st.ban a').objcore ∨ (y = x ∧ a' = a) := by
    intro y a'
    by_cases ha : a' = a
    · subst ha
      simp
    · simp [ha]
  refine ⟨h.last, h.order, ?_, ?_, ?_, ?_, h.hunts, ?_⟩
  · intro y a'
    change y ∈ (Function.update st.ban a _ a').objcore ↔ _
    rw [hobj, h.attached]
    simp only [att_setOc]
    constructor
    · rintro (⟨p, hp⟩ | ⟨rfl, rfl⟩)
      · refine ⟨p, Or.inr ⟨?_, hp⟩⟩
        rintro rfl
        exact hnot a' ((h.attached _ _).mpr ⟨p, hp⟩)
      · exact ⟨o', Or.inl ⟨rfl, rfl, ho'⟩⟩
    · rintro ⟨p, ⟨rfl, hp, hb⟩ | ⟨-, hp⟩⟩
      · cases hp
        exact Or.inr ⟨rfl, (Option.some.inj (ho'.symm.trans hb)).symm⟩
      · exact Or.inl ⟨p, hp⟩
  · intro a'
    change (Function.update st.ban a _ a').objcore.Nodup
    by_cases ha : a' = a
    · subst ha
      simp only [Function.update_self]
      refine List.nodup_append.mpr ⟨h.nodup a', List.nodup_singleton x, fun y hy z hz e => ?_⟩
      rw [List.mem_singleton.mp hz] at e
      exact hnot a' (e ▸ hy)
    · rw [Function.update_of_ne ha]
      exact h.nodup a'
  · intro y p a' hp
    rcases (att_setOc _ _ _ _ _ _).mp hp with ⟨-, hp, hb⟩ | ⟨-, hp⟩
    · cases hp
      have e := Option.some.inj (ho'.symm.trans hb)
      subst e
      exact ⟨hlo, hhi⟩
    · exact h.inList y p a' hp
  · intro a'
    change (Function.update st.ban a _ a').refcount = (Function.update st.ban a _ a').objcore.length + _
    by_cases ha : a' = a
    · subst ha
      have hr := h.refs a'
      simp only [Function.update_self, List.length_append, List.length_singleton]
      change _ = _ + st.hunts.countP _
      omega
    · simp only [Function.update_of_ne ha]
      exact h.refs a'
  · intro y p hp hn' hb
    by_cases hy : y = x
    · subst hy
      simp only [BanState.setOc, Function.update_self, Option.some.injEq] at hp
      subst hp
      rw [ho'] at hn'
      cases hn'
    · simp only [BanState.setOc, Function.update_of_ne hy] at hp
      exact h.newborn y p hp hn' hb

lemma BanFrame.of_same (hfirst : st'.first = st.first) (hlast : st'.last = st.last)
    (hban : ∀ B, (st'.ban B).spec = (st.ban B).spec ∧ (st'.ban B).gone = (st.ban B).gone) : BanFrame st st' := by
  refine ⟨hfirst.ge, hlast, fun B _ => (hban B).1, fun B _ hg => ?_, fun B h1 h2 => ?_⟩
  · rw [(hban B).2]
    exact hg
  · omega

lemma BanFrame.of_ban (hfirst : st'.first = st.first) (hlast : st'.last = st.last) (hban : st'.ban = st.ban) :
    BanFrame st st' :=
  BanFrame.of_same hfirst hlast (fun B => by rw [hban]; exact ⟨rfl, rfl⟩)

lemma Untags.of_same (hfirst : st'.first = st.first)
    (hban : ∀ B, (st'.ban B).lurk = 0 ∨ (st'.ban B).lurk = (st.ban B).lurk) : Untags st st' :=
  fun B hB => (hban B).imp_right (fun hl => ⟨hfirst ▸ hB, hl⟩)

lemma Untags.of_ban (hfirst : st'.first = st.first) (hban : st'.ban = st.ban) : Untags st st' :=
  Untags.of_same hfirst (fun B => by rw [hban]; exact Or.inr rfl)

lemma Lists.of_ban (hban : st'.ban = st.ban) : Lists st st' := by
  intro a
  rw [hban]
  exact Or.inl (List.Sublist.refl _)

/-- A step that touches neither bans nor objcores. -/
lemma sessStep_of_same {actor : Option BanHolder} (hwf : BanWf st) (hfirst : st'.first = st.first)
    (hlast : st'.last = st.last) (hban : st'.ban = st.ban) (hocs : st'.ocs = st.ocs) (hhunts : st'.hunts = st.hunts)
    (hpass : st'.pass = st.pass) (hlurker : st'.lurker = st.lurker)
    (hmtx : ∀ oh h, st.mtx oh = some h → some h ≠ actor → st'.mtx oh = some h) (hactor : actor ≠ some .lurker) :
    SessStep actor st st' := by
  have hatt : ∀ x o a, Att st' x o a ↔ Att st x o a := by
    intro x o a
    rw [Att, Att, hocs]
  refine ⟨?_, BanFrame.of_ban hfirst hlast hban, Untags.of_ban hfirst hban, ?_, Lists.of_ban hban,
    hpass, hlurker, ⟨hmtx, ?_⟩, hactor⟩
  · refine hwf.congr hfirst hlast hhunts (fun a => by rw [hban]; exact ⟨.refl _, rfl⟩) (fun x a => by simp only [hatt]) ?_
    rw [hocs]
    exact hwf.newborn
  · intro x o a h
    exact Or.inl ⟨o, (hatt x o a).mp h, rfl, fun hb => ⟨hb, rfl⟩⟩
  · intro x o h ho _ _ _ _
    rw [hocs]
    exact ho

lemma lock_inv (hi : BanInv re st) {s oh : Nat} {req : BanHttp} (h : st.lock s oh req = some st') : BanInv re st' := by
  unfold BanState.lock at h
  split at h
  · cases h
  rename_i hfree
  cases h
  have hmtx : st.mtx oh = none := by simpa using (not_or.mp hfree).2
  have hstep : SessStep (some (.sess s)) st ((st.setMtx oh (some (.sess s))).setSess s
      (some { objhead := oh, req := req, check := none })) := by
    refine sessStep_of_same hi.wf rfl rfl rfl rfl rfl rfl rfl (fun oh' hd hm _ => ?_) (by simp)
    have hne : oh' ≠ oh := by
      rintro rfl
      rw [hmtx] at hm
      cases hm
    simpa [setMtx, setSess, Function.update_of_ne hne] using hm
  refine hstep.inv hi (fun _ _ => rfl) (fun t ht => ?_) (fun t σ ht hσ => ?_)
  · exact Function.update_of_ne (fun e => ht (by rw [e])) _ _
  · cases ht
    simp only [setSess, Function.update_self, Option.some.injEq] at hσ
    subst hσ
    refine ⟨by simp [setMtx, setSess], fun c hc => ?_⟩
    cases hc

lemma unlock_inv (hi : BanInv re st) {s : Nat} (h : st.unlock s = some st') : BanInv re st' := by
  unfold BanState.unlock at h
  obtain ⟨σ, hσ, h⟩ := Option.bind_eq_some_iff.mp h
  split at h
  · cases h
  cases h
  have hstep : SessStep (some (.sess s)) st ((st.setMtx σ.objhead none).setSess s none) := by
    refine sessStep_of_same hi.wf rfl rfl rfl rfl rfl rfl rfl (fun oh' hd hm hne => ?_) (by simp)
    have hoh : oh' ≠ σ.objhead := by
      rintro rfl
      rw [hi.sess.lock s σ hσ] at hm
      exact hne hm.symm
    simpa [setMtx, setSess, Function.update_of_ne hoh] using hm
  refine hstep.inv hi (fun _ _ => rfl) (fun t ht => ?_) (fun t σ' ht hσ' => ?_)
  · exact Function.update_of_ne (fun e => ht (by rw [e])) _ _
  · cases ht
    simp [setSess] at hσ'

/-- A session changes nothing but its own variables. -/
lemma setSess_inv (hi : BanInv re st) {s : Nat} {σ σ' : BanSess} (hσ : st.sess s = some σ)
    (hhead : σ'.objhead = σ.objhead) (hok : LookupOk re st σ') : BanInv re (st.setSess s (some σ')) := by
  have hstep : SessStep (some (.sess s)) st (st.setSess s (some σ')) :=
    sessStep_of_same hi.wf rfl rfl rfl rfl rfl rfl rfl (fun _ _ hm _ => hm) (by simp)
  refine hstep.inv hi (fun _ _ => rfl) (fun t ht => ?_) (fun t τ ht hτ => ?_)
  · exact Function.update_of_ne (fun e => ht (by rw [e])) _ _
  · cases ht
    simp only [setSess, Function.update_self, Option.some.injEq] at hτ
    subst hτ
    refine ⟨?_, fun c hc => ?_⟩
    · rw [hhead]
      exact hi.sess.lock s σ hσ
    · obtain ⟨o, a, hat⟩ := hok c hc
      exact ⟨o, a, hat.frame hstep.frame hat.att.1 (fun B _ _ h3 h4 => absurd (h3.symm.trans h4) (by simp))⟩

/-- A round of the loop of `ban_check_object` passes over the ban or ends with a match. -/
lemma checkWalk_cases {req : BanHttp} {c c' : BanCheck} (h : st.checkWalk re req c = some c') :
    ∃ o, st.ocs c.oc = some o ∧ c.hit = false ∧ o.ban ≠ some c.b ∧
      (((st.ban c.b).gone = true ∧ c' = { c with b := c.b - 1 }) ∨
        ((st.ban c.b).gone = false ∧ (st.ban c.b).lurk ≠ 0 ∧ (st.ban c.b).lurk = o.lurk ∧ c' = { c with b := c.b - 1 }) ∨
        (c.hasReq = false ∧ (st.ban c.b).req = true ∧ c' = { c with b := c.b - 1, skipped := c.skipped + 1 }) ∨
        (¬ (c.hasReq = false ∧ (st.ban c.b).req = true) ∧ banEvaluate re (st.ban c.b).spec o.http req = false ∧
          c' = { c with b := c.b - 1 }) ∨
        c' = { c with hit := true }) := by
  unfold checkWalk at h
  obtain ⟨o, ho, h⟩ := Option.bind_eq_some_iff.mp h
  simp only at h
  split_ifs at h with h1 h2 h3 h4 h5 h6
  · obtain ⟨k1, k2⟩ := not_or.mp h1
    cases h
    exact ⟨o, ho, by simpa using k1, k2, Or.inl ⟨h2, rfl⟩⟩
  · obtain ⟨k1, k2⟩ := not_or.mp h1
    cases h
    exact ⟨o, ho, by simpa using k1, k2, Or.inr (Or.inl ⟨by simpa using h2, h3.1, h3.2, rfl⟩)⟩
  · obtain ⟨k1, k2⟩ := not_or.mp h1
    cases h
    exact ⟨o, ho, by simpa using k1, k2, Or.inr (Or.inr (Or.inl ⟨h5.1, h5.2, rfl⟩))⟩
  · obtain ⟨k1, k2⟩ := not_or.mp h1
    cases h
    exact ⟨o, ho, by simpa using k1, k2, Or.inr (Or.inr (Or.inr (Or.inr rfl)))⟩
  · obtain ⟨k1, k2⟩ := not_or.mp h1
    cases h
    exact ⟨o, ho, by simpa using k1, k2, Or.inr (Or.inr (Or.inr (Or.inl ⟨h5, by simpa using h6, rfl⟩)))⟩

/-- A ban of the pass that has the tag of an object has been tested on it. -/
lemma BanInv.tag_tested (hi : BanInv re st) (hatt : Att st x o a) {B : Nat} (haB : a < B) (hB : B ≤ st.first)
    (hl : (st.ban B).lurk ≠ 0) (heq : (st.ban B).lurk = o.lurk) (hg : (st.ban B).gone = false) :
    Harmless re st B o.http := by
  obtain ⟨q, β, htags, hphase⟩ := hi.lurk
  have hlo : st.last ≤ B := (hi.wf.inList x o a hatt).1.trans haB.le
  have hreq := htags.bans B hlo hB hl
  have hpass : ∀ b b0, PassAt re st b b0 → Harmless re st B o.http := by
    intro b b0 hp
    obtain ⟨h1, h2⟩ := hp.tagged B hlo hB hl hg
    exact (hp.tested x o a hatt (heq.symm.trans h1)).2.2 B haB h2 hg hreq
  cases hlk : st.lurker with
  | idle =>
    rw [hlk] at hphase
    have := (hphase.2 B hlo hB hl hg).2
    omega
  | tagging b b0 =>
    rw [hlk] at hphase
    have h1 := (hphase.2.2.1 B hlo hB hl hg).1
    exact absurd (heq.symm.trans h1) (hphase.1 x o a hatt)
  | working b b0 =>
    rw [hlk] at hphase
    exact hpass b b0 hphase.2
  | got b b0 y =>
    rw [hlk] at hphase
    exact hpass b b0 hphase.2.1
  | checking b b0 c =>
    rw [hlk] at hphase
    exact hpass b b0 hphase.2.1

lemma LookupAt.step {σ : BanSess} {c : BanCheck} (h : LookupAt re st σ c o a) (hne : o.ban ≠ some c.b)
    (hcur : banEvaluate re (st.ban c.b).spec o.http σ.req = false) {σ' : BanSess} (hhead : σ'.objhead = σ.objhead)
    (hreq : σ'.req = σ.req) : LookupAt re st σ' { c with b := c.b - 1 } o a := by
  have hlt : a < c.b := by
    refine lt_of_le_of_ne h.low (fun e => hne ?_)
    rw [h.att.2, e]
  refine ⟨h.hasReq, h.att, h.head.trans hhead.symm, h.onHead, h.idle, h.newer, Nat.le_sub_one_of_lt hlt,
    (Nat.sub_le _ _).trans h.high, h.front, fun B h1 h2 => ?_, fun B h1 h2 hg => ?_⟩
  · rw [hreq]
    by_cases hB : B = c.b
    · rw [hB]
      exact hcur
    · have h1' : c.b - 1 < B := h1
      exact h.walked B (by omega) h2
  · rw [hreq]
    exact h.settled B h1 h2 hg

lemma lookupBegin_inv (hi : BanInv re st) {s : Nat} {v : Option BanVerdict} (h : st.lookupBegin s x = some (st', v)) :
    BanInv re st' := by
  unfold lookupBegin at h
  obtain ⟨σ, hσ, h⟩ := Option.bind_eq_some_iff.mp h
  obtain ⟨o, ho, h⟩ := Option.bind_eq_some_iff.mp h
  split at h
  · cases h
  rename_i hcond
  simp only [not_or, Bool.not_eq_true] at hcond
  obtain ⟨-, hhead, honHead, hbusy, hban⟩ := hcond
  split at h
  · cases h
    exact hi
  rename_i c hc
  cases h
  refine setSess_inv hi hσ rfl (fun c' hc' => ?_)
  cases hc'
  unfold checkBegin at hc
  split at hc
  · cases hc
  rename_i hfirst
  cases hc
  obtain ⟨a, ha⟩ := Option.ne_none_iff_exists'.mp hban
  have hin := hi.wf.inList x o a ⟨ho, ha⟩
  refine ⟨o, a, rfl, ⟨ho, ha⟩, not_ne_iff.mp hhead, by simpa using honHead, hbusy, ?_, hin.2, le_rfl, le_rfl, ?_, ?_⟩
  · refine lt_of_le_of_ne hin.2 (fun e => hfirst ?_)
    rw [ha, e]
  · intro B h1 h2
    exact absurd h1 (Nat.not_lt.mpr h2)
  · intro B h1 h2 hg
    rcases hi.guarded x o a ⟨ho, ha⟩ B h1 h2 hg with ⟨-, hh⟩ | hex
    · exact Or.inl (hh.2 _)
    · exact Or.inr hex

lemma lookupWalk_inv (hi : BanInv re st) {s : Nat} (h : st.lookupWalk re s = some st') : BanInv re st' := by
  unfold lookupWalk at h
  obtain ⟨σ, hσ, h⟩ := Option.bind_eq_some_iff.mp h
  obtain ⟨c, hc, h⟩ := Option.bind_eq_some_iff.mp h
  obtain ⟨c', hc', h⟩ := Option.bind_eq_some_iff.mp h
  cases h
  refine setSess_inv hi hσ rfl (fun c'' hc'' => ?_)
  cases hc''
  obtain ⟨p, a, hat⟩ := hi.sess.lookup s σ hσ c hc
  obtain ⟨o, ho, -, hne, hcases⟩ := checkWalk_cases hc'
  have e := Option.some.inj (hat.att.1.symm.trans ho)
  subst e
  have hlt : a < c.b := by
    refine lt_of_le_of_ne hat.low (fun e => hne ?_)
    rw [hat.att.2, e]
  rcases hcases with ⟨hg, rfl⟩ | ⟨hg, hl, heq, rfl⟩ | ⟨hr, -⟩ | ⟨-, hev, rfl⟩ | rfl
  · refine ⟨p, a, hat.step hne ?_ rfl rfl⟩
    rcases hat.settled c.b hlt hat.high hg with hs | ⟨B', h1, h2, h3, -⟩
    · exact hs
    · rw [← h3]
      exact hat.walked B' h1 h2
  · exact ⟨p, a, hat.step hne ((hi.tag_tested hat.att hlt (hat.high.trans hat.front) hl heq hg).2 _) rfl rfl⟩
  · rw [hat.hasReq] at hr
    cases hr
  · exact ⟨p, a, hat.step hne hev rfl rfl⟩
  · exact ⟨p, a, hat.hasReq, hat.att, hat.head, hat.onHead, hat.idle, hat.newer, hat.low, hat.high, hat.front,
      hat.walked, hat.settled⟩

lemma setOc_respects (hfree : ∀ o, st.ocs x = some o → o.onHead = true → o.busy = false → st.mtx o.objhead = none)
    (o1 : Option BanOc) : Respects none st (st.setOc x o1) := by
  refine ⟨fun oh h hm _ => hm, fun y p h hp hon hb hm _ => ?_⟩
  have hy : y ≠ x := by
    rintro rfl
    rw [hfree p hp hon hb] at hm
    cases hm
  simpa [BanState.setOc, Function.update_of_ne hy] using hp

/-- A step that changes an objcore nobody has locked, and neither its ban nor its tag. -/
lemma setOc_inv (hi : BanInv re st) (ho : st.ocs x = some o) {o' : BanOc} (hban : o'.ban = o.ban)
    (hlurk : o'.lurk = o.lurk)
    (hkeep : o.busy = false → o'.busy = false ∧ o'.http = o.http) (hborn : o'.ban = none → o'.busy = true → o.busy = true)
    (hfree : o.onHead = true → o.busy = false → st.mtx o.objhead = none) : BanInv re (st.setOc x (some o')) := by
  have hstep : SessStep none st (st.setOc x (some o')) := by
    refine ⟨hi.wf.setOc ho hban (fun h1 h2 => ?_), BanFrame.of_ban rfl rfl rfl, Untags.of_ban rfl rfl, ?_,
      Lists.of_ban rfl, rfl, rfl, ?_, by simp⟩
    · rw [hlurk]
      exact hi.wf.newborn x o ho (hban.symm.trans h1) (hborn h1 h2)
    · intro y p a hp
      rcases (att_setOc _ _ _ _ _ _).mp hp with ⟨rfl, hp, hb⟩ | ⟨-, hp⟩
      · cases hp
        exact Or.inl ⟨o, ⟨ho, hban.symm.trans hb⟩, hlurk, hkeep⟩
      · exact Or.inl ⟨p, hp, rfl, fun hb => ⟨hb, rfl⟩⟩
    · refine setOc_respects (fun p hp hon hb => ?_) _
      have e := Option.some.inj (ho.symm.trans hp)
      subst e
      exact hfree hon hb
  exact hstep.inv hi (fun _ _ => rfl) (fun _ _ => rfl) (fun _ _ ht => by cases ht)

lemma hshUnbusy_inv (hi : BanInv re st) {http : BanHttp} (h : st.hshUnbusy x http = some st') : BanInv re st' := by
  unfold hshUnbusy at h
  obtain ⟨o, ho, h⟩ := Option.bind_eq_some_iff.mp h
  split at h
  · cases h
  rename_i hcond
  simp only [not_or, Bool.not_eq_false] at hcond
  cases h
  refine setOc_inv hi ho rfl rfl (fun hb => ?_) (fun _ hb => ?_) (fun _ hb => ?_)
  · rw [hcond.1] at hb
    cases hb
  · cases hb
  · rw [hcond.1] at hb
    cases hb

lemma unlink_inv (hi : BanInv re st) (h : st.unlink x = some st') : BanInv re st' := by
  unfold BanState.unlink at h
  obtain ⟨o, ho, h⟩ := Option.bind_eq_some_iff.mp h
  split at h
  · cases h
  rename_i hcond
  cases h
  exact setOc_inv hi ho rfl rfl (fun hb => ⟨hb, rfl⟩) (fun _ hb => hb) (fun _ _ => by simpa using hcond)

lemma create_inv (hi : BanInv re st) {oh : Nat} (h : st.create x oh = some st') : BanInv re st' := by
  unfold BanState.create at h
  split at h
  · cases h
  rename_i hcond
  cases h
  have hx : st.ocs x = none := by simpa using (not_or.mp hcond).1
  have hatt : ∀ o1 : BanOc, o1.ban = none → ∀ y p a, Att (st.setOc x (some o1)) y p a ↔ Att st y p a := by
    intro o1 h1 y p a
    rw [att_setOc]
    constructor
    · rintro (⟨-, hp, hb⟩ | ⟨-, hp⟩)
      · cases hp
        rw [h1] at hb
        cases hb
      · exact hp
    · intro hp
      refine Or.inr ⟨?_, hp⟩
      rintro rfl
      exact absurd (hx.symm.trans hp.1) (by simp)
  suffices hstep : SessStep none st _ from
    hstep.inv hi (fun _ _ => rfl) (fun _ _ => rfl) (fun _ _ ht => by cases ht)
  refine ⟨?_, BanFrame.of_ban rfl rfl rfl, Untags.of_ban rfl rfl, ?_, Lists.of_ban rfl, rfl, rfl, ?_, by simp⟩
  · refine hi.wf.congr rfl rfl rfl (fun a => ⟨.refl _, rfl⟩)
      (fun y a => exists_congr (fun p => hatt _ rfl y p a)) (fun y p hp hn hb => ?_)
    by_cases hy : y = x
    · subst hy
      simp only [BanState.setOc, Function.update_self, Option.some.injEq] at hp
      subst hp
      rfl
    · simp only [BanState.setOc, Function.update_of_ne hy] at hp
      exact hi.wf.newborn y p hp hn hb
  · intro y p a hp
    exact Or.inl ⟨p, (hatt _ rfl y p a).mp hp, rfl, fun hb => ⟨hb, rfl⟩⟩
  · exact setOc_respects (fun p hp => by rw [hx] at hp; cases hp) _

lemma setBan_apply (st : BanState) (b : Nat) (f : Ban → Ban) (B : Nat) :
    (st.setBan b f).ban B = if B = b then f (st.ban b) else st.ban B := by
  by_cases hB : B = b
  · subst hB
    simp [setBan]
  · simp [setBan, hB]

/-- A change of the objects and references of a ban only. -/
lemma setBan_same (st : BanState) (b : Nat) {f : Ban → Ban}
    (hf : ∀ y, (f y).spec = y.spec ∧ (f y).gone = y.gone ∧ (f y).lurk = y.lurk) (B : Nat) :
    ((st.setBan b f).ban B).spec = (st.ban B).spec ∧ ((st.setBan b f).ban B).gone = (st.ban B).gone ∧
      ((st.setBan b f).ban B).lurk = (st.ban B).lurk := by
  rw [setBan_apply]
  by_cases hB : B = b
  · subst hB
    simpa using hf (st.ban B)
  · simp [hB]

lemma banNewObjCore_inv (hi : BanInv re st) (h : st.banNewObjCore x = some st') : BanInv re st' := by
  unfold banNewObjCore at h
  obtain ⟨o, ho, h⟩ := Option.bind_eq_some_iff.mp h
  split at h
  · cases h
  rename_i hcond
  simp only [not_or, Bool.not_eq_false, Bool.not_eq_true, Option.isSome_eq_false_iff, Option.isNone_iff_eq_none] at hcond
  cases h
  have hl := hi.wf.newborn x o ho hcond.2 hcond.1
  have hsame : ∀ B, _ := fun B => setBan_same st st.first
    (f := fun b => { b with refcount := b.refcount + 1, objcore := b.objcore ++ [x] }) (fun y => ⟨rfl, rfl, rfl⟩) B
  suffices hstep : SessStep none st _ from
    hstep.inv hi (fun B _ => (hsame B).2.1) (fun _ _ => rfl) (fun _ _ ht => by cases ht)
  refine ⟨hi.wf.attach ho hcond.2 hi.wf.order le_rfl rfl, ?_, ?_, ?_, ?_, rfl, rfl, ?_, by simp⟩
  · exact BanFrame.of_same rfl rfl (fun B => ⟨(hsame B).1, (hsame B).2.1⟩)
  · exact Untags.of_same rfl (fun B => Or.inr (hsame B).2.2)
  · intro y p a hp
    rcases (att_setOc _ _ _ _ _ _).mp hp with ⟨-, hp, hb⟩ | ⟨-, hp⟩
    · cases hp
      exact Or.inr (Or.inr ⟨Option.some.inj hb, hl⟩)
    · exact Or.inl ⟨p, hp, rfl, fun hb => ⟨hb, rfl⟩⟩
  · intro a
    by_cases ha : a = st.first
    · exact Or.inr (Or.inr ha.ge)
    · refine Or.inl ?_
      simp only [setOc_ban, setBan_apply, if_neg ha]
      exact List.Sublist.refl _
  · refine ⟨fun oh h hm _ => hm, fun y p h hp hon hb hm _ => ?_⟩
    have hy : y ≠ x := by
      rintro rfl
      have e := Option.some.inj (ho.symm.trans hp)
      subst e
      rw [hcond.1] at hb
      cases hb
    simpa [BanState.setOc, setBan, Function.update_of_ne hy] using hp

lemma banDestroyObj_inv (hi : BanInv re st) (h : st.banDestroyObj x = some st') : BanInv re st' := by
  unfold banDestroyObj at h
  obtain ⟨o, ho, h⟩ := Option.bind_eq_some_iff.mp h
  split at h
  · cases h
  rename_i hoff
  have hresp : ∀ p : BanOc, st.ocs x = some p → p.onHead = true → False := by
    intro p hp hon
    have e := Option.some.inj (ho.symm.trans hp)
    subst e
    exact hoff hon
  have hfol : ∀ y p a', Att (st.setOc x none) y p a' → Att st y p a' := by
    intro y p a' hp
    rcases (att_setOc _ _ _ _ _ _).mp hp with ⟨-, hp, -⟩ | ⟨-, hp⟩
    · cases hp
    · exact hp
  cases hban : o.ban with
  | none =>
    simp only [hban, Option.some.injEq] at h
    subst h
    suffices hstep : SessStep none st (st.setOc x none) from
      hstep.inv hi (fun _ _ => rfl) (fun _ _ => rfl) (fun _ _ ht => by cases ht)
    refine ⟨?_, BanFrame.of_ban rfl rfl rfl, Untags.of_ban rfl rfl, ?_, Lists.of_ban rfl, rfl, rfl, ?_, by simp⟩
    · refine hi.wf.congr rfl rfl rfl (fun a => ⟨.refl _, rfl⟩) (fun y a => ⟨?_, ?_⟩) (fun y p hp hn hb => ?_)
      · rintro ⟨p, hp⟩
        exact ⟨p, hfol y p a hp⟩
      · rintro ⟨p, hp⟩
        refine ⟨p, (att_setOc _ _ _ _ _ _).mpr (Or.inr ⟨?_, hp⟩)⟩
        rintro rfl
        have e := Option.some.inj (ho.symm.trans hp.1)
        subst e
        exact absurd (hban.symm.trans hp.2) (by simp)
      · by_cases hy : y = x
        · subst hy
          simp [BanState.setOc] at hp
        · simp only [BanState.setOc, Function.update_of_ne hy] at hp
          exact hi.wf.newborn y p hp hn hb
    · intro y p a' hp
      exact Or.inl ⟨p, hfol y p a' hp, rfl, fun hb => ⟨hb, rfl⟩⟩
    · exact setOc_respects (fun p hp hon _ => (hresp p hp hon).elim) _
  | some a =>
    simp only [hban, Option.some.injEq] at h
    have hswap : st' = (st.setBan a (fun b => { b with refcount := b.refcount - 1, objcore := b.objcore.erase x })).setOc
        x none := h.symm
    subst hswap
    have hsame : ∀ B, _ := fun B => setBan_same st a
      (f := fun b => { b with refcount := b.refcount - 1, objcore := b.objcore.erase x }) (fun y => ⟨rfl, rfl, rfl⟩) B
    suffices hstep : SessStep none st _ from
      hstep.inv hi (fun B _ => (hsame B).2.1) (fun _ _ => rfl) (fun _ _ ht => by cases ht)
    refine ⟨hi.wf.detach ⟨ho, hban⟩ (fun p hp => by cases hp), ?_, ?_, ?_, ?_, rfl, rfl, ?_, by simp⟩
    · exact BanFrame.of_same rfl rfl (fun B => ⟨(hsame B).1, (hsame B).2.1⟩)
    · exact Untags.of_same rfl (fun B => Or.inr (hsame B).2.2)
    · intro y p a' hp
      exact Or.inl ⟨p, hfol y p a' hp, rfl, fun hb => ⟨hb, rfl⟩⟩
    · intro a'
      refine Or.inl ?_
      simp only [setOc_ban, setBan_apply]
      split
      · rename_i e
        subst e
        exact List.erase_sublist
      · exact List.Sublist.refl _
    · refine ⟨fun oh h hm _ => hm, fun y p h hp hon hb hm _ => ?_⟩
      have hy : y ≠ x := by
        rintro rfl
        exact hresp p hp hon
      simpa [BanState.setOc, setBan, Function.update_of_ne hy] using hp

/-- The object moves from ban `a` to ban `b0`. -/
def moved (st : BanState) (x : Nat) (o : BanOc) (a b0 : Nat) : BanState :=
  (((st.setBan a (fun b => { b with refcount := b.refcount - 1, objcore := b.objcore.erase x })).setBan a
    (fun b => { b with lurk := 0 })).setBan b0
    (fun b => { b with refcount := b.refcount + 1, objcore := b.objcore ++ [x] })).setOc x
    (some { o with ban := some b0 })

/-- The object leaves ban `a` for good. -/
def dropped (st : BanState) (x : Nat) (o : BanOc) (a : Nat) : BanState :=
  (st.setBan a (fun b => { b with refcount := b.refcount - 1, objcore := b.objcore.erase x })).setOc x
    (some { o with ban := none })

lemma checkFinish_cases {c : BanCheck} {st1 : BanState} {v : BanVerdict} (h : st.checkFinish c = some (st1, v)) :
    ∃ o a, Att st c.oc o a ∧
      ((c.b = a ∧ c.hasReq = false ∧ v = .unsure ∧ st1 = st) ∨
        (c.b = a ∧ v = .notBanned ∧ st1 = moved st c.oc o a c.b0) ∨
        (c.b ≠ a ∧ v = .banned ∧ st1 = dropped st c.oc o a)) := by
  unfold checkFinish at h
  obtain ⟨o, ho, h⟩ := Option.bind_eq_some_iff.mp h
  obtain ⟨a, ha, h⟩ := Option.bind_eq_some_iff.mp h
  refine ⟨o, a, ⟨ho, ha⟩, ?_⟩
  split_ifs at h with h1 h2 h3 h4
  · cases h
    exact Or.inl ⟨h2.1, by simpa using h3, rfl, rfl⟩
  · cases h
    exact Or.inr (Or.inl ⟨h4, rfl, rfl⟩)
  · cases h
    exact Or.inr (Or.inr ⟨h4, rfl, rfl⟩)

/-- The lurker moves an object only if it has skipped no ban. -/
lemma checkFinish_skipped {c : BanCheck} {st1 : BanState} (h : st.checkFinish c = some (st1, .notBanned)) :
    c.skipped = 0 := by
  unfold checkFinish at h
  obtain ⟨o, ho, h⟩ := Option.bind_eq_some_iff.mp h
  obtain ⟨a, ha, h⟩ := Option.bind_eq_some_iff.mp h
  split_ifs at h with h1 h2 h3 h4
  · cases h
  · by_contra hne
    exact h2 ⟨h4, Nat.pos_of_ne_zero hne⟩
  · cases h

/-- The bans after an object has moved. -/
lemma moved_ban (st : BanState) (x : Nat) (o : BanOc) {a b0 : Nat} (hab : a < b0) (B : Nat) :
    (moved st x o a b0).ban B = if B = b0 then { st.ban b0 with
        refcount := (st.ban b0).refcount + 1, objcore := (st.ban b0).objcore ++ [x] }
      else if B = a then { st.ban a with
        refcount := (st.ban a).refcount - 1, objcore := (st.ban a).objcore.erase x, lurk := 0 }
      else st.ban B := by
  have hne : b0 ≠ a := Nat.ne_of_gt hab
  simp only [moved, setOc_ban, setBan_apply, if_neg hne, ite_true]
  by_cases h : B = a
  · simp [h]
  · simp [h]

lemma moved_wf (hwf : BanWf st) (hatt : Att st x o a) (hidle : o.busy = false) {b0 : Nat} (hab : a < b0)
    (hb0 : b0 ≤ st.first) : BanWf (moved st x o a b0) := by
  have h1 : BanWf (dropped st x o a) := by
    refine hwf.detach hatt (fun p hp => ?_)
    cases hp
    exact ⟨rfl, fun hb => absurd (hidle.symm.trans hb) (by simp)⟩
  have h2 : (dropped st x o a).ocs x = some { o with ban := none } := by simp [dropped, BanState.setOc]
  have hlo : (dropped st x o a).last ≤ b0 := (hwf.inList x o a hatt).1.trans hab.le
  have hnew : ({ o with ban := some b0 } : BanOc).ban = some b0 := rfl
  have h3 := h1.attach h2 rfl hlo hb0 hnew
  have hne : b0 ≠ a := Nat.ne_of_gt hab
  have hocs : (moved st x o a b0).ocs = ((dropped st x o a).setOc x (some { o with ban := some b0 })).ocs := by
    simp [moved, dropped, BanState.setOc, setBan]
  refine h3.congr rfl rfl rfl (fun B => ?_) (fun y B => ?_) ?_
  · simp only [moved_ban st x o hab, dropped, setOc_ban, setBan_apply, if_neg hne]
    by_cases hB : B = b0
    · subst hB
      simp
    · by_cases hBa : B = a
      · subst hBa
        simp [hB]
      · simp [hB, hBa]
  · unfold Att
    rw [hocs]
    rfl
  · rw [hocs]
    exact h3.newborn

lemma moved_frame (st : BanState) (x : Nat) (o : BanOc) {a b0 : Nat} (hab : a < b0) :
    BanFrame st (moved st x o a b0) ∧ Untags st (moved st x o a b0) ∧
      ∀ B, ((moved st x o a b0).ban B).gone = (st.ban B).gone := by
  have hall : ∀ B, ((moved st x o a b0).ban B).spec = (st.ban B).spec ∧
      ((moved st x o a b0).ban B).gone = (st.ban B).gone ∧
      (((moved st x o a b0).ban B).lurk = 0 ∨ ((moved st x o a b0).ban B).lurk = (st.ban B).lurk) := by
    intro B
    rw [moved_ban st x o hab]
    by_cases h1 : B = b0
    · subst h1
      simp
    · by_cases h2 : B = a
      · subst h2
        simp [h1]
      · simp [h1, h2]
  exact ⟨BanFrame.of_same rfl rfl (fun B => ⟨(hall B).1, (hall B).2.1⟩),
    Untags.of_same rfl (fun B => (hall B).2.2), fun B => (hall B).2.1⟩

lemma moved_follows (hatt : Att st x o a) (hlurk : o.lurk = 0) {b0 : Nat} (hab : a < b0) :
    Follows st (moved st x o a b0) := by
  intro y p a' hp
  rcases (att_setOc _ _ _ _ _ _).mp hp with ⟨rfl, hp, hb⟩ | ⟨-, hp⟩
  · cases hp
    have e : b0 = a' := Option.some.inj hb
    subst e
    exact Or.inr (Or.inl ⟨o, a, hatt, hab, hlurk, hlurk, fun hb => ⟨hb, rfl⟩⟩)
  · exact Or.inl ⟨p, hp, rfl, fun hb => ⟨hb, rfl⟩⟩

lemma moved_lists (hatt : Att st x o a) (hlurk : o.lurk = 0) {b0 : Nat} (hab : a < b0) :
    Lists st (moved st x o a b0) := by
  intro B
  rw [moved_ban st x o hab]
  by_cases h1 : B = b0
  · subst h1
    exact Or.inr (Or.inl ⟨x, o, a, hatt, hab, hlurk⟩)
  · refine Or.inl ?_
    rw [if_neg h1]
    by_cases h2 : B = a
    · subst h2
      simpa using List.erase_sublist
    · simp [h2]

lemma dropped_frame (st : BanState) (x : Nat) (o : BanOc) (a : Nat) :
    BanFrame st (dropped st x o a) ∧ Untags st (dropped st x o a) ∧
      ∀ B, ((dropped st x o a).ban B).gone = (st.ban B).gone := by
  have hsame : ∀ B, _ := fun B => setBan_same st a
    (f := fun b => { b with refcount := b.refcount - 1, objcore := b.objcore.erase x }) (fun y => ⟨rfl, rfl, rfl⟩) B
  exact ⟨BanFrame.of_same rfl rfl (fun B => ⟨(hsame B).1, (hsame B).2.1⟩),
    Untags.of_same rfl (fun B => Or.inr (hsame B).2.2), fun B => (hsame B).2.1⟩

lemma dropped_follows (st : BanState) (x : Nat) (o : BanOc) (a : Nat) : Follows st (dropped st x o a) := by
  intro y p a' hp
  rcases (att_setOc _ _ _ _ _ _).mp hp with ⟨-, hp, hb⟩ | ⟨-, hp⟩
  · cases hp
    cases hb
  · exact Or.inl ⟨p, hp, rfl, fun hb => ⟨hb, rfl⟩⟩

lemma dropped_lists (st : BanState) (x : Nat) (o : BanOc) (a : Nat) : Lists st (dropped st x o a) := by
  intro B
  refine Or.inl ?_
  simp only [dropped, setOc_ban, setBan_apply]
  split
  · rename_i e
    subst e
    exact List.erase_sublist
  · exact List.Sublist.refl _

lemma setOc_respects_own {actor : BanHolder} (hm : st.mtx o.objhead = some actor) (ho : st.ocs x = some o)
    {st1 : BanState} (hmtx : st1.mtx = st.mtx) (o1 : Option BanOc) (hocs : st1.ocs = Function.update st.ocs x o1) :
    Respects (some actor) st st1 := by
  refine ⟨fun oh h hm _ => by rw [hmtx]; exact hm, fun y p h hp hon hb hm' hne => ?_⟩
  have hy : y ≠ x := by
    rintro rfl
    have e := Option.some.inj (ho.symm.trans hp)
    subst e
    exact hne (by rw [← hm, hm'])
  rw [hocs, Function.update_of_ne hy]
  exact hp

/-- A lookup ends, under the condition that an object without a match has no tag. -/
lemma lookupFinish_inv (hi : BanInv re st) {s : Nat} {v : Option BanVerdict} (h : st.lookupFinish s = some (st', v))
    (hcond : ∀ σ c oc, st.sess s = some σ → σ.check = some c → st.ocs c.oc = some oc → oc.ban = some c.b → oc.lurk = 0) :
    BanInv re st' := by
  unfold lookupFinish at h
  obtain ⟨σ, hσ, h⟩ := Option.bind_eq_some_iff.mp h
  obtain ⟨c, hc, h⟩ := Option.bind_eq_some_iff.mp h
  obtain ⟨⟨st1, w⟩, hfin, h⟩ := Option.bind_eq_some_iff.mp h
  cases h
  obtain ⟨p, a, hat⟩ := hi.sess.lookup s σ hσ c hc
  obtain ⟨o, a', hatt, hcases⟩ := checkFinish_cases hfin
  have e := Option.some.inj (hat.att.1.symm.trans hatt.1)
  subst e
  have e := Option.some.inj (hat.att.2.symm.trans hatt.2)
  subst e
  set st2 := st.setSess s (some { σ with check := none }) with hst2
  have hi2 : BanInv re st2 := setSess_inv hi hσ rfl (fun c' hc' => by cases hc')
  have hatt2 : Att st2 c.oc p a := hatt
  have hm2 : st2.mtx p.objhead = some (.sess s) := by
    rw [hat.head]
    exact hi.sess.lock s σ hσ
  have hown : ∀ st3 : BanState, st3.sess = st2.sess → st3.mtx = st2.mtx → ∀ t τ, some (BanHolder.sess t) = some (.sess s) →
      st3.sess t = some τ → st3.mtx τ.objhead = some (.sess t) ∧ LookupOk re st3 τ := by
    intro st3 h1 h2 t τ ht hτ
    cases ht
    rw [h1] at hτ
    have hτ' : τ = { σ with check := none } := by
      simpa [hst2, setSess] using hτ.symm
    refine ⟨?_, fun c' hc' => ?_⟩
    · rw [h2]
      exact hi2.sess.lock s τ hτ
    · rw [hτ'] at hc'
      cases hc'
  rcases hcases with ⟨-, hr, -⟩ | ⟨hb, -, rfl⟩ | ⟨hb, -, rfl⟩
  · rw [hat.hasReq] at hr
    cases hr
  · have hl : p.lurk = 0 := hcond σ c p hσ hc hatt.1 (by rw [hatt.2, hb])
    obtain ⟨hframe, huntags, hgone⟩ := moved_frame st2 c.oc p hat.newer
    have hstep : SessStep (some (.sess s)) st2 (moved st2 c.oc p a c.b0) :=
      ⟨moved_wf hi2.wf hatt2 hat.idle hat.newer hat.front, hframe, huntags, moved_follows hatt2 hl hat.newer,
        moved_lists hatt2 hl hat.newer, rfl, rfl, setOc_respects_own hm2 hatt2.1 rfl _ rfl, by simp⟩
    exact hstep.inv hi2 (fun B _ => hgone B) (fun _ _ => rfl) (hown _ rfl rfl)
  · obtain ⟨hframe, huntags, hgone⟩ := dropped_frame st2 c.oc p a
    have hwf : BanWf (dropped st2 c.oc p a) := by
      refine hi2.wf.detach hatt2 (fun p' hp' => ?_)
      cases hp'
      exact ⟨rfl, fun hb => absurd (hat.idle.symm.trans hb) (by simp)⟩
    have hstep : SessStep (some (.sess s)) st2 (dropped st2 c.oc p a) :=
      ⟨hwf, hframe, huntags, dropped_follows st2 c.oc p a, dropped_lists st2 c.oc p a, rfl, rfl,
        setOc_respects_own hm2 hatt2.1 rfl _ rfl, by simp⟩
    exact hstep.inv hi2 (fun B _ => hgone B) (fun _ _ => rfl) (hown _ rfl rfl)

end VarnishCache.Proofs
