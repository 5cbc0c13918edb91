import VarnishCache.Proofs.BanSince

/-!
# Duplicate bans

With the lurker off, a run in which `BAN_Insert` hunts down duplicates is compared with the run that keeps all
bans. The two go in step: a ban that only the first run skips has a newer duplicate, which the lookup has tested
before, unless the lookup began before the duplicate came.
-/

namespace VarnishCache.Proofs

open VarnishCache BanState

variable {re : String → String → Bool} {st st' k : BanState}

/-- The steps there are while `ban_lurker_sleep` is 0; the thread still retires the last ban. -/
def lurkerOff : BanAct → Bool
  | .startPass => false
  | .tag => false
  | .look => false
  | .lurkBegin => false
  | .lurkWalk => false
  | .lurkFinish => false
  | _ => true

/-- The step in the run with `ban_dups` off. -/
def keepAct : BanAct → Option BanAct
  | .insert spec _ => some (.insert spec false)
  | .hunt _ => none
  | act => some act

/-- The last state and the verdicts of all lookups, in order. -/
def banVerdicts (re : String → String → Bool) : BanState → List BanAct → Option (BanState × List BanVerdict)
  | st, [] => some (st, [])
  | st, act :: acts => do
    let (st1, v) ← st.exec re act
    let (st2, vs) ← banVerdicts re st1 acts
    some (st2, v.toList ++ vs)

/-- Every step of a run meets `P`. -/
def MeetsAll (re : String → String → Bool) (P : BanState → BanAct → Prop) : BanState → List BanAct → Prop
  | _, [] => True
  | st, act :: acts => P st act ∧ ∀ st1 v, st.exec re act = some (st1, v) → MeetsAll re P st1 acts

/-- A duplicate that is marked gone does not match the object of a lookup that began before the new ban and has
not come to it yet. -/
def DupCond (re : String → String → Bool) (st : BanState) : BanAct → Prop
  | .hunt p => ∀ s σ c oc a i, st.sess s = some σ → σ.check = some c → st.ocs c.oc = some oc → oc.ban = some a →
      c.b0 < p.1 → a < i → i ≤ c.b → st.isDup p i = true → banEvaluate re (st.ban i).spec oc.http σ.req = false
  | _ => True

/-- The same ban in the two runs. -/
structure Alike (b b' : Ban) : Prop where
  spec : b'.spec = b.spec
  objcore : b'.objcore = b.objcore
  gone : b'.gone = true → b.gone = true
  lurk : b.lurk = 0
  lurk' : b'.lurk = 0

/-- `k` is where the run without elimination is when the other is at `st`. -/
structure Twin (st k : BanState) : Prop where
  first : k.first = st.first
  ocs : k.ocs = st.ocs
  mtx : k.mtx = st.mtx
  sess : k.sess = st.sess
  idle : st.lurker = .idle
  idle' : k.lurker = .idle
  bans : ∀ B, Alike (st.ban B) (k.ban B)
  tags : ∀ x o, st.ocs x = some o → o.lurk = 0

lemma Twin.init : Twin .init .init where
  first := rfl
  ocs := rfl
  mtx := rfl
  sess := rfl
  idle := rfl
  idle' := rfl
  bans _ := ⟨rfl, rfl, fun h => h, rfl, rfl⟩
  tags x o h := by cases h

lemma Twin.setBan (h : Twin st k) (b : Nat) {f g : Ban → Ban} (hfg : ∀ y z, Alike y z → Alike (f y) (g z)) :
    Twin (st.setBan b f) (k.setBan b g) :=
  { h with
    bans := by
      intro B
      rw [setBan_apply, setBan_apply]
      split
      · exact hfg _ _ (h.bans b)
      · exact h.bans B }

lemma Twin.setOc (h : Twin st k) (x : Nat) {o : Option BanOc} (ho : ∀ p, o = some p → p.lurk = 0) :
    Twin (st.setOc x o) (k.setOc x o) :=
  { h with
    ocs := by
      change Function.update k.ocs x o = Function.update st.ocs x o
      rw [h.ocs]
    tags := by
      intro y p hp
      change Function.update st.ocs x o y = some p at hp
      by_cases hy : y = x
      · subst hy
        rw [Function.update_self] at hp
        exact ho p hp
      · rw [Function.update_of_ne hy] at hp
        exact h.tags y p hp }

lemma Twin.setSess (h : Twin st k) (s : Nat) (σ : Option BanSess) : Twin (st.setSess s σ) (k.setSess s σ) :=
  { h with
    sess := by
      change Function.update k.sess s σ = Function.update st.sess s σ
      rw [h.sess] }

lemma Twin.setMtx (h : Twin st k) (oh : Nat) (m : Option BanHolder) : Twin (st.setMtx oh m) (k.setMtx oh m) :=
  { h with
    mtx := by
      change Function.update k.mtx oh m = Function.update st.mtx oh m
      rw [h.mtx] }

/-- A ban in both runs that only the first one skips. -/
lemma Twin.skipped (h : Twin st k) (hi : BanInv re st) {s : Nat} {σ : BanSess} {c : BanCheck} {o : BanOc}
    (hσ : st.sess s = some σ) (hc : σ.check = some c) (ho : st.ocs c.oc = some o) (hne : o.ban ≠ some c.b)
    (hgone : (st.ban c.b).gone = true) : banEvaluate re (k.ban c.b).spec o.http σ.req = false := by
  obtain ⟨o', a, hat⟩ := hi.sess.lookup s σ hσ c hc
  obtain rfl : o' = o := Option.some.inj (hat.att.1.symm.trans ho)
  have hab : a < c.b := by
    refine lt_of_le_of_ne hat.low ?_
    rintro rfl
    exact hne hat.att.2
  rw [(h.bans c.b).spec]
  rcases hat.settled c.b hab hat.high hgone with hfalse | ⟨B', hlt, hle, hspec, -⟩
  · exact hfalse
  · rw [← hspec]
    exact hat.walked B' hlt hle

lemma Twin.checkWalk (h : Twin st k) (hi : BanInv re st) {s : Nat} {σ : BanSess} {c c' : BanCheck}
    (hσ : st.sess s = some σ) (hc : σ.check = some c) (hw : st.checkWalk re σ.req c = some c') :
    k.checkWalk re σ.req c = some c' := by
  obtain ⟨o, ho, hw⟩ := Option.bind_eq_some_iff.mp hw
  obtain ⟨o', a, hat⟩ := hi.sess.lookup s σ hσ c hc
  unfold BanState.checkWalk
  rw [h.ocs, ho]
  simp only [Option.bind_eq_bind, Option.bind_some, (h.bans c.b).lurk', ne_eq, not_true_eq_false, false_and, if_false,
    hat.hasReq, Bool.true_eq_false]
  simp only [(h.bans c.b).lurk, ne_eq, not_true_eq_false, false_and, if_false, hat.hasReq, Bool.true_eq_false] at hw
  split at hw
  · cases hw
  rename_i hloop
  rw [if_neg hloop]
  push Not at hloop
  by_cases hk : (k.ban c.b).gone = true
  · rw [if_pos ((h.bans c.b).gone hk)] at hw
    rw [if_pos hk]
    exact hw
  · rw [if_neg hk]
    by_cases hst : (st.ban c.b).gone = true
    · rw [if_pos hst] at hw
      rw [h.skipped hi hσ hc ho hloop.2 hst]
      exact hw
    · rw [if_neg hst] at hw
      rw [(h.bans c.b).spec]
      exact hw

lemma Twin.checkFinish (h : Twin st k) {c : BanCheck} {v : BanVerdict} (hf : st.checkFinish c = some (st', v)) :
    ∃ k', k.checkFinish c = some (k', v) ∧ Twin st' k' := by
  unfold BanState.checkFinish at hf ⊢
  obtain ⟨o, ho, hf⟩ := Option.bind_eq_some_iff.mp hf
  obtain ⟨a, ha, hf⟩ := Option.bind_eq_some_iff.mp hf
  have hlurk := h.tags c.oc o ho
  have hdrop : Twin (st.setBan a (fun b => { b with refcount := b.refcount - 1, objcore := b.objcore.erase c.oc }))
      (k.setBan a (fun b => { b with refcount := b.refcount - 1, objcore := b.objcore.erase c.oc })) :=
    h.setBan a (fun y z hyz => { hyz with objcore := by simp only [hyz.objcore] })
  rw [h.ocs, ho]
  simp only [Option.bind_eq_bind, Option.bind_some, ha]
  split_ifs at hf ⊢ with h1 h2 h3 h4
  · cases hf
    exact ⟨k, rfl, h⟩
  · cases hf
    refine ⟨_, rfl, Twin.setOc ?_ _ ?_⟩
    · refine (hdrop.setBan a ?_).setBan c.b0 ?_
      · exact fun y z hyz => { hyz with lurk := rfl, lurk' := rfl }
      · exact fun y z hyz => { hyz with objcore := by simp only [hyz.objcore] }
    · rintro p hp
      cases hp
      exact hlurk
  · cases hf
    refine ⟨_, rfl, hdrop.setOc _ ?_⟩
    rintro p hp
    cases hp
    exact hlurk

lemma Twin.insert (h : Twin st k) (spec : List BanTest) (dups : Bool) :
    Twin (st.banInsert spec dups) (k.banInsert spec false) := by
  rw [banInsert_eq, banInsert_eq, if_neg Bool.false_ne_true]
  have hnew : Twin (inserted st spec) (inserted k spec) :=
    { h with
      first := by simp only [inserted, h.first]
      bans := by
        intro B
        simp only [inserted, h.first]
        by_cases hB : B = st.first + 1
        · subst hB
          simp only [Function.update_self]
          exact ⟨rfl, rfl, fun hg => hg, rfl, rfl⟩
        · simp only [Function.update_of_ne hB]
          exact h.bans B }
  cases dups with
  | false => exact hnew
  | true =>
    exact
      { hnew with
        bans := by
          intro B
          rw [if_pos rfl, hunting_ban]
          split
          · rename_i hB
            subst hB
            exact { hnew.bans _ with }
          · exact hnew.bans B }

/-- The duplicates are gone in the one run only. -/
lemma Twin.hunt (h : Twin st k) {p : Nat × Nat} (hh : st.banHunt p = some st') : Twin st' k := by
  have hban := banHunt_ban hh
  unfold banHunt at hh
  split at hh
  · cases hh
  cases hh
  exact
    { h with
      bans := by
        intro B
        obtain ⟨hspec, hlurk, hobj, hgone, -⟩ := hban B
        have hB := h.bans B
        exact
          { spec := by rw [hspec, hB.spec]
            objcore := by rw [hobj, hB.objcore]
            gone := by
              intro hg
              rw [hgone, hB.gone hg, Bool.true_or]
            lurk := by rw [hlurk, hB.lurk]
            lurk' := hB.lurk' } }

lemma Twin.checkLast (h : Twin st k) (hk : BanWf k) (hexec : st.banCheckLast = some st') :
    ∃ k', k.banCheckLast = some k' ∧ Twin st' k' := by
  have hst : Twin st' k := by
    simp only [banCheckLast, h.idle] at hexec
    split at hexec
    · split at hexec
      · cases hexec
      · cases hexec
        exact { h with idle := rfl }
    · cases hexec
      exact h
  simp only [banCheckLast, h.idle']
  split
  · rename_i hlast
    have hnil : (k.ban k.last).objcore = [] := by
      have hrefs := hk.refs k.last
      rw [← List.length_eq_zero_iff]
      omega
    rw [if_neg (not_not.mpr hnil)]
    exact ⟨_, rfl, { hst with idle' := rfl }⟩
  · exact ⟨k, rfl, hst⟩

lemma Twin.lookupBegin (h : Twin st k) {s x : Nat} {v : Option BanVerdict}
    (hexec : st.lookupBegin s x = some (st', v)) : ∃ k', k.lookupBegin s x = some (k', v) ∧ Twin st' k' := by
  unfold BanState.lookupBegin at hexec ⊢
  rw [h.sess, h.ocs]
  obtain ⟨σ, hσ, hexec⟩ := Option.bind_eq_some_iff.mp hexec
  obtain ⟨o, ho, hexec⟩ := Option.bind_eq_some_iff.mp hexec
  simp only [hσ, ho, Option.bind_eq_bind, Option.bind_some]
  split at hexec
  · cases hexec
  rename_i hcond
  rw [if_neg hcond]
  unfold checkBegin at hexec ⊢
  rw [h.first]
  by_cases hfirst : o.ban = some st.first
  · simp only [hfirst, if_true] at hexec ⊢
    cases hexec
    exact ⟨k, rfl, h⟩
  · simp only [hfirst, if_false] at hexec ⊢
    cases hexec
    exact ⟨_, rfl, h.setSess s _⟩

lemma Twin.lookupWalk (h : Twin st k) (hi : BanInv re st) {s : Nat} (hexec : st.lookupWalk re s = some st') :
    ∃ k', k.lookupWalk re s = some k' ∧ Twin st' k' := by
  unfold BanState.lookupWalk at hexec ⊢
  rw [h.sess]
  obtain ⟨σ, hσ, hexec⟩ := Option.bind_eq_some_iff.mp hexec
  obtain ⟨c, hc, hexec⟩ := Option.bind_eq_some_iff.mp hexec
  obtain ⟨c', hw, hexec⟩ := Option.bind_eq_some_iff.mp hexec
  cases hexec
  simp only [hσ, hc, Option.bind_eq_bind, Option.bind_some, h.checkWalk hi hσ hc hw]
  exact ⟨_, rfl, h.setSess s _⟩

lemma Twin.lookupFinish (h : Twin st k) {s : Nat} {v : Option BanVerdict}
    (hexec : st.lookupFinish s = some (st', v)) : ∃ k', k.lookupFinish s = some (k', v) ∧ Twin st' k' := by
  unfold BanState.lookupFinish at hexec ⊢
  rw [h.sess]
  obtain ⟨σ, hσ, hexec⟩ := Option.bind_eq_some_iff.mp hexec
  obtain ⟨c, hc, hexec⟩ := Option.bind_eq_some_iff.mp hexec
  obtain ⟨⟨st1, w⟩, hf, hexec⟩ := Option.bind_eq_some_iff.mp hexec
  obtain ⟨k1, hf', h1⟩ := h.checkFinish hf
  cases hexec
  simp only [hσ, hc, Option.bind_eq_bind, Option.bind_some, hf']
  exact ⟨_, rfl, h1.setSess s _⟩

lemma Twin.create (h : Twin st k) {x oh : Nat} (hexec : st.create x oh = some st') :
    ∃ k', k.create x oh = some k' ∧ Twin st' k' := by
  unfold BanState.create at hexec ⊢
  rw [h.ocs, h.mtx]
  split at hexec
  · cases hexec
  rename_i hcond
  cases hexec
  rw [if_neg hcond]
  refine ⟨_, rfl, h.setOc x ?_⟩
  rintro p hp
  cases hp
  rfl

lemma Twin.banNewObjCore (h : Twin st k) {x : Nat} (hexec : st.banNewObjCore x = some st') :
    ∃ k', k.banNewObjCore x = some k' ∧ Twin st' k' := by
  unfold BanState.banNewObjCore at hexec ⊢
  rw [h.ocs, h.first]
  obtain ⟨o, ho, hexec⟩ := Option.bind_eq_some_iff.mp hexec
  simp only [ho, Option.bind_eq_bind, Option.bind_some]
  split at hexec
  · cases hexec
  rename_i hcond
  cases hexec
  rw [if_neg hcond]
  have hfirst : (k.setBan st.first (fun b => { b with refcount := b.refcount + 1, objcore := b.objcore ++ [x] })).first =
      (st.setBan st.first (fun b => { b with refcount := b.refcount + 1, objcore := b.objcore ++ [x] })).first := h.first
  rw [hfirst]
  refine ⟨_, rfl, (h.setBan st.first ?_).setOc x ?_⟩
  · exact fun y z hyz => { hyz with objcore := by simp only [hyz.objcore] }
  · rintro p hp
    cases hp
    exact h.tags x o ho

lemma Twin.hshUnbusy (h : Twin st k) {x : Nat} {http : BanHttp} (hexec : st.hshUnbusy x http = some st') :
    ∃ k', k.hshUnbusy x http = some k' ∧ Twin st' k' := by
  unfold BanState.hshUnbusy at hexec ⊢
  rw [h.ocs, h.mtx]
  obtain ⟨o, ho, hexec⟩ := Option.bind_eq_some_iff.mp hexec
  simp only [ho, Option.bind_eq_bind, Option.bind_some]
  split at hexec
  · cases hexec
  rename_i hcond
  cases hexec
  rw [if_neg hcond]
  refine ⟨_, rfl, h.setOc x ?_⟩
  rintro p hp
  cases hp
  exact h.tags x o ho

lemma Twin.unlink (h : Twin st k) {x : Nat} (hexec : st.unlink x = some st') :
    ∃ k', k.unlink x = some k' ∧ Twin st' k' := by
  unfold BanState.unlink at hexec ⊢
  rw [h.ocs, h.mtx]
  obtain ⟨o, ho, hexec⟩ := Option.bind_eq_some_iff.mp hexec
  simp only [ho, Option.bind_eq_bind, Option.bind_some]
  split at hexec
  · cases hexec
  rename_i hcond
  cases hexec
  rw [if_neg hcond]
  refine ⟨_, rfl, h.setOc x ?_⟩
  rintro p hp
  cases hp
  exact h.tags x o ho

lemma Twin.banDestroyObj (h : Twin st k) {x : Nat} (hexec : st.banDestroyObj x = some st') :
    ∃ k', k.banDestroyObj x = some k' ∧ Twin st' k' := by
  unfold BanState.banDestroyObj at hexec ⊢
  rw [h.ocs]
  obtain ⟨o, ho, hexec⟩ := Option.bind_eq_some_iff.mp hexec
  simp only [ho, Option.bind_eq_bind, Option.bind_some]
  split at hexec
  · cases hexec
  rename_i hcond
  rw [if_neg hcond]
  have hout : Twin (st.setOc x none) (k.setOc x none) := by
    refine h.setOc x ?_
    rintro p hp
    cases hp
  cases hban : o.ban with
  | none =>
    simp only [hban] at hexec ⊢
    cases hexec
    exact ⟨_, rfl, hout⟩
  | some a =>
    simp only [hban] at hexec ⊢
    cases hexec
    refine ⟨_, rfl, hout.setBan a ?_⟩
    exact fun y z hyz => { hyz with objcore := by simp only [hyz.objcore] }

lemma Twin.lock (h : Twin st k) {s oh : Nat} {req : BanHttp} (hexec : st.lock s oh req = some st') :
    ∃ k', k.lock s oh req = some k' ∧ Twin st' k' := by
  unfold BanState.lock at hexec ⊢
  rw [h.sess, h.mtx]
  split at hexec
  · cases hexec
  rename_i hcond
  cases hexec
  rw [if_neg hcond]
  exact ⟨_, rfl, (h.setMtx oh _).setSess s _⟩

lemma Twin.unlock (h : Twin st k) {s : Nat} (hexec : st.unlock s = some st') :
    ∃ k', k.unlock s = some k' ∧ Twin st' k' := by
  unfold BanState.unlock at hexec ⊢
  rw [h.sess]
  obtain ⟨σ, hσ, hexec⟩ := Option.bind_eq_some_iff.mp hexec
  simp only [hσ, Option.bind_eq_bind, Option.bind_some]
  split at hexec
  · cases hexec
  rename_i hcond
  cases hexec
  rw [if_neg hcond]
  exact ⟨_, rfl, (h.setMtx _ _).setSess s _⟩

/-- One step of the run with elimination is one step of the other run or none. -/
lemma Twin.step (h : Twin st k) (hi : BanInv re st) (hk : BanWf k) {act : BanAct} {v : Option BanVerdict}
    (hoff : lurkerOff act = true) (hexec : st.exec re act = some (st', v)) :
    (keepAct act = none ∧ v = none ∧ Twin st' k) ∨
      ∃ act' k', keepAct act = some act' ∧ k.exec re act' = some (k', v) ∧ Twin st' k' := by
  have silent : ∀ {r r' : Option BanState}, r.map (fun s => (s, (none : Option BanVerdict))) = some (st', v) →
      (r = some st' → ∃ k', r' = some k' ∧ Twin st' k') →
      ∃ k', r'.map (fun s => (s, (none : Option BanVerdict))) = some (k', v) ∧ Twin st' k' := by
    intro r r' hr hstep
    obtain ⟨s, hs, he⟩ := Option.map_eq_some_iff.mp hr
    cases he
    obtain ⟨k', hk', ht⟩ := hstep hs
    exact ⟨k', by rw [hk', Option.map_some], ht⟩
  cases act with
  | insert spec dups =>
    cases hexec
    exact Or.inr ⟨_, _, rfl, rfl, h.insert spec dups⟩
  | hunt p =>
    obtain ⟨s, hs, he⟩ := Option.map_eq_some_iff.mp hexec
    cases he
    exact Or.inl ⟨rfl, rfl, h.hunt hs⟩
  | create x oh =>
    obtain ⟨k', hk', ht⟩ := silent hexec h.create
    exact Or.inr ⟨_, k', rfl, hk', ht⟩
  | attach x =>
    obtain ⟨k', hk', ht⟩ := silent hexec h.banNewObjCore
    exact Or.inr ⟨_, k', rfl, hk', ht⟩
  | unbusy x http =>
    obtain ⟨k', hk', ht⟩ := silent hexec h.hshUnbusy
    exact Or.inr ⟨_, k', rfl, hk', ht⟩
  | unlink x =>
    obtain ⟨k', hk', ht⟩ := silent hexec h.unlink
    exact Or.inr ⟨_, k', rfl, hk', ht⟩
  | destroy x =>
    obtain ⟨k', hk', ht⟩ := silent hexec h.banDestroyObj
    exact Or.inr ⟨_, k', rfl, hk', ht⟩
  | lock s oh req =>
    obtain ⟨k', hk', ht⟩ := silent hexec h.lock
    exact Or.inr ⟨_, k', rfl, hk', ht⟩
  | check s x =>
    obtain ⟨k', hk', ht⟩ := h.lookupBegin hexec
    exact Or.inr ⟨_, k', rfl, hk', ht⟩
  | walk s =>
    obtain ⟨k', hk', ht⟩ := silent hexec (h.lookupWalk hi)
    exact Or.inr ⟨_, k', rfl, hk', ht⟩
  | finish s =>
    obtain ⟨k', hk', ht⟩ := h.lookupFinish hexec
    exact Or.inr ⟨_, k', rfl, hk', ht⟩
  | unlock s =>
    obtain ⟨k', hk', ht⟩ := silent hexec h.unlock
    exact Or.inr ⟨_, k', rfl, hk', ht⟩
  | checkLast =>
    obtain ⟨k', hk', ht⟩ := silent hexec (h.checkLast hk)
    exact Or.inr ⟨_, k', rfl, hk', ht⟩
  | startPass => cases hoff
  | tag => cases hoff
  | look => cases hoff
  | lurkBegin => cases hoff
  | lurkWalk => cases hoff
  | lurkFinish => cases hoff

/-- While no objcore has a tag, the steps that are there with the lurker off meet the condition of `BanInv`. -/
lemma Twin.cond (h : Twin st k) {act : BanAct} (hoff : lurkerOff act = true) (hdup : DupCond re st act) :
    BanCond re st act := by
  cases act with
  | hunt p => exact hdup
  | finish s =>
    intro σ c o hσ hc ho hb
    exact h.tags c.oc o ho
  | look => cases hoff
  | _ => trivial

lemma Twin.cond_keep (h : Twin st k) {act act' : BanAct} (hoff : lurkerOff act = true)
    (hkeep : keepAct act = some act') : BanCond re k act' := by
  cases act with
  | hunt p => cases hkeep
  | finish s =>
    cases hkeep
    intro σ c o hσ hc ho hb
    rw [h.ocs] at ho
    exact h.tags c.oc o ho
  | look => cases hoff
  | _ =>
    cases hkeep
    trivial

lemma Twin.run (h : Twin st k) (hi : BanInv re st) (hk : BanInv re k) {acts : List BanAct} {vs : List BanVerdict}
    (hoff : ∀ act ∈ acts, lurkerOff act = true) (hmeets : MeetsAll re (DupCond re) st acts)
    (hrun : banVerdicts re st acts = some (st', vs)) :
    ∃ k', banVerdicts re k (acts.filterMap keepAct) = some (k', vs) ∧ Twin st' k' := by
  induction acts generalizing st k vs with
  | nil =>
    cases hrun
    exact ⟨k, rfl, h⟩
  | cons act acts ih =>
    obtain ⟨⟨st1, v⟩, hexec, hrun⟩ := Option.bind_eq_some_iff.mp hrun
    obtain ⟨⟨st2, ws⟩, hrest, hrun⟩ := Option.bind_eq_some_iff.mp hrun
    cases hrun
    obtain ⟨hdup, hmeets⟩ := hmeets
    have hact := hoff act List.mem_cons_self
    have hi1 := exec_inv hi (h.cond hact hdup) hexec
    have hoff' : ∀ act' ∈ acts, lurkerOff act' = true := fun act' ha => hoff act' (List.mem_cons_of_mem _ ha)
    rcases h.step hi hk.wf hact hexec with ⟨hnone, rfl, ht⟩ | ⟨act', k1, hsome, hexec', ht⟩
    · obtain ⟨k', hrun', ht'⟩ := ih ht hi1 hk hoff' (hmeets st1 none hexec) hrest
      refine ⟨k', ?_, ht'⟩
      rw [List.filterMap_cons_none hnone, hrun']
      rfl
    · have hk1 := exec_inv hk (h.cond_keep hact hsome) hexec'
      obtain ⟨k', hrun', ht'⟩ := ih ht hi1 hk1 hoff' (hmeets st1 v hexec) hrest
      refine ⟨k', ?_, ht'⟩
      rw [List.filterMap_cons_some hsome, banVerdicts, hexec']
      simp only [Option.bind_eq_bind, Option.bind_some, hrun']

/-- In every run whose hunts for duplicates meet the condition, all lookups give the verdicts that they give in the
run that keeps all bans. -/
theorem ban_dups_keep_verdicts {acts : List BanAct} {vs : List BanVerdict} (hoff : ∀ act ∈ acts, lurkerOff act = true)
    (hmeets : MeetsAll re (DupCond re) .init acts) (hrun : banVerdicts re .init acts = some (st, vs)) :
    ∃ k, banVerdicts re .init (acts.filterMap keepAct) = some (k, vs) := by
  obtain ⟨k, hk, -⟩ := Twin.init.run init_banInv init_banInv hoff hmeets hrun
  exact ⟨k, hk⟩

lemma MeetsAll.cons {P : BanState → BanAct → Prop} {act : BanAct} {acts : List BanAct} {v : Option BanVerdict}
    (hP : P st act) (hexec : st.exec re act = some (st', v)) (hrest : MeetsAll re P st' acts) :
    MeetsAll re P st (act :: acts) := by
  refine ⟨hP, ?_⟩
  intro st1 w h1
  rw [hexec] at h1
  cases h1
  exact hrest

/-- Two bans of the same kind come after the object; the first of them is gone when a lookup comes. -/
def duplicateRun : List BanAct :=
  [.create 1 1, .attach 1, .unbusy 1 headerOne, .insert (headerBan "1") true, .hunt (2, 1), .insert (headerBan "1") true,
    .hunt (3, 1), .lock 1 1 headerOne, .check 1 1, .walk 1, .finish 1]

theorem ban_dups_keep_verdicts_duplicate : (∃ st, banVerdicts noRegex .init duplicateRun = some (st, [.banned])) ∧
    ∃ k, banVerdicts noRegex .init (duplicateRun.filterMap keepAct) = some (k, [.banned]) := by
  obtain ⟨st, hst⟩ : ∃ st, banVerdicts noRegex .init duplicateRun = some (st, [.banned]) := ⟨_, rfl⟩
  refine ⟨⟨st, hst⟩, ban_dups_keep_verdicts (by decide) ?_ hst⟩
  have quiet : ∀ {st1 : BanState} (p : Nat × Nat), st1.sess = (fun _ => none) → DupCond noRegex st1 (.hunt p) := by
    intro st1 p hnone s σ c o a i hσ
    rw [hnone] at hσ
    cases hσ
  refine .cons trivial rfl (.cons trivial rfl (.cons trivial rfl (.cons trivial rfl (.cons (quiet _ rfl) rfl ?_))))
  refine .cons trivial rfl (.cons (quiet _ rfl) rfl ?_)
  exact .cons trivial rfl (.cons trivial rfl (.cons trivial rfl (.cons trivial rfl trivial)))

/-- A lookup begins, a duplicate of the ban that it is going to test comes in, and the older one is marked gone. -/
def overtakenRun : List BanAct :=
  [.create 1 1, .attach 1, .unbusy 1 headerOne, .insert (headerBan "1") true, .hunt (2, 1),
    .lock 1 1 headerOne, .check 1 1,
    .insert (headerBan "1") true, .hunt (3, 1), .walk 1, .finish 1]

/-- The lookup tests neither of the two bans and does not find the object banned, which it is for the run that keeps
all bans. -/
theorem ban_dups_change_verdict : ¬∀ (acts : List BanAct) (st : BanState) (vs : List BanVerdict),
    (∀ act ∈ acts, lurkerOff act = true) → banVerdicts noRegex .init acts = some (st, vs) →
      ∃ k, banVerdicts noRegex .init (acts.filterMap keepAct) = some (k, vs) := by
  intro hall
  obtain ⟨st, hst⟩ : ∃ st, banVerdicts noRegex .init overtakenRun = some (st, [.notBanned]) := ⟨_, rfl⟩
  obtain ⟨k, hk⟩ := hall overtakenRun st _ (by decide) hst
  have hkept : (banVerdicts noRegex .init (overtakenRun.filterMap keepAct)).map Prod.snd = some [.banned] := by decide
  rw [hk] at hkept
  cases hkept

end VarnishCache.Proofs
