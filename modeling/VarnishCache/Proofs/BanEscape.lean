import VarnishCache.Proofs.BanLurker

/-!
# No ban escapes a lookup

Three steps of the source break this: the lurker tags a busy object that it has not tested, a lookup that
moves an object leaves its tag, and a duplicate is marked gone under a lookup that does not see the new
ban. In a run without them, a lookup tests every ban that was there when it began.
-/

namespace VarnishCache.Proofs

open VarnishCache BanState

variable {re : String → String → Bool} {st st' : BanState}

/-- The lurker does not take a busy object, a lookup does not move an object that has a tag, and a duplicate that is
marked gone is not before a lookup that began before the new ban and that it would match. -/
def BanCond (re : String → String → Bool) (st : BanState) : BanAct → Prop
  | .look => ∀ b b0 x l oc, st.lurker = .working b b0 → (st.ban b).objcore = x :: l → st.ocs x = some oc →
      oc.busy = true → oc.lurk = st.pass ∨ (st.mtx oc.objhead).isSome ∨ oc.onHead = false
  | .finish s => ∀ σ c oc, st.sess s = some σ → σ.check = some c → st.ocs c.oc = some oc → oc.ban = some c.b →
      oc.lurk = 0
  | .hunt p => ∀ s σ c oc a i, st.sess s = some σ → σ.check = some c → st.ocs c.oc = some oc → oc.ban = some a →
      c.b0 < p.1 → a < i → i ≤ c.b → st.isDup p i = true → banEvaluate re (st.ban i).spec oc.http σ.req = false
  | _ => True

lemma init_banInv : BanInv re BanState.init := by
  have hno : ∀ x o a, ¬ Att BanState.init x o a := by
    intro x o a h
    cases h.1
  refine ⟨⟨le_rfl, le_rfl, fun x a => ?_, fun a => List.nodup_nil, fun x o a h => (hno x o a h).elim, fun a => rfl,
    fun p hp => ?_, fun x o h => ?_⟩, ⟨fun s σ h => ?_, fun s σ h => ?_⟩, fun x o a h => (hno x o a h).elim, 0, 0,
    ⟨by decide, by decide, Nat.zero_le _, fun x o a h => (hno x o a h).elim, fun B h1 h2 => ?_, fun B _ _ h3 => ?_⟩,
    fun x o a h => (hno x o a h).elim, fun B _ _ h3 => ?_⟩
  · refine ⟨fun h => ?_, fun h => ?_⟩
    · cases h
    · obtain ⟨o, h⟩ := h
      exact (hno x o a h).elim
  · cases hp
  · cases h
  · cases h
  · cases h
  · have h1' : 1 ≤ B := h1
    omega
  · exact absurd rfl h3
  · exact absurd rfl h3

lemma exec_inv (hi : BanInv re st) {act : BanAct} {v : Option BanVerdict} (hP : BanCond re st act)
    (h : st.exec re act = some (st', v)) : BanInv re st' := by
  have hmap : ∀ {r : Option BanState}, r.map (fun s => (s, (none : Option BanVerdict))) = some (st', v) →
      r = some st' := by
    intro r hr
    obtain ⟨s, hs, he⟩ := Option.map_eq_some_iff.mp hr
    cases he
    exact hs
  cases act with
  | insert spec dups =>
    cases h
    exact banInsert_inv hi spec dups
  | hunt p => exact banHunt_inv hi (hmap h) hP
  | create x oh => exact create_inv hi (hmap h)
  | attach x => exact banNewObjCore_inv hi (hmap h)
  | unbusy x http => exact hshUnbusy_inv hi (hmap h)
  | unlink x => exact unlink_inv hi (hmap h)
  | destroy x => exact banDestroyObj_inv hi (hmap h)
  | lock s oh req => exact lock_inv hi (hmap h)
  | check s x => exact lookupBegin_inv hi h
  | walk s => exact lookupWalk_inv hi (hmap h)
  | finish s => exact lookupFinish_inv hi h hP
  | unlock s => exact unlock_inv hi (hmap h)
  | checkLast => exact banCheckLast_inv hi (hmap h)
  | startPass => exact startPass_inv hi (hmap h)
  | tag => exact tagBan_inv hi (hmap h)
  | look => exact lurkLook_inv hi (hmap h) hP
  | lurkBegin => exact lurkBegin_inv hi (hmap h)
  | lurkWalk => exact lurkWalk_inv hi (hmap h)
  | lurkFinish => exact lurkFinish_inv hi (hmap h)

lemma BanReach.inv (h : BanReach re (BanCond re) st) : BanInv re st := by
  induction h with
  | init => exact init_banInv
  | step _ hP hexec ih => exact exec_inv ih hP hexec

/-- The bans keep their tests. -/
def SameSpecs (st st' : BanState) : Prop :=
  st.first ≤ st'.first ∧ ∀ B, B ≤ st.first → (st'.ban B).spec = (st.ban B).spec

lemma setBan_spec (st : BanState) (b : Nat) (f : Ban → Ban) (B : Nat) (hf : ∀ y, (f y).spec = y.spec) :
    ((st.setBan b f).ban B).spec = (st.ban B).spec := by
  rw [setBan_apply]
  split_ifs with h
  · rw [hf, h]
  · rfl

lemma SameSpecs.of_ban (hfirst : st'.first = st.first) (hban : st'.ban = st.ban) : SameSpecs st st' :=
  ⟨hfirst.ge, fun B _ => by rw [hban]⟩

lemma SameSpecs.of_spec (hfirst : st'.first = st.first) (hban : ∀ B, (st'.ban B).spec = (st.ban B).spec) :
    SameSpecs st st' :=
  ⟨hfirst.ge, fun B _ => hban B⟩

lemma moved_spec (st : BanState) (x : Nat) (o : BanOc) (a b0 B : Nat) :
    ((moved st x o a b0).ban B).spec = (st.ban B).spec := by
  simp only [moved, setOc_ban]
  rw [setBan_spec, setBan_spec, setBan_spec]
  · exact fun _ => rfl
  · exact fun _ => rfl
  · exact fun _ => rfl

lemma dropped_spec (st : BanState) (x : Nat) (o : BanOc) (a B : Nat) :
    ((dropped st x o a).ban B).spec = (st.ban B).spec := by
  simp only [dropped, setOc_ban]
  exact setBan_spec _ _ _ B (fun _ => rfl)

lemma checkWalk_rest {req : BanHttp} {c c' : BanCheck} (h : st.checkWalk re req c = some c') :
    c'.oc = c.oc ∧ c'.b0 = c.b0 := by
  obtain ⟨o, -, -, -, hcases⟩ := checkWalk_cases h
  rcases hcases with ⟨-, rfl⟩ | ⟨-, -, -, rfl⟩ | ⟨-, -, rfl⟩ | ⟨-, -, rfl⟩ | rfl <;> exact ⟨rfl, rfl⟩

/-- What a step does to the objcores. -/
inductive BanOcsMove (st : BanState) : BanAct → (Nat → Option BanOc) → Prop
  | same {act} : BanOcsMove st act st.ocs
  | create {x oh o} (h : st.ocs x = none) : BanOcsMove st (.create x oh) (Function.update st.ocs x (some o))
  | attach {x o} (h : st.ocs x = some o) (hbusy : o.busy = true) (hban : o.ban = none) :
      BanOcsMove st (.attach x) (Function.update st.ocs x (some { o with ban := some st.first }))
  | unbusy {x http o} (h : st.ocs x = some o) (hbusy : o.busy = true) :
      BanOcsMove st (.unbusy x http) (Function.update st.ocs x (some { o with busy := false, http := http }))
  | unlink {x o} (h : st.ocs x = some o) (hfree : st.mtx o.objhead = none) :
      BanOcsMove st (.unlink x) (Function.update st.ocs x (some { o with onHead := false }))
  | destroy {x o} (h : st.ocs x = some o) (hoff : o.onHead = false) :
      BanOcsMove st (.destroy x) (Function.update st.ocs x none)
  | look {x o lurk} (h : st.ocs x = some o) (hfree : st.mtx o.objhead = none) :
      BanOcsMove st .look (Function.update st.ocs x (some { o with lurk := lurk }))
  | lookup {s σ c o} (hσ : st.sess s = some σ) (hc : σ.check = some c) (h : Att st c.oc o c.b) :
      BanOcsMove st (.finish s) (Function.update st.ocs c.oc (some { o with ban := some c.b0 }))
  | lookupHit {s σ c o a} (hσ : st.sess s = some σ) (hc : σ.check = some c) (h : Att st c.oc o a) :
      BanOcsMove st (.finish s) (Function.update st.ocs c.oc (some { o with ban := none }))
  | lurk {b b0 c o} (hl : st.lurker = .checking b b0 c) (h : Att st c.oc o c.b) (hskip : c.skipped = 0) :
      BanOcsMove st .lurkFinish (Function.update st.ocs c.oc (some { o with ban := some c.b0 }))
  | lurkHit {b b0 c o a} (hl : st.lurker = .checking b b0 c) (h : Att st c.oc o a) :
      BanOcsMove st .lurkFinish (Function.update st.ocs c.oc (some { o with ban := none }))
  | lurkUnsure {b b0 c o a lurk} (hl : st.lurker = .checking b b0 c) (h : Att st c.oc o a) :
      BanOcsMove st .lurkFinish (Function.update st.ocs c.oc (some { o with lurk := lurk }))

/-- What a step does to the sessions. -/
inductive BanSessMove (st : BanState) : BanAct → (Nat → Option BanSess) → Prop
  | same {act} : BanSessMove st act st.sess
  | lock {s oh req σ} (h : st.sess s = none) : BanSessMove st (.lock s oh req) (Function.update st.sess s (some σ))
  | check {s x σ c} (h : st.sess s = some σ) (hc : σ.check = none) :
      BanSessMove st (.check s x) (Function.update st.sess s (some { σ with check := some c }))
  | walk {s σ c c'} (h : st.sess s = some σ) (hc : σ.check = some c) (hoc : c'.oc = c.oc) (hb0 : c'.b0 = c.b0) :
      BanSessMove st (.walk s) (Function.update st.sess s (some { σ with check := some c' }))
  | finish {s σ} : BanSessMove st (.finish s) (Function.update st.sess s σ)
  | unlock {s σ} (h : st.sess s = some σ) (hc : σ.check = none) :
      BanSessMove st (.unlock s) (Function.update st.sess s none)

lemma banDone_rest (st : BanState) (b b0 : Nat) : SameSpecs st (st.banDone b b0) ∧ (st.banDone b b0).ocs = st.ocs ∧
    (st.banDone b b0).sess = st.sess := by
  obtain ⟨k1, -, k3, -, k5, -⟩ := marked_rest st b
  rw [banDone_eq]
  split_ifs
  · exact ⟨SameSpecs.of_spec k1 fun B => (marked_ban st b B).1, k3, k5⟩
  · exact ⟨SameSpecs.of_spec k1 fun B => (marked_ban st b B).1, k3, k5⟩

lemma banInsert_rest (st : BanState) (spec : List BanTest) (dups : Bool) : SameSpecs st (st.banInsert spec dups) ∧
    (st.banInsert spec dups).ocs = st.ocs ∧ (st.banInsert spec dups).sess = st.sess := by
  rw [banInsert_eq]
  have hspec : SameSpecs st (inserted st spec) := ⟨Nat.le_succ _, fun B hB => by rw [inserted_ban (by omega)]⟩
  cases dups with
  | false => exact ⟨hspec, rfl, rfl⟩
  | true =>
    refine ⟨⟨hspec.1, fun B hB => ?_⟩, rfl, rfl⟩
    rw [← hspec.2 B hB, if_pos rfl, hunting_ban]
    split_ifs with e
    · rw [e]
    · rfl

lemma lurkLook_shape (h : st.lurkLook = some st') :
    SameSpecs st st' ∧ BanOcsMove st .look st'.ocs ∧ BanSessMove st .look st'.sess := by
  have hdone : ∀ b b0, SameSpecs st (st.banDone b b0) ∧ BanOcsMove st .look (st.banDone b b0).ocs ∧
      BanSessMove st .look (st.banDone b b0).sess := by
    intro b b0
    obtain ⟨hspec, hocs, hsess⟩ := banDone_rest st b b0
    rw [hocs, hsess]
    exact ⟨hspec, .same, .same⟩
  unfold lurkLook at h
  split at h
  · split at h
    · cases h
      exact hdone _ _
    · obtain ⟨o, ho, h⟩ := Option.bind_eq_some_iff.mp h
      have hfree : ¬ (st.mtx o.objhead).isSome = true → st.mtx o.objhead = none := by simp
      split_ifs at h with h1 h2 h3 h4
      · cases h
        exact hdone _ _
      · cases h
        exact ⟨SameSpecs.of_ban rfl rfl, .same, .same⟩
      · cases h
        exact ⟨SameSpecs.of_ban rfl rfl, .same, .same⟩
      · cases h
        refine ⟨SameSpecs.of_spec rfl fun B => ?_, .look ho (hfree h2), .same⟩
        rw [setOc_ban, setBan_spec]
        exact fun _ => rfl
      · cases h
        exact ⟨SameSpecs.of_ban rfl rfl, .look ho (hfree h2), .same⟩
  · cases h

lemma lookupFinish_shape {s : Nat} {v : Option BanVerdict} (h : st.lookupFinish s = some (st', v)) :
    SameSpecs st st' ∧ BanOcsMove st (.finish s) st'.ocs ∧ BanSessMove st (.finish s) st'.sess := by
  unfold lookupFinish at h
  obtain ⟨σ, hσ, h⟩ := Option.bind_eq_some_iff.mp h
  obtain ⟨c, hc, h⟩ := Option.bind_eq_some_iff.mp h
  obtain ⟨⟨st1, w⟩, hfin, h⟩ := Option.bind_eq_some_iff.mp h
  cases h
  obtain ⟨o, a, hatt, hcases⟩ := checkFinish_cases hfin
  rcases hcases with ⟨-, -, -, rfl⟩ | ⟨rfl, -, rfl⟩ | ⟨-, -, rfl⟩
  · exact ⟨SameSpecs.of_ban rfl rfl, .same, .finish⟩
  · exact ⟨SameSpecs.of_spec rfl fun B => moved_spec st c.oc o c.b c.b0 B, .lookup hσ hc hatt, .finish⟩
  · exact ⟨SameSpecs.of_spec rfl fun B => dropped_spec st c.oc o a B, .lookupHit hσ hc hatt, .finish⟩

lemma lurkFinish_shape (h : st.lurkFinish = some st') :
    SameSpecs st st' ∧ BanOcsMove st .lurkFinish st'.ocs ∧ BanSessMove st .lurkFinish st'.sess := by
  unfold BanState.lurkFinish at h
  split at h
  · rename_i b b0 c hl
    obtain ⟨⟨st1, w⟩, hfin, h⟩ := Option.bind_eq_some_iff.mp h
    obtain ⟨p, hp, h⟩ := Option.bind_eq_some_iff.mp h
    obtain ⟨o, a, hatt, hcases⟩ := checkFinish_cases hfin
    rcases hcases with ⟨-, -, rfl, rfl⟩ | ⟨rfl, rfl, rfl⟩ | ⟨-, rfl, rfl⟩
    · have e := Option.some.inj (hatt.1.symm.trans hp)
      subst e
      cases h
      refine ⟨SameSpecs.of_spec rfl fun B => ?_, .lurkUnsure hl hatt, .same⟩
      exact setBan_spec st1 b (fun y => { y with objcore := y.objcore.erase c.oc ++ [c.oc] }) B (fun _ => rfl)
    · cases h
      exact ⟨SameSpecs.of_spec rfl fun B => moved_spec st c.oc o c.b c.b0 B,
        .lurk hl hatt (checkFinish_skipped hfin), .same⟩
    · cases h
      exact ⟨SameSpecs.of_spec rfl fun B => dropped_spec st c.oc o a B, .lurkHit hl hatt, .same⟩
  · cases h

/-- What a step does to bans, objcores and sessions. -/
lemma exec_shape {act : BanAct} {v : Option BanVerdict} (h : st.exec re act = some (st', v)) :
    SameSpecs st st' ∧ BanOcsMove st act st'.ocs ∧ BanSessMove st act st'.sess := by
  have hmap : ∀ {r : Option BanState}, r.map (fun s => (s, (none : Option BanVerdict))) = some (st', v) →
      r = some st' := by
    intro r hr
    obtain ⟨s, hs, he⟩ := Option.map_eq_some_iff.mp hr
    cases he
    exact hs
  have hsame : ∀ {act}, st'.first = st.first → st'.ban = st.ban → st'.ocs = st.ocs → st'.sess = st.sess →
      SameSpecs st st' ∧ BanOcsMove st act st'.ocs ∧ BanSessMove st act st'.sess := by
    intro act h1 h2 h3 h4
    rw [h3, h4]
    exact ⟨SameSpecs.of_ban h1 h2, .same, .same⟩
  cases act with
  | insert spec dups =>
    cases h
    obtain ⟨hspec, hocs, hsess⟩ := banInsert_rest st spec dups
    rw [hocs, hsess]
    exact ⟨hspec, .same, .same⟩
  | hunt p =>
    have hspec := banHunt_ban (hmap h)
    have h' := hmap h
    unfold banHunt at h'
    split_ifs at h'
    cases h'
    exact ⟨SameSpecs.of_spec rfl fun B => (hspec B).1, .same, .same⟩
  | create x oh =>
    have h' := hmap h
    unfold BanState.create at h'
    split_ifs at h' with hc
    cases h'
    exact ⟨SameSpecs.of_ban rfl rfl, .create (by simpa using (not_or.mp hc).1), .same⟩
  | attach x =>
    have h' := hmap h
    unfold banNewObjCore at h'
    obtain ⟨o, ho, h'⟩ := Option.bind_eq_some_iff.mp h'
    split_ifs at h' with hc
    cases h'
    obtain ⟨hbusy, hban⟩ := not_or.mp hc
    refine ⟨SameSpecs.of_spec rfl fun B => ?_, .attach ho (by simpa using hbusy) (by simpa using hban), .same⟩
    rw [setOc_ban, setBan_spec]
    exact fun _ => rfl
  | unbusy x http =>
    have h' := hmap h
    unfold hshUnbusy at h'
    obtain ⟨o, ho, h'⟩ := Option.bind_eq_some_iff.mp h'
    split_ifs at h' with hc
    cases h'
    exact ⟨SameSpecs.of_ban rfl rfl, .unbusy ho (by simpa using (not_or.mp hc).1), .same⟩
  | unlink x =>
    have h' := hmap h
    unfold BanState.unlink at h'
    obtain ⟨o, ho, h'⟩ := Option.bind_eq_some_iff.mp h'
    split_ifs at h' with hc
    cases h'
    exact ⟨SameSpecs.of_ban rfl rfl, .unlink ho (by simpa using hc), .same⟩
  | destroy x =>
    have h' := hmap h
    unfold banDestroyObj at h'
    obtain ⟨o, ho, h'⟩ := Option.bind_eq_some_iff.mp h'
    split_ifs at h' with hc
    cases hb : o.ban with
    | none =>
      simp only [hb, Option.some.injEq] at h'
      subst h'
      exact ⟨SameSpecs.of_ban rfl rfl, .destroy ho (by simpa using hc), .same⟩
    | some a =>
      simp only [hb, Option.some.injEq] at h'
      subst h'
      exact ⟨SameSpecs.of_spec rfl fun B => setBan_spec _ a _ B fun _ => rfl, .destroy ho (by simpa using hc), .same⟩
  | lock s oh req =>
    have h' := hmap h
    unfold BanState.lock at h'
    split_ifs at h' with hc
    cases h'
    exact ⟨SameSpecs.of_ban rfl rfl, .same, .lock (by simpa using (not_or.mp hc).1)⟩
  | check s x =>
    change st.lookupBegin s x = _ at h
    unfold lookupBegin at h
    obtain ⟨σ, hσ, h⟩ := Option.bind_eq_some_iff.mp h
    obtain ⟨o, ho, h⟩ := Option.bind_eq_some_iff.mp h
    split_ifs at h with hc
    split at h
    · cases h
      exact ⟨SameSpecs.of_ban rfl rfl, .same, .same⟩
    · cases h
      exact ⟨SameSpecs.of_ban rfl rfl, .same, .check hσ (by simpa using (not_or.mp hc).1)⟩
  | walk s =>
    have h' := hmap h
    unfold lookupWalk at h'
    obtain ⟨σ, hσ, h'⟩ := Option.bind_eq_some_iff.mp h'
    obtain ⟨c, hc, h'⟩ := Option.bind_eq_some_iff.mp h'
    obtain ⟨c', hc', h'⟩ := Option.bind_eq_some_iff.mp h'
    cases h'
    obtain ⟨hoc, hb0⟩ := checkWalk_rest hc'
    exact ⟨SameSpecs.of_ban rfl rfl, .same, .walk hσ hc hoc hb0⟩
  | finish s => exact lookupFinish_shape h
  | unlock s =>
    have h' := hmap h
    unfold BanState.unlock at h'
    obtain ⟨σ, hσ, h'⟩ := Option.bind_eq_some_iff.mp h'
    split_ifs at h' with hc
    cases h'
    exact ⟨SameSpecs.of_ban rfl rfl, .same, .unlock hσ (by simpa using hc)⟩
  | checkLast =>
    have h' := hmap h
    unfold banCheckLast at h'
    split at h'
    · split_ifs at h' <;> cases h' <;> exact hsame rfl rfl rfl rfl
    · cases h'
  | startPass =>
    have h' := hmap h
    unfold BanState.startPass at h'
    split at h'
    · cases h'
      exact hsame rfl rfl rfl rfl
    · cases h'
  | tag =>
    have h' := hmap h
    unfold tagBan at h'
    split at h'
    · split_ifs at h'
      · split at h' <;> cases h' <;> exact hsame rfl rfl rfl rfl
      · cases h'
        exact hsame rfl rfl rfl rfl
      · cases h'
        refine ⟨SameSpecs.of_spec rfl fun B => ?_, .same, .same⟩
        simp only [setBan_apply]
        split_ifs with e
        · rw [e]
        · rfl
    · cases h'
  | look => exact lurkLook_shape (hmap h)
  | lurkBegin =>
    have h' := hmap h
    unfold BanState.lurkBegin at h'
    split at h'
    · obtain ⟨o, ho, h'⟩ := Option.bind_eq_some_iff.mp h'
      split at h' <;> cases h' <;> exact hsame rfl rfl rfl rfl
    · cases h'
  | lurkWalk =>
    have h' := hmap h
    unfold BanState.lurkWalk at h'
    split at h'
    · obtain ⟨c, hc, h'⟩ := Option.bind_eq_some_iff.mp h'
      cases h'
      exact hsame rfl rfl rfl rfl
    · cases h'
  | lurkFinish => exact lurkFinish_shape (hmap h)

/-! ## A lookup -/

/-- Session `s` is checking object `o`, which is `x`, against the bans from `b0` on. -/
def InLookup (st : BanState) (s x b0 : Nat) (o : BanOc) (req : BanHttp) : Prop :=
  ∃ σ c, st.sess s = some σ ∧ σ.req = req ∧ σ.check = some c ∧ c.oc = x ∧ c.b0 = b0 ∧ st.ocs x = some o

/-- What the invariant says of the object of a lookup. -/
lemma InLookup.held (hi : BanInv re st) {s x b0 : Nat} {o : BanOc} {req : BanHttp} (h : InLookup st s x b0 o req) :
    st.mtx o.objhead = some (.sess s) ∧ o.onHead = true ∧ o.busy = false := by
  obtain ⟨σ, c, h1, -, h3, rfl, -, h6⟩ := h
  obtain ⟨p, a, hat⟩ := hi.sess.lookup s σ h1 c h3
  have e := Option.some.inj (hat.att.1.symm.trans h6)
  subst e
  refine ⟨?_, hat.onHead, hat.idle⟩
  rw [hat.head]
  exact hi.sess.lock s σ h1

/-- A step other than its end leaves the object of a lookup alone. -/
lemma BanOcsMove.held {act : BanAct} {ocs : Nat → Option BanOc} {s x b0 : Nat} {o : BanOc} {req : BanHttp}
    (h : BanOcsMove st act ocs) (hi : BanInv re st) (hin : InLookup st s x b0 o req) (hact : act ≠ .finish s) :
    ocs x = some o := by
  obtain ⟨hmtx, hon, hidle⟩ := hin.held hi
  obtain ⟨σ, c, -, -, -, -, -, ho⟩ := hin
  have hother : ∀ {y o1}, y ≠ x → Function.update st.ocs y o1 x = some o := fun hy => by
    rw [Function.update_of_ne hy.symm]
    exact ho
  -- who has the object of another check has locked it
  have hsess : ∀ {t τ d p a}, st.sess t = some τ → τ.check = some d → Att st d.oc p a → t ≠ s → d.oc ≠ x := by
    rintro t τ d p a hτ hd hp hts rfl
    obtain ⟨q, a', hat⟩ := hi.sess.lookup t τ hτ d hd
    have e := Option.some.inj (hat.att.1.symm.trans ho)
    subst e
    have hm := hi.sess.lock t τ hτ
    rw [← hat.head, hmtx] at hm
    exact hts (by simpa using hm.symm)
  have hlurk : ∀ {b k d}, st.lurker = .checking b k d → d.oc ≠ x := by
    rintro b k d hl rfl
    obtain ⟨q, β, -, hphase⟩ := hi.lurk
    rw [hl] at hphase
    obtain ⟨-, -, p, hgot, -⟩ := hphase
    have e := Option.some.inj (hgot.att.1.symm.trans ho)
    subst e
    rw [hgot.mtx] at hmtx
    cases hmtx
  cases h with
  | same => exact ho
  | create h => exact hother (by rintro rfl; rw [ho] at h; cases h)
  | attach h hbusy _ => exact hother (by rintro rfl; cases ho.symm.trans h; rw [hbusy] at hidle; cases hidle)
  | unbusy h hbusy => exact hother (by rintro rfl; cases ho.symm.trans h; rw [hbusy] at hidle; cases hidle)
  | unlink h hfree => exact hother (by rintro rfl; cases ho.symm.trans h; rw [hmtx] at hfree; cases hfree)
  | destroy h hoff => exact hother (by rintro rfl; cases ho.symm.trans h; rw [hon] at hoff; cases hoff)
  | look h hfree => exact hother (by rintro rfl; cases ho.symm.trans h; rw [hmtx] at hfree; cases hfree)
  | lookup hσ hc h => exact hother (hsess hσ hc h fun e => hact (by rw [e]))
  | lookupHit hσ hc h => exact hother (hsess hσ hc h fun e => hact (by rw [e]))
  | lurk hl _ _ => exact hother (hlurk hl)
  | lurkHit hl _ => exact hother (hlurk hl)
  | lurkUnsure hl _ => exact hother (hlurk hl)

/-- A step other than its end leaves the variables of a lookup alone, but for how far it has come. -/
lemma BanSessMove.keeps {act : BanAct} {sess : Nat → Option BanSess} {s : Nat} {σ : BanSess} {c : BanCheck}
    (h : BanSessMove st act sess) (hσ : st.sess s = some σ) (hc : σ.check = some c) (hact : act ≠ .finish s) :
    ∃ c', sess s = some { σ with check := some c' } ∧ c'.oc = c.oc ∧ c'.b0 = c.b0 := by
  have hkeep : ∀ {t σ'}, t ≠ s → ∃ c', Function.update st.sess t σ' s = some { σ with check := some c' } ∧
      c'.oc = c.oc ∧ c'.b0 = c.b0 := by
    intro t σ' hts
    refine ⟨c, ?_, rfl, rfl⟩
    rw [Function.update_of_ne hts.symm, hσ, ← hc]
  cases h with
  | same => exact ⟨c, by rw [hσ, ← hc], rfl, rfl⟩
  | lock h => exact hkeep (by rintro rfl; rw [hσ] at h; cases h)
  | check h hn => exact hkeep (by rintro rfl; cases hσ.symm.trans h; rw [hc] at hn; cases hn)
  | @walk t τ d d' h hd hoc hb0 =>
    by_cases hts : t = s
    · subst hts
      cases hσ.symm.trans h
      cases hc.symm.trans hd
      exact ⟨d', Function.update_self _ _ _, hoc, hb0⟩
    · exact hkeep hts
  | finish => exact hkeep (by rintro rfl; exact hact rfl)
  | unlock h hn => exact hkeep (by rintro rfl; cases hσ.symm.trans h; rw [hc] at hn; cases hn)

lemma exec_inLookup (hi : BanInv re st) {act : BanAct} {v : Option BanVerdict} (h : st.exec re act = some (st', v))
    {s x b0 : Nat} {o : BanOc} {req : BanHttp} (hin : InLookup st s x b0 o req) (hact : act ≠ .finish s) :
    InLookup st' s x b0 o req ∧ SameSpecs st st' := by
  obtain ⟨hspec, hocs, hsess⟩ := exec_shape h
  have ho := hocs.held hi hin hact
  obtain ⟨σ, c, hσ, hreq, hc, hoc, hb0, -⟩ := hin
  obtain ⟨c', hσ', hoc', hb0'⟩ := hsess.keeps hσ hc hact
  exact ⟨⟨_, c', hσ', hreq, rfl, hoc'.trans hoc, hb0'.trans hb0, ho⟩, hspec⟩

lemma BanSteps.inLookup {s x b0 : Nat} {o : BanOc} {req : BanHttp} (h : BanSteps re (BanCond re) s st st')
    (hi : BanInv re st) (hin : InLookup st s x b0 o req) :
    BanInv re st' ∧ InLookup st' s x b0 o req ∧ SameSpecs st st' := by
  induction h with
  | refl => exact ⟨hi, hin, le_rfl, fun _ _ => rfl⟩
  | step _ hP hact hexec ih =>
    obtain ⟨h1, h2, h3⟩ := ih
    obtain ⟨k1, k2⟩ := exec_inLookup h1 hexec h2 hact
    exact ⟨exec_inv h1 hP hexec, k1, h3.1.trans k2.1, fun B hB => (k2.2 B (hB.trans h3.1)).trans (h3.2 B hB)⟩

/-- A lookup that finds the object not banned has tested, without a match, every ban between the object's ban and the
front of the list as it was when the lookup began. -/
lemma lookup_tests (h : BanReach re (BanCond re) st) {s x a : Nat} {σ : BanSess} {o : BanOc}
    (hσ : st.sess s = some σ) (ho : st.ocs x = some o) (ha : o.ban = some a)
    (hv : LookupVerdict re (BanCond re) s x st .notBanned) :
    ∀ B, a < B → B ≤ st.first → banEvaluate re (st.ban B).spec o.http σ.req = false := by
  have hi := BanReach.inv h
  intro B haB hB
  cases hv with
  | atOnce h1 =>
    change st.lookupBegin s x = _ at h1
    unfold lookupBegin at h1
    rw [hσ, ho] at h1
    simp only [Option.bind_eq_bind, Option.bind_some] at h1
    split_ifs at h1
    unfold checkBegin at h1
    split_ifs at h1 with h2
    · rw [ha, Option.some.injEq] at h2
      omega
    · simp at h1
  | later h1 hrun hfin =>
    rename_i st1 st2 st3
    have hi1 := lookupBegin_inv hi h1
    have hin : InLookup st1 s x st.first o σ.req ∧ st1.ban = st.ban ∧ st1.first = st.first := by
      change st.lookupBegin s x = _ at h1
      unfold lookupBegin at h1
      rw [hσ, ho] at h1
      simp only [Option.bind_eq_bind, Option.bind_some] at h1
      split_ifs at h1
      unfold checkBegin at h1
      split_ifs at h1 with h2
      · simp at h1
      · simp only [Option.some.injEq, Prod.mk.injEq, and_true] at h1
        subst h1
        exact ⟨⟨_, _, Function.update_self _ _ _, rfl, rfl, rfl, rfl, ho⟩, rfl, rfl⟩
    obtain ⟨hin, hban1, hfirst1⟩ := hin
    obtain ⟨hi2, ⟨τ, c, k1, k2, k3, k4, k5, k6⟩, hspec⟩ := BanSteps.inLookup hrun hi1 hin
    subst k4
    obtain ⟨p, a', hat⟩ := hi2.sess.lookup s τ k1 c k3
    have e := Option.some.inj (hat.att.1.symm.trans k6)
    subst e
    have e := Option.some.inj (hat.att.2.symm.trans ha)
    subst e
    change st2.lookupFinish s = _ at hfin
    unfold lookupFinish at hfin
    rw [k1] at hfin
    simp only [Option.bind_eq_bind, Option.bind_some, k3] at hfin
    obtain ⟨⟨st4, w⟩, hf, hfin⟩ := Option.bind_eq_some_iff.mp hfin
    simp only [Option.some.injEq, Prod.mk.injEq] at hfin
    obtain ⟨-, rfl⟩ := hfin
    obtain ⟨q, a'', hatt, hcases⟩ := checkFinish_cases hf
    have e := Option.some.inj (hat.att.1.symm.trans hatt.1)
    subst e
    have e := Option.some.inj (hat.att.2.symm.trans hatt.2)
    subst e
    rcases hcases with ⟨-, -, hw, -⟩ | ⟨hb, -, -⟩ | ⟨-, hw, -⟩
    · cases hw
    · have hw := hat.walked B (hb ▸ haB) (by rw [k5]; exact hB)
      rw [k2] at hw
      rw [← hw, ← hban1, ← hspec.2 B (by rw [hfirst1]; exact hB)]
    · cases hw

end VarnishCache.Proofs
