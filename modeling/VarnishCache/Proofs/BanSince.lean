import VarnishCache.Proofs.BanEscape

/-!
# No ban escapes an object

A ban that was inserted since an object was attached is ahead of the object, or the object has passed it: a lookup
has tested it, with the request it had, or it matches with no request, or a duplicate of it is still ahead. This
holds through all moves of the object, by lookups and by the lurker.
-/

namespace VarnishCache.Proofs

open VarnishCache BanState

variable {re : String → String → Bool} {st st' : BanState} {x a a0 b0 B B' : Nat} {o o' : BanOc} {http : BanHttp}
  {rs rs' : List (Nat × BanHttp)} {act : BanAct} {v : Option BanVerdict} {P : BanState → BanAct → Prop}

/-! ## Bans that were passed -/

/-- Why an object that has come to ban `a` could pass ban `B`. -/
def Passed (re : String → String → Bool) (st : BanState) (rs : List (Nat × BanHttp)) (http : BanHttp)
    (a B : Nat) : Prop :=
  (∃ r ∈ rs, B ≤ r.1 ∧ banEvaluate re (st.ban B).spec http r.2 = false) ∨ Harmless re st B http ∨
    ∃ B', a < B' ∧ B' ≤ st.first ∧ (st.ban B').spec = (st.ban B).spec

lemma Harmless.of_spec (hspec : (st'.ban B').spec = (st.ban B).spec) (h : Harmless re st B http) :
    Harmless re st' B' http := by
  unfold Harmless Ban.req at h ⊢
  rw [hspec]
  exact h

lemma Passed.frame (h : Passed re st rs http a B) (hs : SameSpecs st st') (hB : B ≤ st.first) (hrs : rs ⊆ rs') :
    Passed re st' rs' http a B := by
  have hspec := hs.2 B hB
  rcases h with ⟨r, hr, hle, hev⟩ | hharm | ⟨B', h1, h2, h3⟩
  · exact .inl ⟨r, hrs hr, hle, by rw [hspec]; exact hev⟩
  · exact .inr (.inl (hharm.of_spec hspec))
  · exact .inr (.inr ⟨B', h1, h2.trans hs.1, by rw [hs.2 B' h2, hspec, h3]⟩)

/-- A duplicate was passed. -/
lemma Passed.of_dup (h : Passed re st rs http a B') (hspec : (st.ban B').spec = (st.ban B).spec) (hle : B ≤ B') :
    Passed re st rs http a B := by
  rcases h with ⟨r, hr, hle', hev⟩ | hharm | ⟨B'', h1, h2, h3⟩
  · exact .inl ⟨r, hr, hle.trans hle', by rw [← hspec]; exact hev⟩
  · exact .inr (.inl (hharm.of_spec hspec.symm))
  · exact .inr (.inr ⟨B'', h1, h2, h3.trans hspec⟩)

/-- An object at ban `a` that was attached to ban `a0`. -/
structure SinceAt (re : String → String → Bool) (st : BanState) (rs : List (Nat × BanHttp)) (a0 : Nat) (o : BanOc)
    (a : Nat) :
    Prop where
  low : a0 ≤ a
  born : o.busy = true → a = a0
  passed : ∀ B, a0 < B → B ≤ a → Passed re st rs o.http a B

def Since (re : String → String → Bool) (st : BanState) (rs : List (Nat × BanHttp)) (x a0 : Nat) : Prop :=
  ∃ o, st.ocs x = some o ∧ (o.ban = none → o.busy = false) ∧ ∀ a, o.ban = some a → SinceAt re st rs a0 o a

/-- An object stays at its ban. -/
lemma SinceAt.stay (h : SinceAt re st rs a0 o a) (hrs : rs ⊆ rs') (ha : a ≤ st.first)
    (hkeep : o.busy = false → o'.busy = false ∧ o'.http = o.http) : SinceAt re st rs' a0 o' a := by
  refine ⟨h.low, fun hb => h.born ?_, fun B h1 h2 => ?_⟩
  · by_contra hidle
    rw [(hkeep (by simpa using hidle)).1] at hb
    cases hb
  · by_cases hb : o.busy = true
    · have heq := h.born hb
      omega
    · rw [(hkeep (by simpa using hb)).2]
      exact (h.passed B h1 h2).frame ⟨le_rfl, fun _ _ => rfl⟩ (h2.trans ha) hrs

/-- An object moves up past bans that need not be tested again. -/
lemma SinceAt.move (h : SinceAt re st rs a0 o a) (hrs : rs ⊆ rs') (hidle : o.busy = false) (hab : a ≤ b0)
    (hb0 : b0 ≤ st.first)
    (hnew : ∀ B, a < B → B ≤ b0 → Passed re st rs' o.http b0 B) : SinceAt re st rs' a0 { o with ban := some b0 } b0 := by
  refine ⟨h.low.trans hab, fun hb => absurd (hidle.symm.trans hb) (by simp), fun B h1 h2 => ?_⟩
  by_cases hBa : B ≤ a
  · have hsame : SameSpecs st st := ⟨le_rfl, fun _ _ => rfl⟩
    rcases (h.passed B h1 hBa).frame hsame (h2.trans hb0) hrs with hr | hharm | ⟨B', k1, k2, k3⟩
    · exact .inl hr
    · exact .inr (.inl hharm)
    · by_cases hB' : B' ≤ b0
      · exact (hnew B' k1 hB').of_dup k3 (hBa.trans k1.le)
      · exact .inr (.inr ⟨B', Nat.not_le.mp hB', k2, k3⟩)
  · exact hnew B (Nat.not_le.mp hBa) h2

lemma SinceAt.frame (h : SinceAt re st rs a0 o a) (hs : SameSpecs st st') (ha : a ≤ st.first) :
    SinceAt re st' rs a0 o a :=
  ⟨h.low, h.born, fun B h1 h2 => (h.passed B h1 h2).frame hs (h2.trans ha) (List.Subset.refl rs)⟩

/-! ## Moves -/

/-- What a lookup has tested when it moves an object. -/
lemma LookupAt.passed {σ : BanSess} {c : BanCheck} (h : LookupAt re st σ c o c.b) (hmem : (c.b0, σ.req) ∈ rs)
    (h1 : c.b < B)
    (h2 : B ≤ c.b0) : Passed re st rs o.http c.b0 B :=
  .inl ⟨_, hmem, h2, h.walked B h1 h2⟩

/-- The lurker moves an object past bans that it has tested, or that are gone since it tested them or have duplicates. -/
lemma LurkCheckAt.passed {b k : Nat} {c : BanCheck} (h : LurkCheckAt re st b k c o) (hi : BanInv re st)
    (hatt : Att st c.oc o c.b)
    (hskip : c.skipped = 0) (h1 : c.b < B) (h2 : B ≤ c.b0) : Passed re st rs o.http c.b0 B := by
  have htested : ∀ T, c.b < T → T ≤ c.b0 → (st.ban T).gone = false → Harmless re st T o.http := fun T k1 k2 k3 =>
    h.walked T k1 k2 k3 (h.asked hskip T k1 k2 k3)
  by_cases hg : (st.ban B).gone = true
  · rcases hi.guarded c.oc o c.b hatt B h1 (h2.trans h.front) hg with ⟨-, hharm⟩ | ⟨B', k1, k2, k3, k4⟩
    · exact .inr (.inl hharm)
    · by_cases hB' : B' ≤ c.b0
      · exact .inr (.inl ((htested B' (h1.trans k1) hB' k4).of_spec k3.symm))
      · exact .inr (.inr ⟨B', Nat.not_le.mp hB', k2, k3⟩)
  · exact .inr (.inl (htested B h1 h2 (by simpa using hg)))

/-- The object after a step, among the bans before it. -/
lemma BanOcsMove.since {ocs : Nat → Option BanOc} (h : BanOcsMove st act ocs) (hi : BanInv re st)
    (hs : Since re st rs x a0)
    (hact : act ≠ .destroy x) : ∃ o', ocs x = some o' ∧ (o'.ban = none → o'.busy = false) ∧
      ∀ a, o'.ban = some a → a ≤ st.first ∧ SinceAt re st (rs ++ st.lookupsOf x act) a0 o' a := by
  obtain ⟨o, ho, hborn, hat⟩ := hs
  have hrs : rs ⊆ rs ++ st.lookupsOf x act := List.subset_append_left _ _
  have hin : ∀ a, o.ban = some a → a ≤ st.first := fun a ha => (hi.wf.inList x o a ⟨ho, ha⟩).2
  have hstay : ∀ o' : BanOc, ocs x = some o' → o'.ban = o.ban → (o.busy = false → o'.busy = false ∧ o'.http = o.http) →
      ∃ o', ocs x = some o' ∧ (o'.ban = none → o'.busy = false) ∧
        ∀ a, o'.ban = some a → a ≤ st.first ∧ SinceAt re st (rs ++ st.lookupsOf x act) a0 o' a := by
    intro o' ho' hban hkeep
    refine ⟨o', ho', fun hn => (hkeep (hborn (hban.symm.trans hn))).1, fun a ha => ?_⟩
    have ha' := hban.symm.trans ha
    exact ⟨hin a ha', (hat a ha').stay hrs (hin a ha') hkeep⟩
  have hdrop : ∀ o' : BanOc, ocs x = some o' → o'.ban = none → o'.busy = false →
      ∃ o', ocs x = some o' ∧ (o'.ban = none → o'.busy = false) ∧
        ∀ a, o'.ban = some a → a ≤ st.first ∧ SinceAt re st (rs ++ st.lookupsOf x act) a0 o' a := by
    intro o' ho' hban hidle
    exact ⟨o', ho', fun _ => hidle, fun a ha => absurd (hban.symm.trans ha) (by simp)⟩
  have hother : ∀ {y o1}, ocs = Function.update st.ocs y o1 → x ≠ y → ocs x = some o := by
    intro y o1 hocs hne
    rw [hocs, Function.update_of_ne hne]
    exact ho
  have hkept : o.busy = false → o.busy = false ∧ o.http = o.http := fun hb => ⟨hb, rfl⟩
  cases h with
  | same => exact hstay o ho rfl hkept
  | create h =>
    refine hstay o (hother rfl ?_) rfl hkept
    rintro rfl
    rw [ho] at h
    cases h
  | @attach y p h hbusy hban =>
    by_cases hy : x = y
    · subst hy
      cases ho.symm.trans h
      rw [hborn hban] at hbusy
      cases hbusy
    · exact hstay o (hother rfl hy) rfl hkept
  | @unbusy y http p h hbusy =>
    by_cases hy : x = y
    · subst hy
      cases ho.symm.trans h
      exact hstay _ (Function.update_self _ _ _) rfl fun hb => absurd (hbusy.symm.trans hb) (by simp)
    · exact hstay o (hother rfl hy) rfl hkept
  | @unlink y p h hfree =>
    by_cases hy : x = y
    · subst hy
      cases ho.symm.trans h
      exact hstay _ (Function.update_self _ _ _) rfl hkept
    · exact hstay o (hother rfl hy) rfl hkept
  | @destroy y p h hoff => exact hstay o (hother rfl fun hy => hact (by rw [hy])) rfl hkept
  | @look y p lurk h hfree =>
    by_cases hy : x = y
    · subst hy
      cases ho.symm.trans h
      exact hstay _ (Function.update_self _ _ _) rfl hkept
    · exact hstay o (hother rfl hy) rfl hkept
  | @lookup s σ c p hσ hc h =>
    by_cases hy : x = c.oc
    · subst hy
      cases ho.symm.trans h.1
      obtain ⟨q, a, hl⟩ := hi.sess.lookup s σ hσ c hc
      cases ho.symm.trans hl.att.1
      cases h.2.symm.trans hl.att.2
      have hmem : (c.b0, σ.req) ∈ rs ++ st.lookupsOf c.oc (.finish s) := by
        simp [lookupsOf, hσ, hc]
      refine ⟨_, Function.update_self _ _ _, fun hn => (by cases hn), fun a ha => ?_⟩
      cases ha
      exact ⟨hl.front, (hat c.b h.2).move hrs hl.idle hl.high hl.front fun B h1 h2 => hl.passed hmem h1 h2⟩
    · exact hstay o (hother rfl hy) rfl hkept
  | @lookupHit s σ c p a hσ hc h =>
    by_cases hy : x = c.oc
    · subst hy
      cases ho.symm.trans h.1
      obtain ⟨q, a, hl⟩ := hi.sess.lookup s σ hσ c hc
      cases ho.symm.trans hl.att.1
      exact hdrop _ (Function.update_self _ _ _) rfl hl.idle
    · exact hstay o (hother rfl hy) rfl hkept
  | @lurk b k c p hl h hskip =>
    by_cases hy : x = c.oc
    · subst hy
      cases ho.symm.trans h.1
      obtain ⟨q, β, -, hphase⟩ := hi.lurk
      rw [hl] at hphase
      obtain ⟨-, -, r, hgot, hck⟩ := hphase
      cases ho.symm.trans hgot.att.1
      refine ⟨_, Function.update_self _ _ _, fun hn => (by cases hn), fun a ha => ?_⟩
      cases ha
      exact ⟨hck.front, (hat c.b h.2).move hrs hgot.idle hck.high hck.front fun B h1 h2 => hck.passed hi h hskip h1 h2⟩
    · exact hstay o (hother rfl hy) rfl hkept
  | @lurkHit b k c p a hl h =>
    by_cases hy : x = c.oc
    · subst hy
      cases ho.symm.trans h.1
      obtain ⟨q, β, -, hphase⟩ := hi.lurk
      rw [hl] at hphase
      obtain ⟨-, -, r, hgot, -⟩ := hphase
      cases ho.symm.trans hgot.att.1
      exact hdrop _ (Function.update_self _ _ _) rfl hgot.idle
    · exact hstay o (hother rfl hy) rfl hkept
  | @lurkUnsure b k c p a lurk hl h =>
    by_cases hy : x = c.oc
    · subst hy
      cases ho.symm.trans h.1
      exact hstay _ (Function.update_self _ _ _) rfl hkept
    · exact hstay o (hother rfl hy) rfl hkept

/-! ## Runs -/

lemma exec_since (hi : BanInv re st) (hs : Since re st rs x a0) (hact : act ≠ .destroy x)
    (hexec : st.exec re act = some (st', v)) : Since re st' (rs ++ st.lookupsOf x act) x a0 := by
  obtain ⟨hspecs, hocs, -⟩ := exec_shape hexec
  obtain ⟨o', ho', hborn, hat⟩ := hocs.since hi hs hact
  exact ⟨o', ho', hborn, fun a ha => (hat a ha).2.frame hspecs (hat a ha).1⟩

lemma attach_since (hexec : st.exec re (.attach x) = some (st', v)) : Since re st' [] x st.first := by
  obtain ⟨s, hs, he⟩ := Option.map_eq_some_iff.mp hexec
  cases he
  unfold banNewObjCore at hs
  obtain ⟨o, ho, hs⟩ := Option.bind_eq_some_iff.mp hs
  split_ifs at hs with hc
  cases hs
  refine ⟨_, Function.update_self _ _ _, fun hn => (by cases hn), fun a ha => ?_⟩
  cases ha
  exact ⟨le_rfl, fun _ => rfl, fun B h1 h2 => absurd h1 (Nat.not_lt.mpr h2)⟩

lemma BanSince.since (h : BanSince re (BanCond re) x a0 st rs) : BanInv re st ∧ Since re st rs x a0 := by
  induction h with
  | attach h ha hP hexec =>
    subst ha
    exact ⟨exec_inv (BanReach.inv h) hP hexec, attach_since hexec⟩
  | step _ hP hact hexec ih => exact ⟨exec_inv ih.1 hP hexec, exec_since ih.1 ih.2 hact hexec⟩

lemma BanSince.reach (h : BanSince re P x a0 st rs) : BanReach re P st := by
  induction h with
  | attach h _ hP hexec => exact h.step hP hexec
  | step _ hP _ hexec ih => exact ih.step hP hexec

/-- A lookup only checks an object that is on a ban. -/
lemma LookupVerdict.attached {s : Nat} {w : BanVerdict} (h : LookupVerdict re P s x st w) (ho : st.ocs x = some o) :
    ∃ a, o.ban = some a := by
  have hbegin : ∀ r, st.lookupBegin s x = some r → ∃ a, o.ban = some a := by
    intro r hr
    unfold lookupBegin at hr
    obtain ⟨σ, hσ, hr⟩ := Option.bind_eq_some_iff.mp hr
    rw [ho] at hr
    simp only [Option.bind_eq_bind, Option.bind_some] at hr
    split_ifs at hr with hc
    simp only [not_or] at hc
    exact Option.ne_none_iff_exists'.mp hc.2.2.2.2
  cases h with
  | atOnce h1 => exact hbegin _ h1
  | later h1 _ _ => exact hbegin _ h1

/-- In a run whose steps meet the condition, a lookup that finds an object not banned has this of every ban that was
inserted since the object was attached: a lookup that began since then, this one or an earlier one of the object,
has tested it without a match; and this lookup's request does not make it match, if the ban does not test the
request, or is newer than the one that the object has come to. -/
theorem no_ban_escape (h : BanSince re (BanCond re) x a0 st rs) {s : Nat} {σ : BanSess} {o : BanOc}
    (hσ : st.sess s = some σ) (ho : st.ocs x = some o) (hv : LookupVerdict re (BanCond re) s x st .notBanned) :
    ∀ B, a0 < B → B ≤ st.first →
      (∃ r ∈ rs ++ [(st.first, σ.req)], B ≤ r.1 ∧ banEvaluate re (st.ban B).spec o.http r.2 = false) ∧
      ((st.ban B).req = false ∨ (∀ a, o.ban = some a → a < B) → banEvaluate re (st.ban B).spec o.http σ.req = false) := by
  intro B haB hB
  obtain ⟨hi, o', ho', -, hat⟩ := BanSince.since h
  cases ho.symm.trans ho'
  obtain ⟨a, ha⟩ := LookupVerdict.attached hv ho
  have htests := lookup_tests (BanSince.reach h) hσ ho ha hv
  have hthis : banEvaluate re (st.ban B).spec o.http σ.req = false →
      (∃ r ∈ rs ++ [(st.first, σ.req)], B ≤ r.1 ∧ banEvaluate re (st.ban B).spec o.http r.2 = false) ∧
      ((st.ban B).req = false ∨ (∀ a, o.ban = some a → a < B) → banEvaluate re (st.ban B).spec o.http σ.req = false) :=
    fun hev => ⟨⟨(st.first, σ.req), by simp, hB, hev⟩, fun _ => hev⟩
  by_cases hBa : B ≤ a
  · rcases (hat a ha).passed B haB hBa with ⟨r, hr, hle, hev⟩ | ⟨-, hharm⟩ | ⟨B', h1, h2, h3⟩
    · refine ⟨⟨r, List.mem_append_left _ hr, hle, hev⟩, fun hcase => ?_⟩
      rcases hcase with hreq | hnewer
      · rw [banEvaluate_noReq hreq o.http σ.req r.2]
        exact hev
      · exact absurd (hnewer a ha) (Nat.not_lt.mpr hBa)
    · exact hthis (hharm σ.req)
    · refine hthis ?_
      rw [← h3]
      exact htests B' h1 h2
  · exact hthis (htests B (Nat.not_le.mp hBa) hB)

/-! ## Runs that are computed -/

/-- The state after some steps. -/
def banRun (re : String → String → Bool) (st : BanState) : List BanAct → Option BanState
  | [] => some st
  | act :: acts => (st.exec re act).bind (fun r => banRun re r.1 acts)

/-- `BanCond` for steps other than `.hunt`. -/
def condOk (st : BanState) : BanAct → Bool
  | .look =>
    match st.lurker with
    | .working b _ =>
      match (st.ban b).objcore with
      | x :: _ =>
        (st.ocs x).all (fun oc => !oc.busy || decide (oc.lurk = st.pass) || (st.mtx oc.objhead).isSome || !oc.onHead)
      | [] => true
    | _ => true
  | .finish s =>
    (st.sess s).all (fun σ => σ.check.all (fun c =>
      (st.ocs c.oc).all (fun oc => decide (oc.ban ≠ some c.b ∨ oc.lurk = 0))))
  | .hunt _ => false
  | _ => true

lemma condOk_sound (h : condOk st act = true) : BanCond re st act := by
  cases act with
  | look =>
    intro b b0 x l oc hl hobj hoc hbusy
    simpa [condOk, hl, hobj, hoc, hbusy, or_assoc] using h
  | finish s =>
    intro σ c oc hσ hc hoc hban
    simpa [condOk, hσ, hc, hoc, hban] using h
  | hunt p => cases h
  | _ => trivial

def destroys (x : Nat) : BanAct → Bool
  | .destroy y => decide (y = x)
  | _ => false

/-- The state after some steps that all pass a check, with the lookups of `x` that have ended. -/
def sinceRun (re : String → String → Bool) (ok : BanState → BanAct → Bool) (x : Nat) :
    BanState → List (Nat × BanHttp) → List BanAct → Option (BanState × List (Nat × BanHttp))
  | st, rs, [] => some (st, rs)
  | st, rs, act :: acts =>
    if ok st act && !destroys x act then
      (st.exec re act).bind (fun r => sinceRun re ok x r.1 (rs ++ st.lookupsOf x act) acts)
    else none

lemma sinceRun_since {ok : BanState → BanAct → Bool} {acts : List BanAct} (hok : ∀ st act, ok st act = true → P st act)
    (h : BanSince re P x a0 st rs) (hrun : sinceRun re ok x st rs acts = some (st', rs')) :
    BanSince re P x a0 st' rs' := by
  induction acts generalizing st rs with
  | nil =>
    cases hrun
    exact h
  | cons act acts ih =>
    rw [sinceRun] at hrun
    split_ifs at hrun with hc
    obtain ⟨hP, hd⟩ := Bool.and_eq_true_iff.mp hc
    obtain ⟨⟨st1, v⟩, hexec, hrest⟩ := Option.bind_eq_some_iff.mp hrun
    refine ih (h.step (hok st act hP) ?_ hexec) hrest
    rintro rfl
    simp [destroys] at hd

lemma banRun_steps {P : BanState → BanAct → Prop} {s : Nat} {acts : List BanAct} {st0 : BanState}
    (h : BanSteps re P s st0 st) (hP : ∀ act ∈ acts, act ≠ .finish s ∧ ∀ st, P st act)
    (hrun : banRun re st acts = some st') : BanSteps re P s st0 st' := by
  induction acts generalizing st with
  | nil =>
    cases hrun
    exact h
  | cons act acts ih =>
    obtain ⟨⟨st1, v⟩, h1, h2⟩ := Option.bind_eq_some_iff.mp hrun
    obtain ⟨h3, h4⟩ := hP act List.mem_cons_self
    exact ih (h.step (h4 st) h3 h1) (fun act' ha => hP act' (List.mem_cons_of_mem _ ha)) h2

/-- The verdict of a lookup with some steps between its beginning and its end. -/
def lookupRun (re : String → String → Bool) (st : BanState) (s x : Nat) (acts : List BanAct) : Option BanVerdict := do
  let r ← st.exec re (.check s x)
  match r.2 with
  | some v => some v
  | none =>
    let st2 ← banRun re r.1 acts
    let r2 ← st2.exec re (.finish s)
    r2.2

lemma lookupRun_verdict {P : BanState → BanAct → Prop} {s x : Nat} {acts : List BanAct} {v : BanVerdict}
    (hP : ∀ act ∈ acts, act ≠ .finish s ∧ ∀ st, P st act) (h : lookupRun re st s x acts = some v) :
    LookupVerdict re P s x st v := by
  unfold lookupRun at h
  obtain ⟨⟨st1, v1⟩, h1, h⟩ := Option.bind_eq_some_iff.mp h
  cases v1 with
  | some v1 =>
    cases h
    exact .atOnce h1
  | none =>
    obtain ⟨st2, h2, h⟩ := Option.bind_eq_some_iff.mp h
    obtain ⟨⟨st3, v3⟩, h3, h⟩ := Option.bind_eq_some_iff.mp h
    change v3 = some v at h
    subst h
    exact .later h1 (banRun_steps .refl hP h2) h3

/-- A ban on a response header. -/
def headerBan (value : String) : List BanTest := [{ arg1 := .objHttp "x", oper := .eq, arg2 := value }]

def headerOne : BanHttp := { url := some "/", hdr := fun n => if n = "x" then some "1" else none, status := 200 }

def noRegex (_ _ : String) : Bool := false

/-- An object has been created and attached to the first ban. -/
def bornState : BanState := (banRun noRegex .init [.create 1 1, .attach 1]).get (by decide)

lemma bornState_since (hcreate : ∀ st, P st (.create 1 1)) (hattach : ∀ st, P st (.attach 1)) :
    BanSince noRegex P 1 1 bornState [] := by
  have h1 : BanState.init.exec noRegex (.create 1 1) = some _ := rfl
  have h2 : (banRun noRegex .init [.create 1 1]).bind (fun st => st.exec noRegex (.attach 1)) =
      some (bornState, none) := rfl
  exact .attach (BanReach.init.step (hcreate _) h1) rfl (hattach _) h2

/-- The lurker moves the object past a ban, and again past one that came meanwhile. A lookup moves it past a ban on the
request. -/
def movedRun : List BanAct :=
  [.unbusy 1 headerOne, .insert (headerBan "2") false, .startPass, .tag, .tag, .tag, .look, .lurkBegin, .lurkWalk,
    .lurkFinish, .look, .insert (headerBan "3") false, .look, .lurkBegin, .lurkWalk, .lurkFinish, .look,
    .insert [{ arg1 := .reqUrl, oper := .eq, arg2 := "/x" }] false, .lock 1 1 headerOne, .check 1 1, .walk 1, .finish 1,
    .insert (headerBan "4") false]

def movedState : BanState := ((sinceRun noRegex condOk 1 bornState [] movedRun).get (by decide)).1

theorem no_ban_escape_moved : BanSince noRegex (BanCond noRegex) 1 1 movedState [(4, headerOne)] ∧
    (movedState.ocs 1).map (·.ban) = some (some 4) ∧ movedState.first = 5 ∧
    LookupVerdict noRegex (BanCond noRegex) 1 1 movedState .notBanned ∧
    ∀ B, 1 < B → B ≤ 5 → (movedState.ban B).req = false →
      banEvaluate noRegex (movedState.ban B).spec headerOne headerOne = false := by
  have hsince : BanSince noRegex (BanCond noRegex) 1 1 movedState [(4, headerOne)] :=
    sinceRun_since (fun _ _ => condOk_sound) (bornState_since (fun _ => trivial) fun _ => trivial)
      (show sinceRun noRegex condOk 1 bornState [] movedRun = some (movedState, [(4, headerOne)]) from rfl)
  have hv : LookupVerdict noRegex (BanCond noRegex) 1 1 movedState .notBanned := by
    have hrun : lookupRun noRegex movedState 1 1 [.walk 1] = some .notBanned := by decide
    refine lookupRun_verdict (fun act ha => ?_) hrun
    rw [List.mem_singleton.mp ha]
    exact ⟨by simp, fun _ => trivial⟩
  have hσ : movedState.sess 1 = some { objhead := 1, req := headerOne, check := none } := rfl
  have ho : movedState.ocs 1 = some
      { objhead := 1, busy := false, onHead := true, lurk := 0, ban := some 4, http := headerOne } := rfl
  exact ⟨hsince, rfl, rfl, hv, fun B h1 h2 hreq => (no_ban_escape hsince hσ ho hv B h1 h2).2 (.inl hreq)⟩

/-- The object was busy when the lurker came by, so the lurker tagged it and then retired the ban. -/
def missedRun : List BanAct :=
  [.insert (headerBan "1") false, .startPass, .tag, .tag, .tag, .look, .look, .look, .unbusy 1 headerOne,
    .lock 1 1 headerOne]

/-- A ban that was inserted while the object was busy, and that matches it, is not seen by a lookup. -/
theorem ban_escapes_busy_object : ∃ st σ o, BanSince noRegex (fun _ _ => True) 1 1 st [] ∧ st.sess 1 = some σ ∧
    st.ocs 1 = some o ∧ st.first = 2 ∧ (st.ban 2).req = false ∧
    banEvaluate noRegex (st.ban 2).spec o.http σ.req = true ∧
    LookupVerdict noRegex (fun _ _ => True) 1 1 st .notBanned := by
  have hrun : sinceRun noRegex (fun _ _ => true) 1 bornState [] missedRun = some _ := rfl
  refine ⟨_, { objhead := 1, req := headerOne, check := none },
    { objhead := 1, busy := false, onHead := true, lurk := 1, ban := some 1, http := headerOne },
    sinceRun_since (fun _ _ _ => trivial) (bornState_since (fun _ => trivial) fun _ => trivial) hrun,
      rfl, rfl, rfl, by decide,
    by decide, ?_⟩
  have hacts : ∀ act ∈ [BanAct.walk 1], act ≠ .finish 1 ∧ ∀ _ : BanState, True := by simp
  exact lookupRun_verdict hacts (by decide)

end VarnishCache.Proofs
