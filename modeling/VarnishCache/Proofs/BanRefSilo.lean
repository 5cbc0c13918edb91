import VarnishCache.Proofs.BanRefWrites

/-!
# Steps of silo threads

A silo thread has a reference to the last ban while it loads objcores, so the ban that `BAN_RefBan` finds is still on
the list when it takes the mutex.
-/

namespace VarnishCache.Proofs

open VarnishCache BanState BanRefState RefCount

variable {re : String → String → Bool} {st st' : BanRefState} {x t : Nat} {o : BanOc}

/-- What the other threads see of a step of silo thread `t`, which works on the objcores of `own` only. -/
structure SiloStep (t : Nat) (own : Nat → Prop) (st st' : BanRefState) : Prop where
  first : st'.core.first = st.core.first
  mtx : st'.core.mtx = st.core.mtx
  sess : st'.core.sess = st.core.sess
  lurker : st'.core.lurker = st.core.lurker
  ocs : ∀ y, ¬ own y → st'.core.ocs y = st.core.ocs y
  late : ∀ y, ¬ own y → st'.late y = st.late y
  loading : ∀ y, ¬ own y → st'.loading y = st.loading y
  silos : ∀ u, u ≠ t → st'.silos u = st.silos u
  offHead : ∀ y o, own y → st.core.ocs y = some o → o.onHead = false
  others : ∀ u p y, u ≠ t → st.silos u = some p → loadOc p.load = some y → ¬ own y
  before : ∀ p y, st.silos t = some p → loadOc p.load = some y → own y
  after : ∀ p y, st'.silos t = some p → loadOc p.load = some y → own y

lemma SiloStep.threads {own : Nat → Prop} (h : SiloStep t own st st') (hi : BanThreads st)
    (hload : ∀ p y, st'.silos t = some p → loadOc p.load = some y → ∃ o, LoadAt st' p y o)
    (hunborn : ∀ y, own y → st'.loading y = true → ∃ o, st'.core.ocs y = some o ∧ o.onHead = false ∧ o.busy = false)
    (hlate : ∀ y l, own y → st'.late y = some l → ∃ p, st'.silos t = some p ∧ p.load = .storing y) : BanThreads st' := by
  have hcheck : ∀ hd, st'.check hd = st.check hd := by
    intro hd
    cases hd with
    | sess s => simp only [BanRefState.check, h.sess]
    | lurker => simp only [BanRefState.check, h.lurker]
  have hheld : ∀ hd y o, HeldOc st hd y o → HeldOc st' hd y o ∧ ¬ own y := by
    intro hd y o hh
    have hown : ¬ own y := by
      intro hy
      have hoff := h.offHead y o hy hh.oc
      rw [hh.onHead] at hoff
      cases hoff
    exact ⟨⟨by rw [h.ocs y hown]; exact hh.oc, hh.onHead, hh.idle, by rw [h.mtx]; exact hh.mtx⟩, hown⟩
  exact
    { sess := by
        intro s σ hσ
        rw [h.sess] at hσ
        rw [h.mtx]
        exact hi.sess s σ hσ
      check := by
        intro hd c hc
        rw [hcheck] at hc
        obtain ⟨o, a, hat⟩ := hi.check hd c hc
        exact ⟨o, a, (hheld hd c.oc o hat.held).1, hat.ban, hat.newer, hat.low, hat.high, by rw [h.first]; exact hat.front⟩
      got := by
        intro b b0 x hl
        rw [h.lurker] at hl
        obtain ⟨o, hh, hb, hlt⟩ := hi.got b b0 x hl
        obtain ⟨hh', hown⟩ := hheld .lurker x o hh
        exact ⟨o, hh', hb, by rw [h.late x hown]; exact hlt⟩
      lurk := by
        intro b b0 c hl
        rw [h.lurker] at hl
        obtain ⟨o, ho, hb⟩ := hi.lurk b b0 c hl
        obtain ⟨o', a, hat⟩ := hi.check .lurker c (by simp only [BanRefState.check, hl])
        obtain ⟨-, hown⟩ := hheld .lurker c.oc o' hat.held
        exact ⟨o, by rw [h.ocs c.oc hown]; exact ho, hb⟩
      late := by
        intro y l hl
        by_cases hy : own y
        · obtain ⟨p, hp, hst⟩ := hlate y l hy hl
          exact Or.inr ⟨t, p, hp, hst⟩
        · rw [h.late y hy] at hl
          rcases hi.late y l hl with ⟨hd, c, hc, hoc, hb⟩ | ⟨u, p, hp, hst⟩
          · exact Or.inl ⟨hd, c, by rw [hcheck]; exact hc, hoc, hb⟩
          · have hut : u ≠ t := by
              rintro rfl
              exact hy (h.before p y hp (by rw [hst]; rfl))
            exact Or.inr ⟨u, p, by rw [h.silos u hut]; exact hp, hst⟩
      load := by
        intro u p y hp hy
        by_cases hut : u = t
        · subst hut
          exact hload p y hp hy
        · rw [h.silos u hut] at hp
          have hown := h.others u p y hut hp hy
          obtain ⟨o, hl⟩ := hi.load u p y hp hy
          refine ⟨o, by rw [h.ocs y hown]; exact hl.oc, hl.offHead, hl.idle,
            by rw [h.loading y hown]; exact hl.loading, ?_⟩
          have hph := hl.phase
          unfold LoadPhase at hph ⊢
          rw [h.late y hown, h.first]
          exact hph
      unborn := by
        intro y hl
        by_cases hy : own y
        · exact hunborn y hy hl
        · rw [h.loading y hy] at hl
          obtain ⟨o, ho, hoff, hidle⟩ := hi.unborn y hl
          exact ⟨o, by rw [h.ocs y hy]; exact ho, hoff, hidle⟩
      alone := by
        intro u v p q y hp hq hpy hqy
        by_cases hu : u = t
        · by_cases hv : v = t
          · rw [hu, hv]
          · subst hu
            rw [h.silos v hv] at hq
            exact (h.others v q y hv hq hqy (h.after p y hp hpy)).elim
        · by_cases hv : v = t
          · subst hv
            rw [h.silos u hu] at hp
            exact (h.others u p y hu hp hpy (h.after q y hq hqy)).elim
          · rw [h.silos u hu] at hp
            rw [h.silos v hv] at hq
            exact hi.alone u v p q y hp hq hpy hqy }

lemma tailOf_setSilo (st : BanRefState) (t : Nat) (p : Option BanSilo) :
    tailOf (st.setSilo t p) = Function.update (tailOf st) t (p.map BanSilo.tail) := by
  funext u
  by_cases hu : u = t
  · subst hu
    simp [tailOf, setSilo]
  · simp [tailOf, setSilo, hu]

/-- A silo thread that works on no objcore. -/
lemma idleSilo_threads (hi : BanThreads st) {core : BanState} {p : Option BanSilo}
    (hold : ∀ q, st.silos t = some q → q.load = .no) (hnew : ∀ q, p = some q → q.load = .no)
    (hfirst : core.first = st.core.first) (hocs : core.ocs = st.core.ocs) (hmtx : core.mtx = st.core.mtx)
    (hsess : core.sess = st.core.sess) (hlurker : core.lurker = st.core.lurker) :
    BanThreads ({ st with core := core }.setSilo t p) := by
  have hidle : ∀ q y, ({ st with core := core }.setSilo t p).silos t = some q → loadOc q.load ≠ some y := by
    intro q y hq hy
    change Function.update st.silos t p t = _ at hq
    rw [Function.update_self] at hq
    rw [hnew q hq] at hy
    cases hy
  have hstep : SiloStep t (fun _ => False) st ({ st with core := core }.setSilo t p) :=
    { first := hfirst
      mtx := hmtx
      sess := hsess
      lurker := hlurker
      ocs := fun y _ => by change core.ocs y = _; rw [hocs]
      late := fun y _ => rfl
      loading := fun y _ => rfl
      silos := fun u hu => Function.update_of_ne hu _ _
      offHead := fun y o hy => hy.elim
      others := fun u p y _ _ _ hy => hy
      before := by
        intro q y hq hy
        rw [hold q hq] at hy
        cases hy
      after := fun q y hq hy => hidle q y hq hy }
  refine hstep.threads hi ?_ ?_ ?_
  · intro q y hq hy
    exact (hidle q y hq hy).elim
  · exact fun y hy => hy.elim
  · exact fun y l hy => hy.elim

lemma banTailRef_refInv (hi : BanRefInv st) (h : st.banTailRef t = some st') : BanRefInv st' := by
  unfold BanRefState.banTailRef at h
  split at h
  · cases h
  rename_i hsome
  have hnone : st.silos t = none := by simpa using hsome
  cases h
  refine ⟨?_, idleSilo_threads hi.threads ?_ ?_ rfl rfl rfl rfl rfl⟩
  · unfold BanBooked
    rw [tailOf_setSilo]
    refine hi.book.retail (v := some st.core.last) ?_ ?_
    · rintro a ⟨⟩
      exact ⟨le_rfl, hi.book.order⟩
    · intro a
      have htail : tailOf st t = none := by
        rw [tailOf, hnone]
        rfl
      change ((st.core.setBan st.core.last (fun b => { b with refcount := b.refcount + 1 })).ban a).refcount +
          ref (tailOf st t) a = _ ∧
        ((st.core.setBan st.core.last (fun b => { b with refcount := b.refcount + 1 })).ban a).objcore = _
      rw [setBan_apply, htail, ref_none]
      by_cases ha : a = st.core.last
      · subst ha
        rw [if_pos rfl, ref_self]
        exact ⟨rfl, rfl⟩
      · rw [if_neg ha, ref_of_ne (by simpa using Ne.symm ha)]
        exact ⟨rfl, rfl⟩
  · intro q hq
    rw [hnone] at hq
    cases hq
  · rintro q ⟨⟩
    rfl

lemma banTailDeref_refInv (hi : BanRefInv st) (h : st.banTailDeref t = some st') : BanRefInv st' := by
  obtain ⟨p, hp, h⟩ := Option.bind_eq_some_iff.mp h
  split at h
  · cases h
  rename_i hload
  push Not at hload
  cases h
  refine ⟨?_, idleSilo_threads hi.threads ?_ ?_ rfl rfl rfl rfl rfl⟩
  · unfold BanBooked
    rw [tailOf_setSilo]
    have htail : tailOf st t = some p.tail := by
      rw [tailOf, hp]
      rfl
    refine hi.book.retail (v := none) ?_ ?_
    · rintro a ⟨⟩
    · intro a
      change ((st.core.setBan p.tail (fun b => { b with refcount := b.refcount - 1 })).ban a).refcount +
          ref (tailOf st t) a = _ ∧
        ((st.core.setBan p.tail (fun b => { b with refcount := b.refcount - 1 })).ban a).objcore = _
      rw [setBan_apply, htail, ref_none]
      by_cases ha : a = p.tail
      · subst ha
        rw [if_pos rfl, ref_self]
        have hpos := hi.book.tail_pos htail
        exact ⟨Nat.sub_add_cancel hpos, rfl⟩
      · rw [if_neg ha, ref_of_ne (by simpa using Ne.symm ha)]
        exact ⟨rfl, rfl⟩
  · intro q hq
    rw [hp] at hq
    cases hq
    exact hload
  · rintro q ⟨⟩

/-- A step of silo thread `t` on objcore `x`. -/
structure LoadStep (t x : Nat) (p q : BanSilo) (st st' : BanRefState) : Prop where
  first : st'.core.first = st.core.first
  mtx : st'.core.mtx = st.core.mtx
  sess : st'.core.sess = st.core.sess
  lurker : st'.core.lurker = st.core.lurker
  ocs : ∀ y, y ≠ x → st'.core.ocs y = st.core.ocs y
  late : ∀ y, y ≠ x → st'.late y = st.late y
  loading : ∀ y, y ≠ x → st'.loading y = st.loading y
  silo : st.silos t = some p
  silos : st'.silos = Function.update st.silos t (some q)
  before : ∀ y, loadOc p.load = some y → y = x
  after : ∀ y, loadOc q.load = some y → y = x

lemma LoadStep.threads {p q : BanSilo} (h : LoadStep t x p q st st') (hi : BanThreads st)
    (hx : (loadOc p.load = some x) ∨ st.core.ocs x = none)
    (hload : ∀ y, loadOc q.load = some y → ∃ o, LoadAt st' q x o)
    (hunborn : st'.loading x = true → ∃ o, st'.core.ocs x = some o ∧ o.onHead = false ∧ o.busy = false)
    (hlate : ∀ l, st'.late x = some l → q.load = .storing x) : BanThreads st' := by
  have hq : st'.silos t = some q := by rw [h.silos, Function.update_self]
  have hstep : SiloStep t (fun y => y = x) st st' :=
    { first := h.first
      mtx := h.mtx
      sess := h.sess
      lurker := h.lurker
      ocs := h.ocs
      late := h.late
      loading := h.loading
      silos := fun u hu => by rw [h.silos, Function.update_of_ne hu]
      offHead := by
        rintro y o rfl ho
        rcases hx with hpx | hnone
        · obtain ⟨o', hl⟩ := hi.load t p y h.silo hpx
          obtain rfl := Option.some.inj (hl.oc.symm.trans ho)
          exact hl.offHead
        · rw [hnone] at ho
          cases ho
      others := by
        rintro u r y hut hr hy rfl
        rcases hx with hpx | hnone
        · exact hut (hi.alone u t r p y hr h.silo hy hpx)
        · obtain ⟨o, hl⟩ := hi.load u r y hr hy
          cases hnone.symm.trans hl.oc
      before := by
        intro r y hr hy
        rw [h.silo] at hr
        cases hr
        exact h.before y hy
      after := by
        intro r y hr hy
        rw [hq] at hr
        cases hr
        exact h.after y hy }
  refine hstep.threads hi ?_ ?_ ?_
  · intro r y hr hy
    rw [hq] at hr
    cases hr
    obtain rfl := h.after y hy
    exact hload y hy
  · rintro y rfl hl
    exact hunborn hl
  · rintro y l rfl hl
    exact ⟨q, hq, hlate l hl⟩

/-- The books do not notice a step of a silo thread that leaves the bans alone. -/
lemma LoadStep.book {p q : BanSilo} (h : LoadStep t x p q st st') (hi : BanBooked st) (htail : q.tail = p.tail)
    (hlast : st'.core.last = st.core.last) (hban : st'.core.ban = st.core.ban) (hhunts : st'.core.hunts = st.core.hunts)
    (hx : banPtr st' x = banPtr st x) : BanBooked st' := by
  have hptr : banPtr st' = banPtr st := by
    funext y
    by_cases hy : y = x
    · subst hy
      exact hx
    · rw [banPtr, h.ocs y hy, h.late y hy]
      rfl
  have htails : tailOf st' = tailOf st := by
    funext u
    rw [tailOf, h.silos]
    by_cases hu : u = t
    · subst hu
      rw [Function.update_self, tailOf, h.silo]
      exact congrArg some htail
    · rw [Function.update_of_ne hu]
      rfl
  unfold BanBooked
  rw [hptr, htails, h.first, hlast, hban, hhunts]
  exact hi

/-- A silo thread begins with a new objcore. -/
lemma startLoad_refInv (hi : BanRefInv st) {p : BanSilo} {t0 : Int} {e : Exp} (hp : st.silos t = some p)
    (hload : p.load = .no) (hnone : st.core.ocs x = none) (hoff : o.onHead = false) (hidle : o.busy = false)
    (hban : o.ban = none) :
    BanRefInv ((({ st with core := st.core.setOc x (some o) }.setExp x e).setLoading x true).setSilo t
      (some { p with load := .walking x t0 st.core.first })) := by
  have hlate : st.late x = none := by
    refine hi.threads.late_none ?_
    intro q hq
    rw [hnone] at hq
    cases hq
  have hstep : LoadStep t x p { p with load := .walking x t0 st.core.first } st
      ((({ st with core := st.core.setOc x (some o) }.setExp x e).setLoading x true).setSilo t
        (some { p with load := .walking x t0 st.core.first })) :=
    { first := rfl
      mtx := rfl
      sess := rfl
      lurker := rfl
      ocs := fun y hy => Function.update_of_ne hy _ _
      late := fun y _ => rfl
      loading := fun y hy => Function.update_of_ne hy _ _
      silo := hp
      silos := rfl
      before := by
        intro y hy
        rw [hload] at hy
        cases hy
      after := by
        rintro y ⟨⟩
        rfl }
  have hoc : Function.update st.core.ocs x (some o) x = some o := Function.update_self _ _ _
  refine ⟨hstep.book hi.book rfl rfl rfl rfl ?_, hstep.threads hi.threads (Or.inr hnone) ?_ ?_ ?_⟩
  · have hnew : (Function.update st.core.ocs x (some o) x).bind (fun o => lateBan (st.late x) o.ban) = none := by
      rw [hoc, hlate]
      exact hban
    refine hnew.trans ?_
    rw [banPtr, hnone]
    rfl
  · intro y _
    exact ⟨o, hoc, hoff, hidle, Function.update_self _ _ _, hban, hlate,
      (hi.book.tail t p.tail (by rw [tailOf, hp]; rfl)).2, le_rfl⟩
  · intro _
    exact ⟨o, hoc, hoff, hidle⟩
  · intro l hl
    cases hlate.symm.trans hl

lemma loadObj_refInv (hi : BanRefInv st) {t0 : Int} {http : BanHttp} {e : Exp}
    (h : st.loadObj t x t0 http e = some st') : BanRefInv st' := by
  obtain ⟨p, hp, h⟩ := Option.bind_eq_some_iff.mp h
  split at h
  · cases h
  rename_i hcond
  push Not at hcond
  cases h
  exact startLoad_refInv hi hp hcond.1 (by simpa using hcond.2) rfl rfl rfl

lemma refWalk_refInv (hi : BanRefInv st) (h : st.refWalk t = some st') : BanRefInv st' := by
  obtain ⟨p, hp, h⟩ := Option.bind_eq_some_iff.mp h
  cases hload : p.load with
  | walking x t0 b =>
    simp only [hload] at h
    split at h
    · cases h
    rename_i hcond
    push Not at hcond
    cases h
    obtain ⟨o, hl⟩ := hi.threads.load t p x hp (by rw [hload]; rfl)
    have hph := hl.phase
    simp only [LoadPhase, hload] at hph
    obtain ⟨hban, hlate, hlow, hhigh⟩ := hph
    have hne := hcond.2
    have hstep : LoadStep t x p { p with load := .walking x t0 (b - 1) } st
        (st.setSilo t (some { p with load := .walking x t0 (b - 1) })) :=
      { first := rfl
        mtx := rfl
        sess := rfl
        lurker := rfl
        ocs := fun y _ => rfl
        late := fun y _ => rfl
        loading := fun y _ => rfl
        silo := hp
        silos := rfl
        before := by
          intro y hy
          rw [hload] at hy
          cases hy
          rfl
        after := by
          rintro y ⟨⟩
          rfl }
    refine ⟨hstep.book hi.book rfl rfl rfl rfl rfl, hstep.threads hi.threads (Or.inl (by rw [hload]; rfl)) ?_ ?_ ?_⟩
    · intro y _
      exact ⟨o, hl.oc, hl.offHead, hl.idle, hl.loading, hban, hlate, by change p.tail ≤ b - 1; omega,
        by change b - 1 ≤ st.core.first; omega⟩
    · intro _
      exact ⟨o, hl.oc, hl.offHead, hl.idle⟩
    · intro l hl'
      cases hlate.symm.trans hl'
  | no => simp [hload] at h
  | storing x => simp [hload] at h
  | stored x => simp [hload] at h

lemma banRefBan_refInv (hi : BanRefInv st) (h : st.banRefBan t = some st') : BanRefInv st' := by
  obtain ⟨p, hp, h⟩ := Option.bind_eq_some_iff.mp h
  cases hload : p.load with
  | walking x t0 b =>
    simp only [hload] at h
    split at h
    · split at h
      · cases h
      cases h
      obtain ⟨o, hl⟩ := hi.threads.load t p x hp (by rw [hload]; rfl)
      have hph := hl.phase
      simp only [LoadPhase, hload] at hph
      obtain ⟨hban, hlate, hlow, hhigh⟩ := hph
      have hstep : LoadStep t x p { p with load := .storing x } st
          (({ st with
              core := st.core.setBan b (fun y => { y with refcount := y.refcount + 1, objcore := y.objcore ++ [x] })
            }.setLate x (some (.move b))).setSilo t (some { p with load := .storing x })) :=
        { first := rfl
          mtx := rfl
          sess := rfl
          lurker := rfl
          ocs := fun y _ => rfl
          late := fun y hy => Function.update_of_ne hy _ _
          loading := fun y _ => rfl
          silo := hp
          silos := rfl
          before := by
            intro y hy
            rw [hload] at hy
            cases hy
            rfl
          after := by
            rintro y ⟨⟩
            rfl }
      have hnew : Function.update st.late x (some (.move b)) x = some (.move b) := Function.update_self _ _ _
      refine ⟨?_, hstep.threads hi.threads (Or.inl (by rw [hload]; rfl)) ?_ ?_ ?_⟩
      · have hnone : banPtr st x = none := by
          rw [banPtr, hl.oc, hlate]
          exact hban
        obtain ⟨hlast, -⟩ := hi.book.tail t p.tail (by rw [tailOf, hp]; rfl)
        have hatt : Attaches b x st.core.ban (st.core.setBan b (fun y => { y with
            refcount := y.refcount + 1, objcore := y.objcore ++ [x] })).ban := attaches_setBan rfl rfl rfl
        have hbook := hi.book.attach hnone (hlast.trans hlow) hhigh hatt
        have hptr : banPtr (({ st with core := st.core.setBan b (fun y => { y with
            refcount := y.refcount + 1, objcore := y.objcore ++ [x] }) }.setLate x (some (.move b))).setSilo t
            (some { p with load := .storing x })) = Function.update (banPtr st) x (some b) :=
          banPtr_setLate (l := some (.move b)) hl.oc rfl rfl
        have htail : tailOf st = Function.update (tailOf st) t (some p.tail) := by
          rw [eq_comm, Function.update_eq_self_iff, tailOf, hp]
          rfl
        unfold BanBooked
        rw [hptr, tailOf_setSilo]
        change BanBook _ _ _ _ _ (Function.update (tailOf st) t (some p.tail))
        rw [← htail]
        exact hbook
      · intro y _
        exact ⟨o, hl.oc, hl.offHead, hl.idle, hl.loading, hban, b, hnew⟩
      · intro _
        exact ⟨o, hl.oc, hl.offHead, hl.idle⟩
      · intro l _
        rfl
    · cases h
  | no => simp [hload] at h
  | storing x => simp [hload] at h
  | stored x => simp [hload] at h

lemma refStore_refInv (hi : BanRefInv st) (h : st.refStore t = some st') : BanRefInv st' := by
  obtain ⟨p, hp, h⟩ := Option.bind_eq_some_iff.mp h
  cases hload : p.load with
  | storing x =>
    simp only [hload] at h
    obtain ⟨l, hlt, h⟩ := Option.bind_eq_some_iff.mp h
    obtain ⟨b, hb, h⟩ := Option.bind_eq_some_iff.mp h
    obtain ⟨o, ho, h⟩ := Option.bind_eq_some_iff.mp h
    cases h
    obtain ⟨o', hl⟩ := hi.threads.load t p x hp (by rw [hload]; rfl)
    obtain rfl : o = o' := Option.some.inj (ho.symm.trans hl.oc)
    have hph := hl.phase
    simp only [LoadPhase, hload] at hph
    obtain ⟨hban, k, hk⟩ := hph
    obtain rfl : l = .move k := Option.some.inj (hlt.symm.trans hk)
    cases hb
    have hstep : LoadStep t x p { p with load := .stored x } st
        (({ st with core := st.core.setOc x (some { o with ban := some k }) }.setLate x none).setSilo t
          (some { p with load := .stored x })) :=
      { first := rfl
        mtx := rfl
        sess := rfl
        lurker := rfl
        ocs := fun y hy => Function.update_of_ne hy _ _
        late := fun y hy => Function.update_of_ne hy _ _
        loading := fun y _ => rfl
        silo := hp
        silos := rfl
        before := by
          intro y hy
          rw [hload] at hy
          cases hy
          rfl
        after := by
          rintro y ⟨⟩
          rfl }
    have hoc : Function.update st.core.ocs x (some { o with ban := some k }) x = some { o with ban := some k } :=
      Function.update_self _ _ _
    have hnone : Function.update st.late x none x = none := Function.update_self _ _ _
    refine ⟨hstep.book hi.book rfl rfl rfl rfl ?_, hstep.threads hi.threads (Or.inl (by rw [hload]; rfl)) ?_ ?_ ?_⟩
    · have hnew : (Function.update st.core.ocs x (some { o with ban := some k }) x).bind
          (fun q => lateBan (Function.update st.late x none x) q.ban) = some k := by
        rw [hoc, hnone]
        rfl
      refine hnew.trans ?_
      rw [banPtr, ho, hk]
      rfl
    · intro y _
      exact ⟨_, hoc, hl.offHead, hl.idle, hl.loading, ⟨k, rfl⟩, hnone⟩
    · intro _
      exact ⟨_, hoc, hl.offHead, hl.idle⟩
    · intro l hl'
      cases hnone.symm.trans hl'
  | no => simp [hload] at h
  | walking x t0 b => simp [hload] at h
  | stored x => simp [hload] at h

lemma hshInsert_refInv (hi : BanRefInv st) {oh : Nat} (h : st.hshInsert t oh = some st') : BanRefInv st' := by
  obtain ⟨p, hp, h⟩ := Option.bind_eq_some_iff.mp h
  cases hload : p.load with
  | stored x =>
    simp only [hload] at h
    obtain ⟨o, ho, h⟩ := Option.bind_eq_some_iff.mp h
    split at h
    · cases h
    cases h
    obtain ⟨o', hl⟩ := hi.threads.load t p x hp (by rw [hload]; rfl)
    obtain rfl : o = o' := Option.some.inj (ho.symm.trans hl.oc)
    have hph := hl.phase
    simp only [LoadPhase, hload] at hph
    obtain ⟨-, hlate⟩ := hph
    have hstep : LoadStep t x p { p with load := .no } st
        (({ st with core := st.core.setOc x (some { o with objhead := oh, onHead := true }) }.setLoading x false).setSilo t
          (some { p with load := .no })) :=
      { first := rfl
        mtx := rfl
        sess := rfl
        lurker := rfl
        ocs := fun y hy => Function.update_of_ne hy _ _
        late := fun y _ => rfl
        loading := fun y hy => Function.update_of_ne hy _ _
        silo := hp
        silos := rfl
        before := by
          intro y hy
          rw [hload] at hy
          cases hy
          rfl
        after := by
          rintro y ⟨⟩ }
    refine ⟨hstep.book hi.book rfl rfl rfl rfl ?_, hstep.threads hi.threads (Or.inl (by rw [hload]; rfl)) ?_ ?_ ?_⟩
    · have hoc : Function.update st.core.ocs x (some { o with objhead := oh, onHead := true }) x =
          some { o with objhead := oh, onHead := true } := Function.update_self _ _ _
      have hnew : (Function.update st.core.ocs x (some { o with objhead := oh, onHead := true }) x).bind
          (fun q => lateBan (st.late x) q.ban) = lateBan (st.late x) o.ban := by
        rw [hoc]
        rfl
      refine hnew.trans ?_
      rw [banPtr, ho]
      rfl
    · rintro y ⟨⟩
    · intro hl'
      have hfalse : Function.update st.loading x false x = false := Function.update_self _ _ _
      cases hfalse.symm.trans hl'
    · intro l hl'
      cases hlate.symm.trans hl'
  | no => simp [hload] at h
  | walking x t0 b => simp [hload] at h
  | storing x => simp [hload] at h

end VarnishCache.Proofs
