import VarnishCache.Proofs.BanRefLurker

/-!
# Late writes and silo threads

`ban_check_object` books an objcore with another ban, or with none, in its critical section and writes `oc->ban`
later; so does `BAN_RefBan` with its caller.
-/

namespace VarnishCache.Proofs

open VarnishCache BanState BanRefState RefCount

variable {re : String → String → Bool} {st st' : BanRefState} {x t : Nat} {o : BanOc}

/-- What `hd` has still to write for the objcore of its check changes. -/
lemma setLate_threads (hi : BanThreads st) {hd : BanHolder} {c : BanCheck} {l : BanLate} (hc : st.check hd = some c)
    (hl : ∀ b, l = .move b → b = c.b0) (hfirst : st'.core.first = st.core.first) (hocs : st'.core.ocs = st.core.ocs)
    (hmtx : st'.core.mtx = st.core.mtx) (hsess : st'.core.sess = st.core.sess)
    (hlurker : st'.core.lurker = st.core.lurker) (hlate : st'.late = Function.update st.late c.oc (some l))
    (hsilos : st'.silos = st.silos) (hloading : st'.loading = st.loading) : BanThreads st' := by
  have hcheck : ∀ h, st'.check h = st.check h := by
    intro h
    cases h with
    | sess s => simp only [BanRefState.check, hsess]
    | lurker => simp only [BanRefState.check, hlurker]
  have hstep : ThreadStep (some hd) st st' :=
    { first := hfirst.ge
      respects :=
        { mtx := fun oh h hm _ => by rw [hmtx]; exact hm
          oc := fun y p h hp _ _ _ _ => by rw [hocs]; exact hp }
      sess := fun s _ => by rw [hsess]
      lurker := fun _ => hlurker
      late := by
        intro y hy
        rw [hlate, Function.update_of_ne (Ne.symm (hy hd c rfl hc))]
      silos := hsilos
      loads := fun y p hp _ _ => by rw [hocs]; exact hp
      loading := hloading }
  refine hstep.threads hi ?_ ?_ ?_ ?_ ?_
  · intro s σ _ hσ
    rw [hsess] at hσ
    rw [hmtx]
    exact hi.sess s σ hσ
  · intro h2 c2 _ hc2
    rw [hcheck] at hc2
    obtain ⟨o, a, hat⟩ := hi.check h2 c2 hc2
    refine ⟨o, a, ⟨by rw [hocs]; exact hat.held.oc, hat.held.onHead, hat.held.idle, by rw [hmtx]; exact hat.held.mtx⟩,
      hat.ban, hat.newer, hat.low, hat.high, by rw [hfirst]; exact hat.front⟩
  · intro hs b b0 x hx
    cases hs
    rw [hlurker] at hx
    simp [BanRefState.check, hx] at hc
  · intro _ b b0 c2 hx
    rw [hlurker] at hx
    rw [hocs]
    exact hi.lurk b b0 c2 hx
  · intro h2 c2 l2 hs hc2 hl2
    cases hs
    cases hc.symm.trans hc2
    rw [hlate, Function.update_self] at hl2
    cases hl2
    exact ⟨c, by rw [hcheck]; exact hc, rfl, hl⟩

lemma banPtr_setLate {l : Option BanLate} (ho : st.core.ocs x = some o) (hocs : st'.core.ocs = st.core.ocs)
    (hlate : st'.late = Function.update st.late x l) :
    banPtr st' = Function.update (banPtr st) x (lateBan l o.ban) := by
  have hval : st'.core.ocs = Function.update st.core.ocs x (some o) := by
    rw [hocs, ← ho, Function.update_eq_self]
  exact banPtr_update hval hlate

lemma commit_refInv (hi : BanRefInv st) {hd : BanHolder} (h : st.commit hd = some st') : BanRefInv st' := by
  obtain ⟨c, hc, h⟩ := Option.bind_eq_some_iff.mp h
  split at h
  · cases h
  rename_i hsome
  have hnone : st.late c.oc = none := by simpa using hsome
  obtain ⟨⟨core, v⟩, hf, h⟩ := Option.bind_eq_some_iff.mp h
  obtain ⟨o, a, hat⟩ := hi.threads.check hd c hc
  obtain ⟨p, a', hatt, hcases⟩ := checkFinish_cases hf
  obtain rfl : o = p := Option.some.inj (hat.held.oc.symm.trans hatt.1)
  obtain rfl : a = a' := Option.some.inj (hat.ban.symm.trans hatt.2)
  have hptr : banPtr st c.oc = some a := by
    rw [banPtr, hat.held.oc, hnone]
    exact hat.ban
  have hdet : Detaches a c.oc st.core.ban (st.core.setBan a (fun b => { b with
      refcount := b.refcount - 1, objcore := b.objcore.erase c.oc })).ban := detaches_setBan rfl rfl rfl
  have hdrop := hi.book.detach hptr hdet
  have hrange := hi.book.inList c.oc a hptr
  have hnewer := hat.newer
  rcases hcases with ⟨-, -, rfl, -⟩ | ⟨-, rfl, rfl⟩ | ⟨-, rfl, rfl⟩
  · cases h
  · cases h
    refine ⟨?_, setLate_threads hi.threads hc (by rintro b ⟨⟩; rfl) rfl rfl rfl rfl rfl rfl rfl rfl⟩
    have hptr' : banPtr ({ st with core := { moved st.core c.oc o a c.b0 with ocs := st.core.ocs } }.setLate c.oc
        (some (.move c.b0))) = Function.update (banPtr st) c.oc (some c.b0) :=
      banPtr_setLate (l := some (.move c.b0)) hat.held.oc rfl rfl
    have hlurk := hdrop.congr (setBan_books _ a (fun b => { b with lurk := 0 }) rfl .rfl)
    have hmove := hlurk.attach (x := c.oc) (b := c.b0) (Function.update_self _ _ _) (by omega) hat.front
      (attaches_setBan (f := fun b => { b with refcount := b.refcount + 1, objcore := b.objcore ++ [c.oc] }) rfl rfl rfl)
    rw [Function.update_idem] at hmove
    unfold BanBooked
    rw [hptr']
    exact hmove
  · cases h
    refine ⟨?_, setLate_threads hi.threads hc (by rintro b ⟨⟩) rfl rfl rfl rfl rfl rfl rfl rfl⟩
    have hptr' : banPtr ({ st with core := { dropped st.core c.oc o a with ocs := st.core.ocs } }.setLate c.oc
        (some .clear)) = Function.update (banPtr st) c.oc none :=
      banPtr_setLate (l := some .clear) hat.held.oc rfl rfl
    unfold BanBooked
    rw [hptr']
    exact hdrop

lemma clear_refInv (hi : BanRefInv st) {hd : BanHolder} (h : st.clear hd = some st') : BanRefInv st' := by
  obtain ⟨c, hc, h⟩ := Option.bind_eq_some_iff.mp h
  split at h
  · rename_i hl
    cases h
    obtain ⟨o, a, hat⟩ := hi.threads.check hd c hc
    refine ⟨?_, setLate_threads hi.threads hc (by rintro b ⟨⟩) rfl rfl rfl rfl rfl rfl rfl rfl⟩
    have hptr : banPtr ((st.setExp c.oc (st.exp c.oc).clr).setLate c.oc (some .null)) =
        Function.update (banPtr st) c.oc none := banPtr_setLate (l := some .null) hat.held.oc rfl rfl
    have hold : banPtr st c.oc = none := by
      rw [banPtr, hat.held.oc, hl]
      rfl
    unfold BanBooked
    rw [hptr, ← hold, Function.update_eq_self]
    exact hi.book
  · cases h

lemma lateBan_value {l : BanLate} {b : Option Nat} (h : BanLate.value l = some b) (a : Option Nat) :
    lateBan (some l) a = b := by
  cases l with
  | move k =>
    cases h
    rfl
  | clear => cases h
  | null =>
    cases h
    rfl

/-- The write of `oc->ban` at the end of `ban_check_object`. -/
lemma store_threads (hi : BanThreads st) {hd : BanHolder} {c : BanCheck} {b : Option Nat} {core : BanState}
    (hc : st.check hd = some c) (ho : st.core.ocs c.oc = some o)
    (hend : endCheck (st.core.setOc c.oc (some { o with ban := b })) o hd = some core) :
    BanThreads ({ st with core := core }.setLate c.oc none) ∧ core.first = st.core.first ∧ core.last = st.core.last ∧
      core.ban = st.core.ban ∧ core.hunts = st.core.hunts ∧
      core.ocs = Function.update st.core.ocs c.oc (some { o with ban := b }) := by
  obtain ⟨p, a, hat⟩ := hi.check hd c hc
  obtain rfl : o = p := Option.some.inj (ho.symm.trans hat.held.oc)
  have hother : ∀ y q h, HeldOc st h y q → h ≠ hd → y ≠ c.oc := by
    rintro y q h hq hne rfl
    have heq := Option.some.inj (hq.oc.symm.trans ho)
    have hm := hq.mtx
    rw [heq, hat.held.mtx] at hm
    exact hne (Option.some.inj hm).symm
  have hunborn : ∀ y, st.loading y = true → y ≠ c.oc := by
    rintro y hl rfl
    obtain ⟨q, hq, hoff, -⟩ := hi.unborn c.oc hl
    rw [ho] at hq
    cases hq
    rw [hat.held.onHead] at hoff
    cases hoff
  have hlate : ∀ y, (∀ h c', some h = some hd → st.check h = some c' → c'.oc ≠ y) →
      Function.update st.late c.oc none y = st.late y := by
    intro y hy
    rw [Function.update_of_ne (Ne.symm (hy hd c rfl hc))]
  cases hd with
  | sess s =>
    obtain ⟨σ, hσ, rfl⟩ := Option.map_eq_some_iff.mp hend
    refine ⟨?_, rfl, rfl, rfl, rfl, rfl⟩
    have hstep : ThreadStep (some (.sess s)) st ({ st with core :=
        (st.core.setOc c.oc (some { o with ban := b })).setSess s (some { σ with check := none }) }.setLate c.oc none) :=
      { first := le_rfl
        respects :=
          { mtx := fun oh h hm _ => hm
            oc := by
              intro y q h hq hon hidle hm hne
              change Function.update st.core.ocs c.oc _ y = _
              rw [Function.update_of_ne (hother y q h ⟨hq, hon, hidle, hm⟩ (fun heq => hne (by rw [heq])))]
              exact hq }
        sess := by
          intro u hu
          change Function.update st.core.sess s _ u = _
          rw [Function.update_of_ne]
          rintro rfl
          exact hu rfl
        lurker := fun _ => rfl
        late := hlate
        silos := rfl
        loads := by
          intro y q hq _ hl
          change Function.update st.core.ocs c.oc _ y = _
          rw [Function.update_of_ne (hunborn y hl)]
          exact hq
        loading := rfl }
    refine hstep.threads hi ?_ ?_ ?_ ?_ ?_
    · intro u τ hu hτ
      cases hu
      change Function.update st.core.sess s _ s = _ at hτ
      rw [Function.update_self] at hτ
      cases hτ
      exact hi.sess s σ hσ
    · intro h2 c2 hs hc2
      cases hs
      simp [BanRefState.check, BanRefState.setLate, BanState.setSess] at hc2
    · intro hs
      cases hs
    · intro hs
      cases hs
    · intro h2 c2 l hs hc2 hl
      cases hs
      cases hc.symm.trans hc2
      change Function.update st.late c.oc none c.oc = _ at hl
      rw [Function.update_self] at hl
      cases hl
  | lurker =>
    cases hlk : st.core.lurker with
    | checking k k0 c' =>
      have hend' : some { (st.core.setOc c.oc (some { o with ban := b })).setMtx o.objhead none with
          lurker := .working k k0 } = some core := by
        rw [← hend]
        simp only [endCheck, BanState.setOc, hlk]
      obtain rfl := Option.some.inj hend'
      refine ⟨?_, rfl, rfl, rfl, rfl, rfl⟩
      have hstep : ThreadStep (some .lurker) st ({ st with core :=
          { (st.core.setOc c.oc (some { o with ban := b })).setMtx o.objhead none with lurker := .working k k0 } }.setLate
            c.oc none) :=
        { first := le_rfl
          respects :=
            { mtx := by
                intro oh h hm hne
                change Function.update st.core.mtx o.objhead none oh = _
                rw [Function.update_of_ne]
                · exact hm
                · rintro rfl
                  rw [hat.held.mtx] at hm
                  exact hne hm.symm
              oc := by
                intro y q h hq hon hidle hm hne
                change Function.update st.core.ocs c.oc _ y = _
                rw [Function.update_of_ne (hother y q h ⟨hq, hon, hidle, hm⟩ (fun heq => hne (by rw [heq])))]
                exact hq }
          sess := fun _ _ => rfl
          lurker := fun hne => (hne rfl).elim
          late := hlate
          silos := rfl
          loads := by
            intro y q hq _ hl
            change Function.update st.core.ocs c.oc _ y = _
            rw [Function.update_of_ne (hunborn y hl)]
            exact hq
          loading := rfl }
      refine hstep.threads hi ?_ ?_ ?_ ?_ ?_
      · intro u τ hu
        cases hu
      · intro h2 c2 hs hc2
        cases hs
        cases hc2
      · intro _ b' b0' x' hx
        cases hx
      · intro _ b' b0' c2 hx
        cases hx
      · intro h2 c2 l hs hc2 hl
        cases hs
        cases hc.symm.trans hc2
        change Function.update st.late c.oc none c.oc = _ at hl
        rw [Function.update_self] at hl
        cases hl
    | idle => simp [endCheck, BanState.setOc, hlk] at hend
    | tagging k k0 => simp [endCheck, BanState.setOc, hlk] at hend
    | working k k0 => simp [endCheck, BanState.setOc, hlk] at hend
    | got k k0 y => simp [endCheck, BanState.setOc, hlk] at hend

lemma store_refInv (hi : BanRefInv st) {hd : BanHolder} (h : st.store hd = some st') : BanRefInv st' := by
  obtain ⟨c, hc, h⟩ := Option.bind_eq_some_iff.mp h
  obtain ⟨l, hl, h⟩ := Option.bind_eq_some_iff.mp h
  obtain ⟨b, hb, h⟩ := Option.bind_eq_some_iff.mp h
  obtain ⟨o, ho, h⟩ := Option.bind_eq_some_iff.mp h
  obtain ⟨core, hend, h⟩ := Option.bind_eq_some_iff.mp h
  cases h
  obtain ⟨hthreads, hfirst, hlast, hban, hhunts, hocs⟩ := store_threads hi.threads hc ho hend
  refine ⟨?_, hthreads⟩
  have hptr : banPtr ({ st with core := core }.setLate c.oc none) = Function.update (banPtr st) c.oc b :=
    banPtr_update (v := some { o with ban := b }) (l := none) hocs rfl
  have hold : banPtr st c.oc = b := by
    rw [banPtr, ho, hl]
    exact lateBan_value hb o.ban
  unfold BanBooked
  rw [hptr, ← hold, Function.update_eq_self]
  change BanBook core.first core.last core.ban (banPtr st) core.hunts (tailOf st)
  rw [hfirst, hlast, hban, hhunts]
  exact hi.book

end VarnishCache.Proofs
