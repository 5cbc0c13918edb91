import VarnishCache.Proofs.BanRefSteps

/-!
# Steps of the lurker thread

The lurker keeps the books of the bans as it goes over the list, tests objects and retires the last ban.
-/

namespace VarnishCache.Proofs

open VarnishCache BanState BanRefState RefCount

variable {re : String → String → Bool} {st st' : BanRefState} {x t : Nat} {o : BanOc}

lemma banCheckLast_refInv (hi : BanRefInv st) {core : BanState} (h : st.core.banCheckLast = some core) :
    BanRefInv { st with core := core } := by
  cases hl : st.core.lurker with
  | idle =>
    simp only [banCheckLast, hl] at h
    split at h
    · rename_i hlast
      obtain ⟨-, hbook⟩ := hi.book.retire hlast.1 hlast.2
      split at h
      · cases h
      cases h
      exact refInv_of_book hi le_rfl rfl rfl rfl hl.symm rfl rfl rfl hbook
    · cases h
      exact hi
  | tagging b b0 => simp [banCheckLast, hl] at h
  | working b b0 => simp [banCheckLast, hl] at h
  | got b b0 y => simp [banCheckLast, hl] at h
  | checking b b0 c => simp [banCheckLast, hl] at h

/-- The lurker moves on. Bans keep their counts and the members of their lists, and objcores their bans. -/
structure LurkMove (st st' : BanRefState) : Prop where
  first : st'.core.first = st.core.first
  last : st'.core.last = st.core.last
  hunts : st'.core.hunts = st.core.hunts
  bans : ∀ a, (st'.core.ban a).refcount = (st.core.ban a).refcount ∧
    (st'.core.ban a).objcore.Perm (st.core.ban a).objcore
  sess : st'.core.sess = st.core.sess
  late : st'.late = st.late
  silos : st'.silos = st.silos
  loading : st'.loading = st.loading
  mtx : ∀ oh h, st.core.mtx oh = some h → h ≠ .lurker → st'.core.mtx oh = some h
  ban : ∀ y, (st'.core.ocs y).map BanOc.ban = (st.core.ocs y).map BanOc.ban
  held : ∀ y p h, HeldOc st h y p → h ≠ .lurker → st'.core.ocs y = some p
  loads : ∀ y p, st.core.ocs y = some p → p.busy = false → st.loading y = true → st'.core.ocs y = some p

lemma LurkMove.book (h : LurkMove st st') (hi : BanBooked st) : BanBooked st' := by
  have hval : ∀ (u : BanRefState) y, banPtr u y = ((u.core.ocs y).map BanOc.ban).bind (lateBan (u.late y)) := by
    intro u y
    rw [Option.bind_map]
    rfl
  have hptr : banPtr st' = banPtr st := by
    funext y
    rw [hval, hval, h.ban, h.late]
  have htail : tailOf st' = tailOf st := by
    funext t
    rw [tailOf, h.silos]
    rfl
  unfold BanBooked
  rw [hptr, htail, h.first, h.last, h.hunts]
  exact hi.congr h.bans

lemma LurkMove.step (h : LurkMove st st') : ThreadStep (some .lurker) st st' where
  first := h.first.ge
  respects :=
    { mtx := fun oh hd hm hne => h.mtx oh hd hm (fun heq => hne (by rw [heq]))
      oc := fun y p hd hp hon hidle hm hne => h.held y p hd ⟨hp, hon, hidle, hm⟩ (fun heq => hne (by rw [heq])) }
  sess := fun u _ => by rw [h.sess]
  lurker := fun hne => (hne rfl).elim
  late := fun y _ => by rw [h.late]
  silos := h.silos
  loads := h.loads
  loading := h.loading

lemma BanRefInv.lurk (hi : BanRefInv st) (h : LurkMove st st')
    (hgot : ∀ b b0 x, st'.core.lurker = .got b b0 x → ∃ o, HeldOc st' .lurker x o ∧ o.ban = some b ∧ st.late x = none)
    (hlurk : ∀ b b0 c, st'.core.lurker = .checking b b0 c → ∃ o, CheckAt st' .lurker c o b)
    (hgo : ∀ c, st.check .lurker = some c → st.late c.oc = none ∨
      ∃ c', st'.check .lurker = some c' ∧ c'.oc = c.oc ∧ c'.b0 = c.b0) : BanRefInv st' := by
  refine hi.act h.step h.late (h.book hi.book) ?_ ?_ (fun _ => hgot) ?_ hgo
  · intro s σ hs
    cases hs
  · intro c hc
    cases hl : st'.core.lurker with
    | checking b b0 c' =>
      simp only [BanRefState.check, hl, Option.some.injEq] at hc
      subst hc
      obtain ⟨o, hat⟩ := hlurk b b0 c' hl
      exact ⟨o, b, hat⟩
    | idle => simp [BanRefState.check, hl] at hc
    | tagging b b0 => simp [BanRefState.check, hl] at hc
    | working b b0 => simp [BanRefState.check, hl] at hc
    | got b b0 y => simp [BanRefState.check, hl] at hc
  · intro _ b b0 c hl
    obtain ⟨o, hat⟩ := hlurk b b0 c hl
    exact ⟨o, hat.held.oc, hat.ban⟩

/-- The lurker goes on without an object of its own. -/
lemma lurkMove_refInv (hi : BanRefInv st) {core : BanState} (hfirst : core.first = st.core.first)
    (hlast : core.last = st.core.last) (hhunts : core.hunts = st.core.hunts)
    (hbans : ∀ a, (core.ban a).refcount = (st.core.ban a).refcount ∧ (core.ban a).objcore.Perm (st.core.ban a).objcore)
    (hocs : core.ocs = st.core.ocs) (hmtx : core.mtx = st.core.mtx) (hsess : core.sess = st.core.sess)
    (hnone : st.check .lurker = none)
    (hphase : ∀ b b0, (∀ x, core.lurker ≠ .got b b0 x) ∧ ∀ c, core.lurker ≠ .checking b b0 c) :
    BanRefInv { st with core := core } := by
  refine hi.lurk ⟨hfirst, hlast, hhunts, hbans, hsess, rfl, rfl, rfl, ?_, ?_, ?_, ?_⟩ ?_ ?_ ?_
  · intro oh h hm _
    rw [hmtx]
    exact hm
  · intro y
    rw [hocs]
  · intro y p h hh _
    rw [hocs]
    exact hh.oc
  · intro y p hp _ _
    rw [hocs]
    exact hp
  · intro b b0 x hl
    exact ((hphase b b0).1 x hl).elim
  · intro b b0 c hl
    exact ((hphase b b0).2 c hl).elim
  · intro c hc
    rw [hnone] at hc
    cases hc

lemma startPass_refInv (hi : BanRefInv st) {core : BanState} (h : st.core.startPass = some core) :
    BanRefInv { st with core := core } := by
  cases hl : st.core.lurker with
  | idle =>
    simp only [startPass, hl, Option.some.injEq] at h
    subst h
    refine lurkMove_refInv hi rfl rfl rfl (fun a => ⟨rfl, .rfl⟩) rfl rfl rfl ?_ ?_
    · simp [BanRefState.check, hl]
    · simp
  | tagging b b0 => simp [startPass, hl] at h
  | working b b0 => simp [startPass, hl] at h
  | got b b0 y => simp [startPass, hl] at h
  | checking b b0 c => simp [startPass, hl] at h

lemma tagBan_refInv (hi : BanRefInv st) {core : BanState} (h : st.core.tagBan = some core) :
    BanRefInv { st with core := core } := by
  cases hl : st.core.lurker with
  | tagging b b0 =>
    have hnone : st.check .lurker = none := by simp [BanRefState.check, hl]
    simp only [tagBan, hl] at h
    split at h
    · cases hb0 : b0 with
      | none =>
        simp only [hb0, Option.some.injEq] at h
        subst h
        exact lurkMove_refInv hi rfl rfl rfl (fun a => ⟨rfl, .rfl⟩) rfl rfl rfl hnone (by simp)
      | some k =>
        simp only [hb0, Option.some.injEq] at h
        subst h
        exact lurkMove_refInv hi rfl rfl rfl (fun a => ⟨rfl, .rfl⟩) rfl rfl rfl hnone (by simp)
    · split at h
      · cases h
        exact lurkMove_refInv hi rfl rfl rfl (fun a => ⟨rfl, .rfl⟩) rfl rfl rfl hnone (by simp)
      · cases h
        exact lurkMove_refInv hi rfl rfl rfl
          (setBan_books st.core b (fun x => { x with lurk := st.core.pass }) rfl .rfl) rfl
          rfl rfl hnone (by simp)
  | idle => simp [tagBan, hl] at h
  | working b b0 => simp [tagBan, hl] at h
  | got b b0 y => simp [tagBan, hl] at h
  | checking b b0 c => simp [tagBan, hl] at h

lemma banDone_refInv (hi : BanRefInv st) {b b0 : Nat} (hnone : st.check .lurker = none) :
    BanRefInv { st with core := st.core.banDone b b0 } := by
  unfold banDone
  by_cases hreq : (st.core.ban b).req = true
  · simp only [hreq, if_true]
    split
    · exact lurkMove_refInv hi rfl rfl rfl (fun a => ⟨rfl, .rfl⟩) rfl rfl rfl hnone (by simp)
    · exact lurkMove_refInv hi rfl rfl rfl (fun a => ⟨rfl, .rfl⟩) rfl rfl rfl hnone (by simp)
  · simp only [hreq, if_false, Bool.false_eq_true]
    split
    · exact lurkMove_refInv hi rfl rfl rfl (setBan_books st.core b (fun x => { x with gone := true }) rfl .rfl) rfl rfl
        rfl hnone (by simp)
    · exact lurkMove_refInv hi rfl rfl rfl (setBan_books st.core b (fun x => { x with gone := true }) rfl .rfl) rfl rfl
        rfl hnone (by simp)

/-- The lurker leaves a busy object for later. -/
lemma lurkDefer_refInv (hi : BanRefInv st) {b n : Nat} {l : List Nat} (hobj : (st.core.ban b).objcore = x :: l)
    (ho : st.core.ocs x = some o) (hb : o.busy = true) :
    BanRefInv { st with
      core := (st.core.setBan b (fun y => { y with objcore := l ++ [x] })).setOc x (some { o with lurk := n }) } := by
  refine hi.keep (x := x) ⟨rfl, rfl, rfl, rfl, rfl, rfl, rfl, rfl, rfl, rfl⟩ (untouched_busy ho hb) (by rw [ho]; rfl) ?_
  exact setBan_books st.core b (fun y => { y with objcore := l ++ [x] }) rfl
    (by rw [hobj]; exact List.perm_append_singleton x l)

/-- The lurker takes an object of ban `b`. -/
lemma lurkTake_refInv (hi : BanRefInv st) {b b0 : Nat} (hnone : st.check .lurker = none)
    (hmem : x ∈ (st.core.ban b).objcore) (ho : st.core.ocs x = some o) (hfree : st.core.mtx o.objhead = none)
    (hon : o.onHead = true) (hidle : o.busy = false) (hload : st.loading x = false) :
    BanRefInv { st with core := { (st.core.setMtx o.objhead (some .lurker)).setOc x (some { o with lurk := 0 }) with
      lurker := .got b b0 x } } := by
  have hx : Untouched st x := by
    intro p hp
    rw [ho] at hp
    cases hp
    refine Or.inr ⟨hload, ?_⟩
    intro h hh
    rw [hh.mtx] at hfree
    cases hfree
  have hlate := hi.threads.late_none hx
  have hban : o.ban = some b := by
    have hptr := (hi.book.listed x b).mp hmem
    rw [banPtr, ho, hlate] at hptr
    exact hptr
  refine hi.lurk ⟨rfl, rfl, rfl, fun a => ⟨rfl, .rfl⟩, rfl, rfl, rfl, rfl, ?_, ?_, ?_, ?_⟩ ?_ ?_ ?_
  · intro oh h hm _
    have hne : oh ≠ o.objhead := by
      rintro rfl
      rw [hfree] at hm
      cases hm
    simpa [BanState.setMtx, BanState.setOc, hne] using hm
  · intro y
    change (Function.update st.core.ocs x _ y).map BanOc.ban = _
    by_cases hy : y = x
    · subst hy
      rw [Function.update_self, ho]
      rfl
    · rw [Function.update_of_ne hy]
  · intro y p h hh _
    change Function.update st.core.ocs x _ y = _
    rw [Function.update_of_ne]
    · exact hh.oc
    · rintro rfl
      rcases hx p hh.oc with hb | ⟨-, hno⟩
      · rw [hh.idle] at hb
        cases hb
      · exact hno h hh
  · intro y p hp _ hl
    change Function.update st.core.ocs x _ y = _
    rw [Function.update_of_ne]
    · exact hp
    · rintro rfl
      rw [hload] at hl
      cases hl
  · intro b' b0' x' hl
    cases hl
    refine ⟨{ o with lurk := 0 }, ⟨?_, hon, hidle, ?_⟩, hban, hlate⟩
    · exact Function.update_self x _ _
    · exact Function.update_self o.objhead _ _
  · intro b' b0' c hl
    cases hl
  · intro c hc
    rw [hnone] at hc
    cases hc

lemma lurkLook_refInv (hi : BanRefInv st) (hmeets : st.lurkerMeetsLoad = false) {core : BanState}
    (h : st.core.lurkLook = some core) : BanRefInv { st with core := core } := by
  cases hl : st.core.lurker with
  | working b b0 =>
    have hnone : st.check .lurker = none := by simp [BanRefState.check, hl]
    simp only [lurkLook, hl] at h
    cases hobj : (st.core.ban b).objcore with
    | nil =>
      simp only [hobj, Option.some.injEq] at h
      subst h
      exact banDone_refInv hi hnone
    | cons x l =>
      simp only [hobj] at h
      have hload : st.loading x = false := by simpa only [lurkerMeetsLoad, hl, hobj] using hmeets
      obtain ⟨o, ho, h⟩ := Option.bind_eq_some_iff.mp h
      split at h
      · cases h
        exact banDone_refInv hi hnone
      split at h
      · cases h
        exact hi
      rename_i hfree
      split at h
      · cases h
        exact hi
      rename_i hon
      split at h
      · rename_i hb
        cases h
        exact lurkDefer_refInv hi hobj ho hb
      · rename_i hb
        cases h
        exact lurkTake_refInv hi hnone (by rw [hobj]; exact List.mem_cons_self) ho (by simpa using hfree)
          (by simpa using hon) (by simpa using hb) hload
  | idle => simp [lurkLook, hl] at h
  | tagging b b0 => simp [lurkLook, hl] at h
  | got b b0 y => simp [lurkLook, hl] at h
  | checking b b0 c => simp [lurkLook, hl] at h

/-- The lurker gives up the mutex of the objhead of `o`. -/
lemma lurkDrop_refInv (hi : BanRefInv st) {b b0 : Nat} {core : BanState} (hh : HeldOc st .lurker x o)
    (hfirst : core.first = st.core.first) (hlast : core.last = st.core.last) (hhunts : core.hunts = st.core.hunts)
    (hbans : ∀ a, (core.ban a).refcount = (st.core.ban a).refcount ∧ (core.ban a).objcore.Perm (st.core.ban a).objcore)
    {n : Nat} (hocs : core.ocs = Function.update st.core.ocs x (some { o with lurk := n }))
    (hmtx : core.mtx = Function.update st.core.mtx o.objhead none) (hsess : core.sess = st.core.sess)
    (hlurker : core.lurker = .working b b0) (hlate : ∀ c, st.check .lurker = some c → st.late c.oc = none) :
    BanRefInv { st with core := core } := by
  refine hi.lurk ⟨hfirst, hlast, hhunts, hbans, hsess, rfl, rfl, rfl, ?_, ?_, ?_, ?_⟩ ?_ ?_ ?_
  · intro oh h hm hne
    have hoh : oh ≠ o.objhead := by
      rintro rfl
      rw [hh.mtx] at hm
      exact hne (Option.some.inj hm).symm
    change core.mtx oh = some h
    rw [hmtx, Function.update_of_ne hoh]
    exact hm
  · intro y
    change (core.ocs y).map BanOc.ban = _
    rw [hocs]
    by_cases hy : y = x
    · subst hy
      rw [Function.update_self, hh.oc]
      rfl
    · rw [Function.update_of_ne hy]
  · intro y p h hp hne
    change core.ocs y = _
    rw [hocs, Function.update_of_ne]
    · exact hp.oc
    · rintro rfl
      have heq := Option.some.inj (hp.oc.symm.trans hh.oc)
      have hm := hp.mtx
      rw [heq, hh.mtx] at hm
      exact hne (Option.some.inj hm).symm
  · intro y p hp hidle hl
    change core.ocs y = _
    rw [hocs, Function.update_of_ne]
    · exact hp
    · rintro rfl
      obtain ⟨q, hq, hoff, -⟩ := hi.threads.unborn y hl
      rw [hh.oc] at hq
      cases hq
      rw [hh.onHead] at hoff
      cases hoff
  · intro b' b0' x' hl
    rw [hlurker] at hl
    cases hl
  · intro b' b0' c hl
    rw [hlurker] at hl
    cases hl
  · intro c hc
    exact Or.inl (hlate c hc)

lemma lurkBegin_refInv (hi : BanRefInv st) {core : BanState} (h : st.core.lurkBegin = some core) :
    BanRefInv { st with core := core } := by
  cases hl : st.core.lurker with
  | got b b0 x =>
    obtain ⟨o, hh, hban, hlate⟩ := hi.threads.got b b0 x hl
    have hnone : st.check .lurker = none := by simp [BanRefState.check, hl]
    simp only [lurkBegin, hl, hh.oc, Option.bind_eq_bind, Option.bind_some] at h
    cases hb : st.core.checkBegin false x o with
    | none =>
      simp only [hb, Option.some.injEq] at h
      subst h
      refine lurkDrop_refInv (n := o.lurk) hi hh rfl rfl rfl (fun a => ⟨rfl, .rfl⟩) ?_ rfl rfl rfl ?_
      · exact (Function.update_eq_self_iff.mpr hh.oc.symm).symm
      · intro c hc
        rw [hnone] at hc
        cases hc
    | some c =>
      simp only [hb, Option.some.injEq] at h
      subst h
      obtain ⟨hat, hoc⟩ := CheckAt.begin hi hh hlate hban hb
      refine hi.lurk ⟨rfl, rfl, rfl, fun a => ⟨rfl, .rfl⟩, rfl, rfl, rfl, rfl, fun oh h hm _ => hm, fun y => rfl,
        fun y p h hp _ => hp.oc, fun y p hp _ _ => hp⟩ ?_ ?_ ?_
      · intro b' b0' x' hl'
        cases hl'
      · intro b' b0' c' hl'
        cases hl'
        exact ⟨o, ⟨hat.held.oc, hat.held.onHead, hat.held.idle, hat.held.mtx⟩, hat.ban, hat.newer, hat.low, hat.high,
          hat.front⟩
      · intro c' hc'
        rw [hnone] at hc'
        cases hc'
  | idle => simp [lurkBegin, hl] at h
  | tagging b b0 => simp [lurkBegin, hl] at h
  | working b b0 => simp [lurkBegin, hl] at h
  | checking b b0 c => simp [lurkBegin, hl] at h

lemma lurkWalk_refInv (hi : BanRefInv st) {core : BanState} (h : st.core.lurkWalk re = some core) :
    BanRefInv { st with core := core } := by
  cases hl : st.core.lurker with
  | checking b b0 c =>
    have hc : st.check .lurker = some c := by simp [BanRefState.check, hl]
    obtain ⟨o, a, hat⟩ := hi.threads.check .lurker c hc
    obtain ⟨o', ho', hban⟩ := hi.threads.lurk b b0 c hl
    obtain rfl := Option.some.inj (hat.held.oc.symm.trans ho')
    obtain rfl : b = a := Option.some.inj (hban.symm.trans hat.ban)
    simp only [lurkWalk, hl] at h
    obtain ⟨c', hw, h⟩ := Option.bind_eq_some_iff.mp h
    cases h
    obtain ⟨hat', hoc, hb0⟩ := hat.walk hw
    refine hi.lurk ⟨rfl, rfl, rfl, fun a => ⟨rfl, .rfl⟩, rfl, rfl, rfl, rfl, fun oh h hm _ => hm, fun y => rfl,
      fun y p h hp _ => hp.oc, fun y p hp _ _ => hp⟩ ?_ ?_ ?_
    · intro b' b0' x' hl'
      cases hl'
    · intro b' b0' c2 hl'
      cases hl'
      exact ⟨o, ⟨hat'.held.oc, hat'.held.onHead, hat'.held.idle, hat'.held.mtx⟩, hat'.ban, hat'.newer, hat'.low, hat'.high,
        hat'.front⟩
    · intro c2 hc2
      rw [hc] at hc2
      cases hc2
      exact Or.inr ⟨c', rfl, hoc, hb0⟩
  | idle => simp [lurkWalk, hl] at h
  | tagging b b0 => simp [lurkWalk, hl] at h
  | working b b0 => simp [lurkWalk, hl] at h
  | got b b0 y => simp [lurkWalk, hl] at h

/-- The lurker could not test all bans and puts the object at the end of its list. -/
lemma lurkFinish_refInv (hi : BanRefInv st) (hunsure : st.lurkUnsure = true) {core : BanState}
    (h : st.core.lurkFinish = some core) : BanRefInv { st with core := core } := by
  cases hl : st.core.lurker with
  | checking b b0 c =>
    have hc : st.check .lurker = some c := by simp [BanRefState.check, hl]
    obtain ⟨o, a, hat⟩ := hi.threads.check .lurker c hc
    obtain ⟨o', ho', hban⟩ := hi.threads.lurk b b0 c hl
    obtain rfl := Option.some.inj (hat.held.oc.symm.trans ho')
    obtain rfl : b = a := Option.some.inj (hban.symm.trans hat.ban)
    simp only [lurkFinish, hl] at h
    obtain ⟨⟨core1, v⟩, hf, h⟩ := Option.bind_eq_some_iff.mp h
    simp only [lurkUnsure, hl, hf, Option.any_some, Bool.and_eq_true, Option.isNone_iff_eq_none, decide_eq_true_eq]
      at hunsure
    obtain ⟨hlate, rfl⟩ := hunsure
    obtain ⟨p, a', hatt, hcases⟩ := checkFinish_cases hf
    rcases hcases with ⟨-, -, -, rfl⟩ | ⟨-, hv, -⟩ | ⟨-, hv, -⟩
    · simp only [hat.held.oc, Option.bind_eq_bind, Option.bind_some, if_true] at h
      cases h
      have hmem : c.oc ∈ (st.core.ban b).objcore := by
        rw [hi.book.listed, banPtr, hat.held.oc, hlate]
        exact hban
      refine lurkDrop_refInv (n := o.lurk ||| st.core.pass) hi hat.held rfl rfl rfl ?_ rfl rfl rfl rfl ?_
      · refine setBan_books st.core b (fun x => { x with objcore := x.objcore.erase c.oc ++ [c.oc] }) rfl ?_
        exact (List.perm_append_singleton _ _).trans (List.perm_cons_erase hmem).symm
      · intro c2 hc2
        rw [hc] at hc2
        cases hc2
        exact hlate
    · cases hv
    · cases hv
  | idle => simp [lurkFinish, hl] at h
  | tagging b b0 => simp [lurkFinish, hl] at h
  | working b b0 => simp [lurkFinish, hl] at h
  | got b b0 y => simp [lurkFinish, hl] at h

end VarnishCache.Proofs
