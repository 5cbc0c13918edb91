import VarnishCache.Proofs.BanRefLurker
import VarnishCache.Proofs.BanRefSilo

/-!
# Runs on the ban list

The books of the bans are right in every state that runs reach. Between the critical section of `ban_check_object` and
its write of `oc->ban`, the books are ahead of that pointer.
-/

namespace VarnishCache.Proofs

open VarnishCache BanState BanRefState RefCount

variable {re : String → String → Bool} {st st' : BanRefState} {x t s : Nat} {o : BanOc}
  {P : BanRefState → BanRefAct → Prop}

/-- Sessions and purges that have a reference change the timers of objects, and nothing that bans depend on. -/
structure UserStep (st st' : BanRefState) : Prop where
  core : st'.core = st.core
  late : st'.late = st.late
  silos : st'.silos = st.silos
  loading : st'.loading = st.loading

lemma UserStep.refInv (h : UserStep st st') (hi : BanRefInv st) : BanRefInv st' := by
  refine refInv_of_book hi (by rw [h.core]) (by rw [h.core]) (by rw [h.core]) (by rw [h.core]) (by rw [h.core]) h.late
    h.silos h.loading ?_
  rw [h.core]
  exact hi.book

lemma take_user (h : st.take s x = some st') : UserStep st st' := by
  obtain ⟨σ, -, h⟩ := Option.bind_eq_some_iff.mp h
  obtain ⟨o, -, h⟩ := Option.bind_eq_some_iff.mp h
  split at h
  · cases h
  · cases h
    exact ⟨rfl, rfl, rfl, rfl⟩

lemma release_user (h : st.release s = some st') : UserStep st st' := by
  unfold BanRefState.release at h
  split at h
  · cases h
    exact ⟨rfl, rfl, rfl, rfl⟩
  · cases h

lemma vrtSetObjTtl_user {a now : Int} (h : st.vrtSetObjTtl s a now = some st') : UserStep st st' := by
  unfold BanRefState.vrtSetObjTtl at h
  split at h
  · cases h
    exact ⟨rfl, rfl, rfl, rfl⟩
  · cases h

lemma expSetTtl_user (h : st.expSetTtl s = some st') : UserStep st st' := by
  unfold BanRefState.expSetTtl at h
  split at h
  · cases h
    exact ⟨rfl, rfl, rfl, rfl⟩
  · cases h

lemma hshPurge_user {ttl grace : Int} (h : st.hshPurge s x ttl grace = some st') : UserStep st st' := by
  obtain ⟨o, -, h⟩ := Option.bind_eq_some_iff.mp h
  split at h
  · cases h
  · cases h
    exact ⟨rfl, rfl, rfl, rfl⟩

lemma purgeStore_user (h : st.purgeStore s = some st') : UserStep st st' := by
  unfold BanRefState.purgeStore at h
  split at h
  · cases h
    exact ⟨rfl, rfl, rfl, rfl⟩
  · cases h

/-- A step of `Ban.lean` that `allows` lets through. -/
lemma core_refInv (hi : BanRefInv st) {act : BanAct} (hallow : st.allows act = true) {core : BanState}
    {v : Option BanVerdict} (h : st.core.exec re act = some (core, v)) : BanRefInv { st with core := core } := by
  have strip : ∀ {r : Option BanState}, r.map (·, none) = some (core, v) → r = some core := by
    intro r hr
    obtain ⟨y, rfl, hy⟩ := Option.map_eq_some_iff.mp hr
    cases hy
    rfl
  cases act with
  | insert spec dups => cases hallow
  | hunt p => exact banHunt_refInv hi (strip h)
  | create x oh => exact create_refInv hi (strip h)
  | attach x => cases hallow
  | unbusy x http => exact hshUnbusy_refInv hi (strip h)
  | unlink x => exact unlink_refInv hi (of_decide_eq_true hallow).2 (strip h)
  | destroy x => exact banDestroyObj_refInv hi (of_decide_eq_true hallow).2 (strip h)
  | lock s oh req => exact lock_refInv hi (strip h)
  | check s x => exact lookupBegin_refInv hi h
  | walk s => exact lookupWalk_refInv hi (strip h)
  | finish s => cases hallow
  | unlock s => exact unlock_refInv hi (strip h)
  | checkLast => exact banCheckLast_refInv hi (strip h)
  | startPass => exact startPass_refInv hi (strip h)
  | tag => exact tagBan_refInv hi (strip h)
  | look => exact lurkLook_refInv hi (by simpa [allows] using hallow) (strip h)
  | lurkBegin => exact lurkBegin_refInv hi (strip h)
  | lurkWalk => exact lurkWalk_refInv hi (strip h)
  | lurkFinish => exact lurkFinish_refInv hi hallow (strip h)

lemma exec_refInv (hi : BanRefInv st) {act : BanRefAct} (h : st.exec re act = some st') : BanRefInv st' := by
  cases act with
  | core act =>
    simp only [BanRefState.exec] at h
    split at h
    · rename_i hallow
      obtain ⟨⟨core, v⟩, hcore, rfl⟩ := Option.map_eq_some_iff.mp h
      exact core_refInv hi hallow hcore
    · cases h
  | insert spec dups t0 =>
    cases h
    exact banInsert_refInv hi spec dups t0
  | newObject x e => exact newObject_refInv hi h
  | commit hd => exact commit_refInv hi h
  | clear hd => exact clear_refInv hi h
  | store hd => exact store_refInv hi h
  | tailRef t => exact banTailRef_refInv hi h
  | tailDeref t => exact banTailDeref_refInv hi h
  | load t x t0 http e => exact loadObj_refInv hi h
  | refWalk t => exact refWalk_refInv hi h
  | refBan t => exact banRefBan_refInv hi h
  | refStore t => exact refStore_refInv hi h
  | hshInsert t oh => exact hshInsert_refInv hi h
  | take s x => exact (take_user h).refInv hi
  | release s => exact (release_user h).refInv hi
  | setTtl s a now => exact (vrtSetObjTtl_user h).refInv hi
  | expSetTtl s => exact (expSetTtl_user h).refInv hi
  | purge s x ttl grace => exact (hshPurge_user h).refInv hi
  | purgeStore s => exact (purgeStore_user h).refInv hi

lemma init_refInv {n : Nat} (hn : 1 ≤ n) (ban : Nat → Ban) (time : Nat → Int) : BanRefInv (.init n ban time) where
  book :=
    { one_le := le_rfl
      order := hn
      listed := by
        intro x a
        simp [BanRefState.init, banPtr, BanState.init]
      nodup := fun a => List.nodup_nil
      inList := by
        intro x a hx
        cases hx
      hunt := by
        intro p hp
        cases hp
      tail := by
        intro t a ht
        cases ht
      count := by
        intro a
        have hnone : refs (tailOf (.init n ban time)) a = 0 := by
          rw [refs_eq_zero]
          intro t ht
          cases ht
        rw [hnone]
        rfl }
  threads :=
    { sess := by
        intro s σ hσ
        cases hσ
      check := by
        intro h c hc
        cases h <;> cases hc
      got := by
        intro b b0 x hx
        cases hx
      lurk := by
        intro b b0 c hx
        cases hx
      late := by
        intro x l hl
        cases hl
      load := by
        intro t p x ht
        cases ht
      unborn := by
        intro x hx
        cases hx
      alone := by
        intro t u p q x ht
        cases ht }

lemma refInv_of_reach (h : BanRefReach re P st) : BanRefInv st := by
  induction h with
  | init hn => exact init_refInv hn _ _
  | step _ _ hexec ih => exact exec_refInv ih hexec

/-- `ban_check_object` has changed the lists for objcore `x`, and has yet to write its `oc->ban`. -/
def Unwritten (st : BanRefState) (x : Nat) : Prop := ∃ h c, st.check h = some c ∧ c.oc = x ∧ st.late x ≠ none

/-- The counts of all bans, the lists of all objcores but those of `skip`, and what `ban_CheckLast` frees. -/
structure BanListOk (st : BanRefState) (skip : Nat → Prop) : Prop where
  count : ∀ a, st.core.last ≤ a → a ≤ st.core.first → ((st.core.ban a).refcount : ℕ∞) =
    (st.core.ban a).objcore.length + st.core.hunts.countP (fun p => p.2 = a) +
      {t | ∃ p, st.silos t = some p ∧ p.tail = a}.encard
  once : ∀ a, (st.core.ban a).objcore.Nodup
  listed : ∀ x o a, ¬ skip x → st.core.ocs x = some o → o.ban = some a → ∀ b, x ∈ (st.core.ban b).objcore ↔ b = a
  freed : ∀ core a, st.core.banCheckLast = some core → st.core.last ≤ a → a < core.last →
    (∀ x o, ¬ skip x → st.core.ocs x = some o → o.ban ≠ some a) ∧ (∀ p ∈ st.core.hunts, p.2 ≠ a) ∧
      ∀ t p, st.silos t = some p → p.tail ≠ a

/-- The pointer of an objcore that is not in the middle of a check is the one the books have. -/
lemma BanRefInv.ptr_eq (hi : BanRefInv st) {a : Nat} (hskip : ¬ Unwritten st x) (ho : st.core.ocs x = some o)
    (hban : o.ban = some a) : banPtr st x = some a := by
  cases hl : st.late x with
  | none =>
    rw [banPtr, ho, hl]
    exact hban
  | some l =>
    rcases hi.threads.late x l hl with ⟨h, c, hc, hoc, -⟩ | ⟨t, p, ht, hp⟩
    · exact (hskip ⟨h, c, hc, hoc, by rw [hl]; exact Option.some_ne_none l⟩).elim
    · obtain ⟨o', hat⟩ := hi.threads.load t p x ht (by rw [hp]; rfl)
      obtain rfl := Option.some.inj (hat.oc.symm.trans ho)
      have hph := hat.phase
      unfold LoadPhase at hph
      rw [hp] at hph
      rw [hph.1] at hban
      cases hban

lemma refs_tailOf (st : BanRefState) (a : Nat) :
    RefCount.refs (tailOf st) a = {t | ∃ p, st.silos t = some p ∧ p.tail = a}.encard := by
  unfold RefCount.refs
  congr 1
  ext t
  exact Option.map_eq_some_iff

lemma banCheckLast_frame {core core' : BanState} (h : core.banCheckLast = some core') :
    core'.ocs = core.ocs ∧ core'.hunts = core.hunts := by
  unfold banCheckLast at h
  split at h
  · split at h
    · split at h
      · cases h
      · cases h
        exact ⟨rfl, rfl⟩
    · cases h
      exact ⟨rfl, rfl⟩
  · cases h

lemma BanRefInv.listOk (hi : BanRefInv st) : BanListOk st (Unwritten st) where
  count := by
    intro a _ _
    rw [← hi.book.count a, refs_tailOf, Nat.cast_add, add_comm]
  once := hi.book.nodup
  listed := by
    intro x o a hskip ho hban b
    rw [hi.book.listed, hi.ptr_eq hskip ho hban, Option.some.injEq, eq_comm]
  freed := by
    intro core a hcore hlo hhi
    -- only the last ban can go, and after that the books say that all pointers are above it
    have hafter := banCheckLast_refInv hi hcore
    obtain ⟨hocs, hhunts⟩ := banCheckLast_frame hcore
    refine ⟨?_, ?_, ?_⟩
    · intro x o hskip ho hban
      have hptr := hi.ptr_eq hskip ho hban
      have hsame : banPtr { st with core := core } x = banPtr st x := by
        unfold banPtr
        rw [hocs]
      have hle := (hafter.book.inList x a (hsame.trans hptr)).1
      exact absurd hhi (Nat.not_lt.mpr hle)
    · rintro p hp rfl
      have hlast := (hafter.book.hunt p (by rw [hhunts]; exact hp)).1
      exact absurd hhi (by rw [hlast]; exact lt_irrefl _)
    · rintro t p ht rfl
      have hle := (hafter.book.tail t p.tail (by simp [tailOf, ht])).1
      exact absurd hhi (Nat.not_lt.mpr hle)

/-- Where an objcore is whose `oc->ban` has yet to be written: on the list of `b0` alone or on no list, with the mutex
of its objhead held. -/
lemma BanRefInv.unwritten (hi : BanRefInv st) {h : BanHolder} {c : BanCheck} {l : BanLate} (hc : st.check h = some c)
    (hl : st.late c.oc = some l) : ∃ o, st.core.ocs c.oc = some o ∧ o.onHead ∧ st.core.mtx o.objhead = some h ∧
      ∀ b, c.oc ∈ (st.core.ban b).objcore ↔ l = .move c.b0 ∧ b = c.b0 := by
  obtain ⟨o, a, hat⟩ := hi.threads.check h c hc
  obtain ⟨c', hc', -, hb0⟩ := hi.threads.late_check hat.held hl
  cases hc.symm.trans hc'
  refine ⟨o, hat.held.oc, hat.held.onHead, hat.held.mtx, ?_⟩
  intro b
  rw [hi.book.listed, banPtr, hat.held.oc, hl, Option.bind_some]
  cases l with
  | move d =>
    obtain rfl := hb0 d rfl
    simp [lateBan, eq_comm]
  | clear => simp [lateBan]
  | null => simp [lateBan]

/-- In every state of every run, the counts and lists are right but for objcores that `ban_check_object` is still to
write `oc->ban` of, and of these it is known where they are. -/
theorem ban_list_reachable (h : BanRefReach re (fun _ _ => True) st) :
    BanListOk st (Unwritten st) ∧
      ∀ hd c l, st.check hd = some c → st.late c.oc = some l →
        ∃ o, st.core.ocs c.oc = some o ∧ o.onHead ∧ st.core.mtx o.objhead = some hd ∧
          ∀ b, c.oc ∈ (st.core.ban b).objcore ↔ l = .move c.b0 ∧ b = c.b0 :=
  ⟨(refInv_of_reach h).listOk, fun _ _ _ hc hl => (refInv_of_reach h).unwritten hc hl⟩

/-- The steps of a run, one after the other. -/
def runRef (re : String → String → Bool) (st : BanRefState) : List BanRefAct → Option BanRefState
  | [] => some st
  | act :: acts => (st.exec re act).bind (fun st' => runRef re st' acts)

lemma runRef_reach {acts : List BanRefAct} (hP : ∀ act ∈ acts, ∀ st, P st act) (h : BanRefReach re P st)
    (hrun : runRef re st acts = some st') : BanRefReach re P st' := by
  induction acts generalizing st with
  | nil =>
    cases hrun
    exact h
  | cons act acts ih =>
    obtain ⟨st1, hexec, hrun⟩ := Option.bind_eq_some_iff.mp hrun
    exact ih (fun a ha => hP a (List.mem_cons_of_mem act ha)) (h.step (hP act List.mem_cons_self st) hexec) hrun

/-- All steps of a run pass a check. -/
def checkRef (re : String → String → Bool) (ok : BanRefState → BanRefAct → Bool) : BanRefState → List BanRefAct → Bool
  | _, [] => true
  | st, act :: acts => ok st act && (st.exec re act).all (fun st' => checkRef re ok st' acts)

lemma runRef_checked {ok : BanRefState → BanRefAct → Bool} {acts : List BanRefAct}
    (hok : ∀ st act, ok st act = true → P st act)
    (h : BanRefReach re P st) (hall : checkRef re ok st acts = true) (hrun : runRef re st acts = some st') :
    BanRefReach re P st' := by
  induction acts generalizing st with
  | nil =>
    cases hrun
    exact h
  | cons act acts ih =>
    obtain ⟨st1, hexec, hrun⟩ := Option.bind_eq_some_iff.mp hrun
    obtain ⟨hP, hrest⟩ := Bool.and_eq_true_iff.mp hall
    rw [hexec, Option.all_some] at hrest
    exact ih (h.step (hok st act hP) hexec) hrest hrun

/-- A lookup moves an object from ban 1 to ban 2, up to the end of the critical section. -/
def moveRun : List BanRefAct :=
  [.core (.create 0 0), .newObject 0 { entered := 1000, ttl := 100, grace := 0, keep := 0 }, .core (.unbusy 0 noReq),
    .insert [{ arg1 := .reqUrl, oper := .eq, arg2 := "/" }] false 1001, .core (.lock 0 0 noReq), .core (.check 0 0),
    .core (.walk 0), .commit (.sess 0)]

def moveInit : BanRefState := .init 1 (fun _ => { gone := true, lurk := 0, refcount := 0, objcore := [], spec := [] })
  (fun _ => 0)

lemma moveRun_end : ∃ st, runRef (fun _ _ => false) moveInit moveRun = some st ∧
    (st.core.ocs 0).map (fun o => (o.ban, o.onHead)) = some (some 1, true) ∧
    ((st.core.ban 2).objcore = [0] ∧ (st.check (.sess 0)).map BanCheck.oc = some 0 ∧ st.late 0 = some (.move 2)) ∧
    (st.core.last = 1 ∧ st.core.banCheckLast.map BanState.last = some 2) := by
  refine ⟨_, rfl, ?_⟩
  decide

/-- The counts and lists are right at the end of that run, and the object is known to be on the list of ban 2 only. -/
theorem ban_list_reachable_move : ∃ st, BanRefReach (fun _ _ => false) (fun _ _ => True) st ∧
    BanListOk st (Unwritten st) ∧ ∃ c, st.check (.sess 0) = some c ∧ c.oc = 0 ∧
      ∀ b, 0 ∈ (st.core.ban b).objcore ↔ BanLate.move 2 = .move c.b0 ∧ b = c.b0 := by
  obtain ⟨st, hrun, -, ⟨-, hcheck, hlate⟩, -⟩ := moveRun_end
  have hreach := runRef_reach (fun _ _ _ => trivial) (.init le_rfl) hrun
  obtain ⟨c, hc, hoc⟩ := Option.map_eq_some_iff.mp hcheck
  obtain ⟨hok, hlist⟩ := ban_list_reachable hreach
  obtain ⟨o, -, -, -, hmem⟩ := hlist _ c _ hc (by rw [hoc]; exact hlate)
  rw [hoc] at hmem
  exact ⟨st, hreach, hok, c, hc, hoc, hmem⟩

/-- There, `oc->ban` is ban 1 while the object is on the list of ban 2, and `ban_CheckLast` frees ban 1. -/
theorem ban_list_behind : ∃ st, BanRefReach (fun _ _ => false) (fun _ _ => True) st ∧
    (∃ o, st.core.ocs 0 = some o ∧ o.ban = some 1 ∧ 0 ∉ (st.core.ban 1).objcore ∧ 0 ∈ (st.core.ban 2).objcore) ∧
    (∃ core, st.core.banCheckLast = some core ∧ 1 < core.last) ∧ ¬ BanListOk st (fun _ => False) := by
  obtain ⟨st, hrun, hoc, ⟨hobj, -⟩, hlast, hfree⟩ := moveRun_end
  have hreach := runRef_reach (fun _ _ _ => trivial) (.init le_rfl) hrun
  obtain ⟨o, ho, hban⟩ := Option.map_eq_some_iff.mp hoc
  have hban1 : o.ban = some 1 := congrArg Prod.fst hban
  obtain ⟨core, hcore, hlast2⟩ := Option.map_eq_some_iff.mp hfree
  have hmem : 0 ∈ (st.core.ban 2).objcore := by
    rw [hobj]
    exact List.mem_singleton_self 0
  have hnot : 0 ∉ (st.core.ban 1).objcore := by
    rw [(refInv_of_reach hreach).book.listed, ((refInv_of_reach hreach).book.listed 0 2).mp hmem]
    decide
  refine ⟨st, hreach, ⟨o, ho, hban1, hnot, hmem⟩, ⟨core, hcore, by omega⟩, ?_⟩
  intro hok
  exact (hok.freed core 1 hcore (by omega) (by omega)).1 0 o id ho hban1

end VarnishCache.Proofs
