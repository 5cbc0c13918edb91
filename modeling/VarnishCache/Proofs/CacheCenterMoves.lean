import Mathlib.Tactic
import VarnishCache.CacheCenter

/-!
# Where a session goes

What one step does to the position of a session: `step`, `restarts`, the includes around it, and the number of times it
has come to `cnt_recv`. From this, the restart counter stays within `max_restarts`.
-/

namespace VarnishCache.Proofs

open Cnt

variable {p : CntParams} {e : CntEnv} {st st' : Cnt}

/-- The position is the same. -/
structure SamePlace (st st' : Cnt) : Prop where
  pc : st'.pc = st.pc
  step : st'.step = st.step
  restarts : st'.restarts = st.restarts
  recvs : st'.recvs = st.recvs
  frames : st'.frames = st.frames

lemma vdiCloseFd_place (h : st.vdiCloseFd = some st') : SamePlace st st' := by
  unfold Cnt.vdiCloseFd at h
  split at h
  · cases h
    exact ⟨rfl, rfl, rfl, rfl, rfl⟩
  · cases h

lemma hshUnbusy_place (h : st.hshUnbusy = some st') : SamePlace st st' := by
  unfold Cnt.hshUnbusy at h
  split at h
  · split at h
    · cases h
      exact ⟨rfl, rfl, rfl, rfl, rfl⟩
    · cases h
  · cases h

lemma hshDeref_place (h : st.hshDeref = some st') : SamePlace st st' := by
  unfold Cnt.hshDeref at h
  split at h
  · cases h
  · cases h
    exact ⟨rfl, rfl, rfl, rfl, rfl⟩
  · cases h
    exact ⟨rfl, rfl, rfl, rfl, rfl⟩

lemma hshDerefOc_place (st : Cnt) : SamePlace st st.hshDerefOc := by
  unfold Cnt.hshDerefOc
  split
  · exact ⟨rfl, rfl, rfl, rfl, rfl⟩
  · exact ⟨rfl, rfl, rfl, rfl, rfl⟩

lemma SamePlace.trans {st'' : Cnt} (h : SamePlace st st') (h' : SamePlace st' st'') : SamePlace st st'' :=
  ⟨h'.pc.trans h.pc, h'.step.trans h.step, h'.restarts.trans h.restarts, h'.recvs.trans h.recvs,
    h'.frames.trans h.frames⟩

lemma hshDrop_place (h : st.hshDrop = some st') : SamePlace st st' := by
  unfold Cnt.hshDrop at h
  split at h
  · cases h
  · exact hshDeref_place h
  · obtain ⟨mid, hmid, hend⟩ := Option.bind_eq_some_iff.mp h
    exact (hshUnbusy_place hmid).trans (hshDeref_place hend)

lemma stvNewObject_place (st : Cnt) : SamePlace st st.stvNewObject := by
  unfold Cnt.stvNewObject
  split
  · exact ⟨rfl, rfl, rfl, rfl, rfl⟩
  · exact ⟨rfl, rfl, rfl, rfl, rfl⟩

lemma fetchHdr_place {r : FetchHdrRes} (h : st.fetchHdr r = some st') : SamePlace st st' := by
  unfold Cnt.fetchHdr at h
  split at h
  · cases h
    exact ⟨rfl, rfl, rfl, rfl, rfl⟩
  · cases h

lemma fetchBody_place (h : st.fetchBody = some st') : SamePlace st st' := by
  unfold Cnt.fetchBody at h
  split at h
  · cases h
    exact ⟨rfl, rfl, rfl, rfl, rfl⟩
  · cases h

lemma fetchCleanup_place (st : Cnt) : SamePlace st st.fetchCleanup := by
  have h := hshDerefOc_place st
  exact ⟨h.pc, h.step, h.restarts, h.recvs, h.frames⟩

lemma leave_pc_eq {pc : CntPc} (h : st.leave pc = some st') : st' = { st with pc := pc } := by
  unfold Cnt.leave at h
  split at h
  · cases h
    rfl
  · cases h

/-! ## The moves -/

/-- A step that comes later in a request has a smaller rank. -/
def rank : Stp → Nat
  | .first => 15
  | .wait => 14
  | .start => 13
  | .recv => 12
  | .lookup => 11
  | .hit => 10
  | .miss => 9
  | .pass => 8
  | .fetch => 7
  | .fetchbody => 6
  | .error => 5
  | .prepresp => 4
  | .streambody => 3
  | .deliver => 2
  | .pipe => 1
  | .done => 0

/-- The steps that are reached only where `cnt_recv` has found restarts left. -/
def gated : Stp → Bool
  | .lookup | .hit | .miss | .pass | .pipe | .fetch | .fetchbody => true
  | _ => false

/-- The steps before a request is read. -/
def beforeRequest : Stp → Bool
  | .first | .wait | .start => true
  | _ => false

/-- The steps on the way to an answer. -/
def answering : Stp → Bool
  | .error | .prepresp | .streambody | .deliver => true
  | _ => false

/-- The steps that can restart. -/
def restarter : Stp → Bool
  | .hit | .fetch | .error | .prepresp => true
  | _ => false

/-- The second step comes after the first in a request. -/
def Later (s s' : Stp) : Prop :=
  rank s' < rank s ∧ (gated s' = true → gated s = true) ∧ s ≠ .recv ∧ s ≠ .start ∧
    (beforeRequest s = true → beforeRequest s' = true ∨ s' = .done)

instance (s s' : Stp) : Decidable (Later s s') := by
  unfold Later
  infer_instance

/-- What a step of the session can do to its position. -/
inductive Move (p : CntParams) (st st' : Cnt) : Prop where
  /-- On to a later step. -/
  | down (pc : st.pc = .run) (pc' : st'.pc = .run) (later : Later st.step st'.step)
      (restarts : st'.restarts = st.restarts ∨ st'.step = .done) (recvs : st'.recvs = st.recvs)
      (frames : st'.frames = st.frames)
  | restart (pc : st.pc = .run) (pc' : st'.pc = .run) (step : restarter st.step = true) (step' : st'.step = .recv)
      (left : gated st.step = true ∨ st.restarts < p.maxRestarts) (restarts : st'.restarts = st.restarts + 1)
      (recvs : st'.recvs = st.recvs) (frames : st'.frames = st.frames)
  | recv (pc : st.pc = .run) (pc' : st'.pc = .run) (step : st.step = .recv) (low : rank st'.step < rank .recv)
      (left : st'.step = .error ∨ st.restarts < p.maxRestarts) (step' : st'.step ≠ .done)
      (restarts : st'.restarts = st.restarts) (recvs : st'.recvs = st.recvs + 1) (frames : st'.frames = st.frames)
  | start (pc : st.pc = .run) (pc' : st'.pc = .run) (step : st.step = .start)
      (step' : st'.step = .done ∨ st'.step = .error ∨ st'.step = .recv) (restarts : st.restarts = 0 ∧ st'.restarts = 0)
      (recvs : st'.recvs = 0) (frames : st'.frames = st.frames)
  | deliver (n : Nat) (pc : st.pc = .run) (pc' : st'.pc = .write n) (step : st.step = .deliver)
      (restarts : st'.restarts = 0) (recvs : st'.recvs = st.recvs) (frames : st'.frames = st.frames)
  /-- The include is too deep. -/
  | skip (n : Nat) (pc : st.pc = .write (n + 1)) (pc' : st'.pc = .write n) (restarts : st'.restarts = st.restarts)
      (recvs : st'.recvs = st.recvs) (frames : st'.frames = st.frames)
  | push (n : Nat) (f : CntFrame) (pc : st.pc = .write (n + 1)) (pc' : st'.pc = .run) (step' : st'.step = .recv)
      (restarts : st'.restarts = st.restarts) (recvs : st'.recvs = 0) (deep : st.frames.length < p.maxEsiDepth)
      (frames : st'.frames = f :: st.frames) (left : f.left = n) (kept : f.recvs = st.recvs) (obj : f.obj = st.obj)
  | written (pc : st.pc = .write 0) (pc' : st'.pc = .run) (step' : st'.step = .done) (recvs : st'.recvs = st.recvs)
      (frames : st'.frames = st.frames)
  | pop (f : CntFrame) (pc : st.pc = .run) (step : st.step = .done) (frames : st.frames = f :: st'.frames)
      (pc' : st'.pc = .write f.left) (restarts : st'.restarts = 0) (recvs : st'.recvs = f.recvs)
  /-- `cnt_done` goes on to the next request. -/
  | again (pc : st.pc = .run) (pc' : st'.pc = .run) (step : st.step = .done)
      (step' : st'.step = .start ∨ st'.step = .wait) (restarts : st'.restarts = 0) (recvs : st'.recvs = st.recvs)
      (frames : st'.frames = st.frames) (top : st.frames = [])
  | park (pc : st.pc = .run) (pc' : st'.pc = .parked) (step : st.step = .lookup) (step' : st'.step = .lookup)
      (restarts : st'.restarts = st.restarts) (recvs : st'.recvs = st.recvs) (frames : st'.frames = st.frames)
  | leave (pc : st.pc = .run) (pc' : st'.pc = .waiter ∨ st'.pc = .gone) (step : st.step = .wait ∨ st.step = .done)
      (restarts : st'.restarts = st.restarts ∨ st'.restarts = 0) (recvs : st'.recvs = st.recvs)
      (frames : st'.frames = st.frames)
  | resume (pc : st.pc = .parked) (pc' : st'.pc = .run)
      (step : st'.step = st.step ∨ st'.step = .done) (lookup : st.step = .lookup → st'.step = .lookup)
      (restarts : st'.restarts = st.restarts) (recvs : st'.recvs = st.recvs) (frames : st'.frames = st.frames)
  | take (pc : st.pc = .queued ∨ st.pc = .waiter) (pc' : st'.pc = .run)
      (step : st.pc = .waiter ∧ st'.step = .start ∨ st.pc = .queued ∧ st'.step = st.step ∨ st'.step = .done)
      (restarts : st'.restarts = st.restarts) (recvs : st'.recvs = st.recvs) (frames : st'.frames = st.frames)
  | gone (pc : st.pc = .gone) (eq : st' = st)

/-- A step further down, with the position otherwise as it was. -/
lemma SamePlace.down {s : Stp} (t : Stp) (hpc : st.pc = .run) (hstep : st.step = s) (hstep' : st'.step = t)
    (hlater : Later s t) (hplace : SamePlace st { st' with step := st.step }) : Move p st st' := by
  subst hstep hstep'
  exact .down hpc (hplace.pc.trans hpc) hlater (Or.inl hplace.restarts) hplace.recvs hplace.frames

/-- A restart, with the position otherwise as it was. -/
lemma SamePlace.restart {s : Stp} (hpc : st.pc = .run) (hstep : st.step = s) (hres : restarter s = true)
    (hleft : gated s = true ∨ st.restarts < p.maxRestarts) (hstep' : st'.step = .recv)
    (hrestarts : st'.restarts = st.restarts + 1)
    (hplace : SamePlace st { st' with step := st.step, restarts := st.restarts }) : Move p st st' := by
  subst hstep
  exact .restart hpc (hplace.pc.trans hpc) hres hstep' hleft hrestarts hplace.recvs hplace.frames

lemma cntWait_move (hpc : st.pc = .run) (hstep : st.step = .wait) (h : st.cntWait e = some st') : Move p st st' := by
  unfold Cnt.cntWait at h
  split at h
  · split at h
    · cases leave_pc_eq h
      exact .leave hpc (Or.inl rfl) (Or.inl hstep) (Or.inl rfl) rfl rfl
    · cases h
      exact SamePlace.down .start hpc hstep rfl (by decide) ⟨rfl, rfl, rfl, rfl, rfl⟩
    · cases h
      exact SamePlace.down .done hpc hstep rfl (by decide) ⟨rfl, rfl, rfl, rfl, rfl⟩
  · cases h

lemma cntFirst_move (hpc : st.pc = .run) (hstep : st.step = .first) (h : st.cntFirst = some st') : Move p st st' := by
  unfold Cnt.cntFirst at h
  split at h
  · cases h
    exact SamePlace.down .wait hpc hstep rfl (by decide) ⟨rfl, rfl, rfl, rfl, rfl⟩
  · cases h

lemma cntStart_move (hpc : st.pc = .run) (hstep : st.step = .start) (h : st.cntStart e = some st') : Move p st st' := by
  unfold Cnt.cntStart at h
  split at h
  · rename_i hasserts
    simp only [Bool.and_eq_true, decide_eq_true_eq] at hasserts
    have hzero := hasserts.1.1
    split at h
    · cases h
      exact .start hpc hpc hstep (Or.inl rfl) ⟨hzero, hzero⟩ rfl rfl
    · cases h
      exact .start hpc hpc hstep (Or.inr (Or.inl rfl)) ⟨hzero, hzero⟩ rfl rfl
    · cases h
      refine .start hpc hpc hstep ?_ ⟨hzero, hzero⟩ rfl rfl
      cases e.expect
      · exact Or.inr (Or.inr rfl)
      · exact Or.inr (Or.inl rfl)
  · cases h

lemma cntRecv_move (hpc : st.pc = .run) (hstep : st.step = .recv) (h : st.cntRecv p e = some st') : Move p st st' := by
  unfold Cnt.cntRecv at h
  split at h
  · dsimp only at h
    split at h
    · cases h
      exact .recv hpc hpc hstep (by simp [rank]) (Or.inl rfl) (by simp) rfl rfl rfl
    · rename_i hleft
      have hleft : st.restarts < p.maxRestarts := Nat.lt_of_not_le hleft
      split at h
      · cases h
        exact .recv hpc hpc hstep (by simp [rank]) (Or.inr hleft) (by simp) rfl rfl rfl
      · split at h
        · cases h
          exact .recv hpc hpc hstep (by simp [rank]) (Or.inr hleft) (by simp) rfl rfl rfl
        · cases h
      · cases h
        exact .recv hpc hpc hstep (by simp [rank]) (Or.inr hleft) (by simp) rfl rfl rfl
      · cases h
        exact .recv hpc hpc hstep (by simp [rank]) (Or.inr hleft) (by simp) rfl rfl rfl
      · cases h
  · cases h

lemma cntPipe_move (hpc : st.pc = .run) (hstep : st.step = .pipe) (h : st.cntPipe e = some st') : Move p st st' := by
  unfold Cnt.cntPipe at h
  split at h
  · split at h
    · cases h
      exact SamePlace.down .done hpc hstep rfl (by decide) ⟨rfl, rfl, rfl, rfl, rfl⟩
    · cases h
  · cases h

lemma cntPass_move (hpc : st.pc = .run) (hstep : st.step = .pass) (h : st.cntPass e = some st') : Move p st st' := by
  unfold Cnt.cntPass at h
  split at h
  · dsimp only at h
    split at h
    · cases h
      exact SamePlace.down .error hpc hstep rfl (by decide) ⟨rfl, rfl, rfl, rfl, rfl⟩
    · cases h
      exact SamePlace.down .fetch hpc hstep rfl (by decide) ⟨rfl, rfl, rfl, rfl, rfl⟩
    · cases h
  · cases h

lemma cntMiss_move (hpc : st.pc = .run) (hstep : st.step = .miss) (h : st.cntMiss e = some st') : Move p st st' := by
  unfold Cnt.cntMiss at h
  split at h
  · dsimp only at h
    have hoc := hshDerefOc_place { st with bereq := true, handling := e.miss }
    split at h
    · cases h
      exact SamePlace.down .error hpc hstep rfl (by decide) ⟨hoc.pc, rfl, hoc.restarts, hoc.recvs, hoc.frames⟩
    · cases h
      exact SamePlace.down .pass hpc hstep rfl (by decide) ⟨hoc.pc, rfl, hoc.restarts, hoc.recvs, hoc.frames⟩
    · cases h
      exact SamePlace.down .fetch hpc hstep rfl (by decide) ⟨rfl, rfl, rfl, rfl, rfl⟩
    · cases h
  · cases h

lemma cntHit_move (hpc : st.pc = .run) (hstep : st.step = .hit) (h : st.cntHit e = some st') : Move p st st' := by
  unfold Cnt.cntHit at h
  split at h
  · split at h
    · dsimp only at h
      split at h
      · split at h
        · cases h
          exact SamePlace.down .prepresp hpc hstep rfl (by decide) ⟨rfl, rfl, rfl, rfl, rfl⟩
        · cases h
      · obtain ⟨mid, hmid, rfl⟩ := Option.map_eq_some_iff.mp h
        have hd := hshDeref_place hmid
        exact SamePlace.down .pass hpc hstep rfl (by decide) ⟨hd.pc, rfl, hd.restarts, hd.recvs, hd.frames⟩
      · obtain ⟨mid, hmid, rfl⟩ := Option.map_eq_some_iff.mp h
        have hd := hshDeref_place hmid
        exact SamePlace.down .error hpc hstep rfl (by decide) ⟨hd.pc, rfl, hd.restarts, hd.recvs, hd.frames⟩
      · obtain ⟨mid, hmid, rfl⟩ := Option.map_eq_some_iff.mp h
        have hd := hshDeref_place hmid
        exact SamePlace.restart hpc hstep rfl (Or.inl rfl) rfl (congrArg (· + 1) hd.restarts)
          ⟨hd.pc, rfl, rfl, hd.recvs, hd.frames⟩
      · cases h
    · cases h
  · cases h

lemma cntLookup_move (hpc : st.pc = .run) (hstep : st.step = .lookup) (h : st.cntLookup e = some st') :
    Move p st st' := by
  unfold Cnt.cntLookup at h
  split at h
  · split at h
    · dsimp only at h
      split at h
      · cases leave_pc_eq h
        exact .park hpc rfl hstep hstep rfl rfl rfl
      · split at h
        · cases h
          exact .park hpc rfl hstep hstep rfl rfl rfl
        · cases h
    · cases h
      exact SamePlace.down .miss hpc hstep rfl (by decide) ⟨rfl, rfl, rfl, rfl, rfl⟩
    · dsimp only at h
      split at h
      · obtain ⟨mid, hmid, rfl⟩ := Option.map_eq_some_iff.mp h
        have hd := hshDeref_place hmid
        exact SamePlace.down .pass hpc hstep rfl (by decide) ⟨hd.pc, rfl, hd.restarts, hd.recvs, hd.frames⟩
      · cases h
        exact SamePlace.down .hit hpc hstep rfl (by decide) ⟨rfl, rfl, rfl, rfl, rfl⟩
  · cases h

lemma fetchReturn_move {a : Cnt} (hpc : st.pc = .run) (hstep : st.step = .fetch) (hplace : SamePlace st a)
    (h : a.fetchReturn e = some st') : Move p st st' := by
  unfold Cnt.fetchReturn at h
  split at h
  · cases h
    exact SamePlace.down .fetchbody hpc hstep rfl (by decide)
      ⟨hplace.pc, rfl, hplace.restarts, hplace.recvs, hplace.frames⟩
  · split at h
    · cases h
      exact SamePlace.down .fetchbody hpc hstep rfl (by decide)
        ⟨hplace.pc, rfl, hplace.restarts, hplace.recvs, hplace.frames⟩
    · cases h
  · obtain ⟨mid, hmid, rfl⟩ := Option.map_eq_some_iff.mp h
    have hclose := hplace.trans (vdiCloseFd_place hmid)
    have hc := hclose.trans (fetchCleanup_place mid)
    exact SamePlace.restart hpc hstep rfl (Or.inl rfl) rfl (congrArg (· + 1) hclose.restarts)
      ⟨hc.pc, rfl, rfl, hc.recvs, hc.frames⟩
  · obtain ⟨mid, hmid, rfl⟩ := Option.map_eq_some_iff.mp h
    have hc := (hplace.trans (vdiCloseFd_place hmid)).trans (fetchCleanup_place mid)
    exact SamePlace.down .error hpc hstep rfl (by decide) ⟨hc.pc, rfl, hc.restarts, hc.recvs, hc.frames⟩
  · cases h

lemma cntFetch_move (hpc : st.pc = .run) (hstep : st.step = .fetch) (h : st.cntFetch e = some st') : Move p st st' := by
  unfold Cnt.cntFetch at h
  split at h
  · obtain ⟨a, ha, h⟩ := Option.bind_eq_some_iff.mp h
    obtain ⟨b, hb, h⟩ := Option.bind_eq_some_iff.mp h
    have hab : SamePlace a b := by
      split at hb
      · exact fetchHdr_place hb
      · cases hb
        exact ⟨rfl, rfl, rfl, rfl, rfl⟩
    have hplace : SamePlace st b := by
      have hst := (fetchHdr_place ha).trans hab
      exact ⟨hst.pc, hst.step, hst.restarts, hst.recvs, hst.frames⟩
    split at h
    · cases h
      have hc := hplace.trans (fetchCleanup_place b)
      exact SamePlace.down .error hpc hstep rfl (by decide) ⟨hc.pc, rfl, hc.restarts, hc.recvs, hc.frames⟩
    · split at h
      · cases h
      · have hmethod : SamePlace b (b.fetchMethod e) := ⟨rfl, rfl, rfl, rfl, rfl⟩
        exact fetchReturn_move hpc hstep (hplace.trans hmethod) h
  · cases h

lemma fetchbodyObject_place (h : st.fetchbodyObject e = some st') :
    (st'.step = .prepresp ∨ st'.step = .error) ∧ SamePlace st { st' with step := st.step } := by
  have hnew := stvNewObject_place st
  unfold Cnt.fetchbodyObject at h
  dsimp only at h
  split at h
  · split at h
    · cases h
      exact ⟨Or.inl rfl, hnew.pc, rfl, hnew.restarts, hnew.recvs, hnew.frames⟩
    · obtain ⟨a, ha, h⟩ := Option.bind_eq_some_iff.mp h
      have hfetch := fetchBody_place ha
      have hpc := hfetch.pc.trans hnew.pc
      have hrestarts := hfetch.restarts.trans hnew.restarts
      have hrecvs := hfetch.recvs.trans hnew.recvs
      have hframes := hfetch.frames.trans hnew.frames
      split at h
      · obtain ⟨mid, hmid, rfl⟩ := Option.map_eq_some_iff.mp h
        have hd := hshDrop_place hmid
        exact ⟨Or.inr rfl, hd.pc.trans hpc, rfl, hd.restarts.trans hrestarts, hd.recvs.trans hrecvs,
          hd.frames.trans hframes⟩
      · split at h
        · obtain ⟨mid, hmid, rfl⟩ := Option.map_eq_some_iff.mp h
          have hd := hshUnbusy_place hmid
          exact ⟨Or.inl rfl, hd.pc.trans hpc, rfl, hd.restarts.trans hrestarts, hd.recvs.trans hrecvs,
            hd.frames.trans hframes⟩
        · cases h
          exact ⟨Or.inl rfl, hpc, rfl, hrestarts, hrecvs, hframes⟩
  · cases h

lemma cntFetchbody_move (hpc : st.pc = .run) (hstep : st.step = .fetchbody) (h : st.cntFetchbody p e = some st') :
    Move p st st' := by
  unfold Cnt.cntFetchbody at h
  split at h
  · dsimp only at h
    split at h
    · cases h
    · split at h
      · obtain ⟨mid, hmid, rfl⟩ := Option.map_eq_some_iff.mp h
        have hc := vdiCloseFd_place hmid
        exact SamePlace.down .error hpc hstep rfl (by decide) ⟨hc.pc, rfl, hc.restarts, hc.recvs, hc.frames⟩
      · split at h
        · obtain ⟨hor, hplace⟩ := fetchbodyObject_place h
          rcases hor with hs | hs
          · exact SamePlace.down .prepresp hpc hstep hs (by decide)
              ⟨hplace.pc, rfl, hplace.restarts, hplace.recvs, hplace.frames⟩
          · exact SamePlace.down .error hpc hstep hs (by decide)
              ⟨hplace.pc, rfl, hplace.restarts, hplace.recvs, hplace.frames⟩
        · obtain ⟨mid, hmid, rfl⟩ := Option.map_eq_some_iff.mp h
          have hc := vdiCloseFd_place hmid
          exact SamePlace.down .error hpc hstep rfl (by decide) ⟨hc.pc, rfl, hc.restarts, hc.recvs, hc.frames⟩
  · cases h

lemma cntStreambody_move (hpc : st.pc = .run) (hstep : st.step = .streambody) (h : st.cntStreambody e = some st') :
    Move p st st' := by
  unfold Cnt.cntStreambody at h
  split at h
  · obtain ⟨a, ha, h⟩ := Option.bind_eq_some_iff.mp h
    obtain ⟨b, hb, h⟩ := Option.bind_eq_some_iff.mp h
    have hab : SamePlace a b := by
      split at hb
      · cases hb
        exact ⟨rfl, rfl, rfl, rfl, rfl⟩
      · split at hb
        · have hu := hshUnbusy_place hb
          exact ⟨hu.pc, hu.step, hu.restarts, hu.recvs, hu.frames⟩
        · cases hb
          exact ⟨rfl, rfl, rfl, rfl, rfl⟩
    obtain ⟨c, hc, rfl⟩ := Option.map_eq_some_iff.mp h
    have hplace := ((fetchBody_place ha).trans hab).trans (hshDeref_place hc)
    exact .down hpc (hplace.pc.trans hpc) (by rw [hstep]; exact (by decide : Later .streambody .done)) (Or.inr rfl)
      hplace.recvs hplace.frames
  · cases h

lemma cntPrepresp_move (hpc : st.pc = .run) (hstep : st.step = .prepresp) (h : st.cntPrepresp p e = some st') :
    Move p st st' := by
  unfold Cnt.cntPrepresp at h
  split at h
  · dsimp only at h
    have hsend : Move p st
        { st with
          doclose := st.doclose || e.eofMode, resp := true, handling := e.deliver,
          step := if st.doStream then .streambody else .deliver } := by
      cases hs : st.doStream
      · exact SamePlace.down .deliver hpc hstep rfl (by decide) ⟨rfl, rfl, rfl, rfl, rfl⟩
      · exact SamePlace.down .streambody hpc hstep rfl (by decide) ⟨rfl, rfl, rfl, rfl, rfl⟩
    split at h
    · cases h
      exact hsend
    · split at h
      · cases h
        exact hsend
      · rename_i hleft
        obtain ⟨mid, hmid, rfl⟩ := Option.map_eq_some_iff.mp h
        have hplace : SamePlace st mid := by
          split at hmid
          · obtain ⟨a, ha, hb⟩ := Option.bind_eq_some_iff.mp hmid
            have hab := (vdiCloseFd_place ha).trans (hshDrop_place hb)
            exact ⟨hab.pc, hab.step, hab.restarts, hab.recvs, hab.frames⟩
          · have hd := hshDeref_place hmid
            exact ⟨hd.pc, hd.step, hd.restarts, hd.recvs, hd.frames⟩
        exact SamePlace.restart hpc hstep rfl (Or.inr (Nat.lt_of_not_le hleft)) rfl (congrArg (· + 1) hplace.restarts)
          ⟨hplace.pc, rfl, rfl, hplace.recvs, hplace.frames⟩
    · cases h
  · cases h

lemma cntError_move (hpc : st.pc = .run) (hstep : st.step = .error) (h : st.cntError p e = some st') :
    Move p st st' := by
  unfold Cnt.cntError at h
  dsimp only at h
  split at h
  · cases h
    exact SamePlace.down .done hpc hstep rfl (by decide) ⟨rfl, rfl, rfl, rfl, rfl⟩
  · obtain ⟨a, ha, hplace⟩ : ∃ a, a = (if st.clearFlags.obj.isNone = true then
        Cnt.stvNewObject { st.clearFlags with nbusyobj := true } else st.clearFlags) ∧ SamePlace st a := by
      refine ⟨_, rfl, ?_⟩
      split
      · have hnew := stvNewObject_place { st.clearFlags with nbusyobj := true }
        exact ⟨hnew.pc, hnew.step, hnew.restarts, hnew.recvs, hnew.frames⟩
      · exact ⟨rfl, rfl, rfl, rfl, rfl⟩
    rw [← ha] at h
    split at h
    · rename_i hres
      obtain ⟨mid, hmid, rfl⟩ := Option.map_eq_some_iff.mp h
      have hd := hshDrop_place hmid
      exact SamePlace.restart hpc hstep rfl (Or.inr (by rw [← hplace.restarts]; exact hres.2)) rfl
        (congrArg (· + 1) (hd.restarts.trans hplace.restarts))
        ⟨hd.pc.trans hplace.pc, rfl, rfl, hd.recvs.trans hplace.recvs, hd.frames.trans hplace.frames⟩
    · cases h
      exact SamePlace.down .prepresp hpc hstep rfl (by decide)
        ⟨hplace.pc, rfl, hplace.restarts, hplace.recvs, hplace.frames⟩

lemma cntDone_move (hpc : st.pc = .run) (hstep : st.step = .done) (h : st.cntDone e = some st') : Move p st st' := by
  unfold Cnt.cntDone at h
  split at h
  · dsimp only at h
    split at h
    · rename_i f fs hfs
      cases h
      exact .pop f hpc hstep hfs rfl rfl rfl
    · rename_i hfs
      split at h
      · split at h
        · cases h
          exact .again hpc hpc hstep (Or.inl rfl) rfl rfl rfl hfs
        · split at h
          · cases h
            exact .again hpc hpc hstep (Or.inr rfl) rfl rfl rfl hfs
          · cases leave_pc_eq h
            exact .leave hpc (Or.inl rfl) (Or.inr hstep) (Or.inr rfl) rfl rfl
      · cases leave_pc_eq h
        exact .leave hpc (Or.inr rfl) (Or.inr hstep) (Or.inr rfl) rfl rfl
  · cases h

lemma dispatch_move (hpc : st.pc = .run) (h : st.dispatch p e = some st') : Move p st st' := by
  unfold Cnt.dispatch at h
  split at h
  next hs => exact cntWait_move hpc hs h
  next hs => exact cntFirst_move hpc hs h
  next hs => exact cntRecv_move hpc hs h
  next hs => exact cntStart_move hpc hs h
  next hs => exact cntPipe_move hpc hs h
  next hs => exact cntPass_move hpc hs h
  next hs => exact cntLookup_move hpc hs h
  next hs => exact cntMiss_move hpc hs h
  next hs => exact cntHit_move hpc hs h
  next hs => exact cntFetch_move hpc hs h
  next hs => exact cntFetchbody_move hpc hs h
  next hs => exact cntStreambody_move hpc hs h
  next hs => exact cntPrepresp_move hpc hs h
  next hs =>
    unfold Cnt.cntDeliver at h
    split at h
    · cases h
      exact .deliver e.includes hpc rfl hs rfl rfl rfl
    · cases h
  next hs => exact cntError_move hpc hs h
  next hs => exact cntDone_move hpc hs h

lemma enter_eq (h : st.enter = some st') : st' = { st with pc := .run } := by
  unfold Cnt.enter at h
  split at h
  · cases h
    rfl
  · cases h

/-- A worker that takes a session up leaves it where it was, or gives it up. -/
lemma wrkSession_place (h : st.wrkSession e = some st') :
    st'.pc = .run ∧ (st'.step = st.step ∨ (st.step = .first ∨ st.step = .start) ∧ st'.step = .done) ∧
      st'.restarts = st.restarts ∧ st'.recvs = st.recvs ∧ st'.frames = st.frames := by
  unfold Cnt.wrkSession at h
  obtain ⟨mid, hmid, rfl⟩ := Option.map_eq_some_iff.mp h
  cases enter_eq hmid
  split
  next hs => exact ⟨rfl, Or.inr ⟨hs.1, rfl⟩, rfl, rfl, rfl⟩
  next => exact ⟨rfl, Or.inl rfl, rfl, rfl, rfl⟩

/-- Every step of a session is one of the moves. -/
theorem next_move (h : st.next p e = some st') : Move p st st' := by
  unfold Cnt.next at h
  split at h
  next hpc => exact dispatch_move hpc h
  next hpc =>
    unfold Cnt.cntDeliverEnd at h
    obtain ⟨mid, hmid, rfl⟩ := Option.map_eq_some_iff.mp h
    have hd := hshDeref_place hmid
    exact .written hpc rfl rfl hd.recvs hd.frames
  next left hpc =>
    cases h
    unfold Cnt.vedInclude
    split
    next => exact .skip left hpc rfl rfl rfl rfl
    next hdeep => exact .push left _ hpc rfl rfl rfl rfl (Nat.lt_of_not_le hdeep) rfl rfl rfl rfl
  next hpc =>
    split at h
    · obtain ⟨hpc', hstep, hrestarts, hrecvs, hframes⟩ := wrkSession_place h
      refine .resume hpc hpc' (hstep.imp_right And.right) ?_ hrestarts hrecvs hframes
      intro hlookup
      rcases hstep with hs | ⟨hs, -⟩
      · exact hs.trans hlookup
      · rw [hlookup] at hs
        rcases hs with hs | hs <;> cases hs
    · cases enter_eq h
      exact .resume hpc rfl (Or.inl rfl) id rfl rfl rfl
  next hpc =>
    obtain ⟨hpc', hstep, hrestarts, hrecvs, hframes⟩ := wrkSession_place h
    refine .take (Or.inl hpc) hpc' ?_ hrestarts hrecvs hframes
    rcases hstep with hs | ⟨-, hs⟩
    · exact Or.inr (Or.inl ⟨hpc, hs⟩)
    · exact Or.inr (Or.inr hs)
  next hpc =>
    obtain ⟨hpc', hstep, hrestarts, hrecvs, hframes⟩ := wrkSession_place h
    refine .take (Or.inr hpc) hpc' ?_ hrestarts hrecvs hframes
    rcases hstep with hs | ⟨-, hs⟩
    · exact Or.inl ⟨hpc, hs⟩
    · exact Or.inr (Or.inr hs)
  next hpc =>
    cases h
    exact .gone hpc rfl

/-! ## The restart budget -/

/-- How many restarts and calls of `cnt_recv` a request can have behind it. -/
structure StepBudget (p : CntParams) (st : Cnt) : Prop where
  recv : st.step = .recv → st.recvs ≤ st.restarts ∧ st.restarts ≤ p.maxRestarts
  passed : gated st.step = true → st.recvs ≤ st.restarts + 1 ∧ st.restarts < p.maxRestarts
  answer : answering st.step = true → st.recvs ≤ st.restarts + 1 ∧ st.restarts ≤ p.maxRestarts
  le : st.recvs ≤ p.maxRestarts + 1

structure Budget (p : CntParams) (st : Cnt) : Prop where
  frames : ∀ f ∈ st.frames, f.recvs ≤ p.maxRestarts + 1
  run : st.pc = .run → StepBudget p st
  write : ∀ n, st.pc = .write n → st.restarts = 0
  parked : st.pc = .parked → st.step = .lookup ∧ st.restarts < p.maxRestarts ∧ st.recvs ≤ st.restarts + 1
  queued : st.pc = .queued → st.step = .first
  recvs : st.recvs ≤ p.maxRestarts + 1

lemma StepBudget.restarter (h : StepBudget p st) (hres : restarter st.step = true) : st.recvs ≤ st.restarts + 1 := by
  have hor : ∀ s, Proofs.restarter s = true → gated s = true ∨ answering s = true := by
    intro s
    cases s <;> decide
  rcases hor _ hres with hgate | hans
  · exact (h.passed hgate).1
  · exact (h.answer hans).1

/-- A step before a request, or after it. -/
lemma StepBudget.outside (hstep : beforeRequest st.step = true ∨ st.step = .done) (h : st.recvs ≤ p.maxRestarts + 1) :
    StepBudget p st := by
  have hnot : ∀ s, beforeRequest s = true ∨ s = .done → s ≠ .recv ∧ gated s ≠ true ∧ answering s ≠ true := by
    intro s
    cases s <;> decide
  obtain ⟨hrecv, hgate, hans⟩ := hnot _ hstep
  exact ⟨fun hs => absurd hs hrecv, fun hs => absurd hs hgate, fun hs => absurd hs hans, h⟩

/-- A position in the loop of `CNT_Session`. -/
lemma Budget.of_run (hframes : ∀ f ∈ st.frames, f.recvs ≤ p.maxRestarts + 1) (hpc : st.pc = .run)
    (h : StepBudget p st) : Budget p st := by
  refine ⟨hframes, fun _ => h, ?_, ?_, ?_, h.le⟩
  · intro n hn
    rw [hpc] at hn
    cases hn
  · intro hn
    rw [hpc] at hn
    cases hn
  · intro hn
    rw [hpc] at hn
    cases hn

/-- A position outside of it. -/
lemma Budget.of_out (hframes : ∀ f ∈ st.frames, f.recvs ≤ p.maxRestarts + 1) (hpc : st.pc = .waiter ∨ st.pc = .gone)
    (h : st.recvs ≤ p.maxRestarts + 1) : Budget p st := by
  refine ⟨hframes, ?_, ?_, ?_, ?_, h⟩
  · intro hn
    rw [hn] at hpc
    rcases hpc with hpc | hpc <;> cases hpc
  · intro n hn
    rw [hn] at hpc
    rcases hpc with hpc | hpc <;> cases hpc
  · intro hn
    rw [hn] at hpc
    rcases hpc with hpc | hpc <;> cases hpc
  · intro hn
    rw [hn] at hpc
    rcases hpc with hpc | hpc <;> cases hpc

lemma Budget.of_write {n : Nat} (hframes : ∀ f ∈ st.frames, f.recvs ≤ p.maxRestarts + 1) (hpc : st.pc = .write n)
    (hzero : st.restarts = 0) (h : st.recvs ≤ p.maxRestarts + 1) : Budget p st := by
  refine ⟨hframes, ?_, fun _ _ => hzero, ?_, ?_, h⟩
  · intro hn
    rw [hpc] at hn
    cases hn
  · intro hn
    rw [hpc] at hn
    cases hn
  · intro hn
    rw [hpc] at hn
    cases hn

lemma Later.answering {s s' : Stp} (h : Later s s') :
    s' ≠ .recv ∧ (answering s' = true → gated s = true ∨ answering s = true) := by
  revert h
  cases s <;> cases s' <;> decide

/-- Further down, the budget is kept: the steps past `cnt_recv` are open only where restarts are left. -/
lemma StepBudget.down (h : StepBudget p st) (hlater : Later st.step st'.step)
    (hrestarts : st'.restarts = st.restarts ∨ st'.step = .done) (hrecvs : st'.recvs = st.recvs) : StepBudget p st' := by
  have hle : st'.recvs ≤ p.maxRestarts + 1 := hrecvs.le.trans h.le
  by_cases hdone : st'.step = .done
  · exact .outside (Or.inr hdone) hle
  · have hsame := hrestarts.resolve_right hdone
    obtain ⟨hrecv, hans⟩ := hlater.answering
    refine ⟨fun hs => absurd hs hrecv, ?_, ?_, hle⟩
    · intro hgate
      rw [hrecvs, hsame]
      exact h.passed (hlater.2.1 hgate)
    · intro ha
      rw [hrecvs, hsame]
      rcases hans ha with hgate | ha'
      · exact (h.passed hgate).imp_right Nat.le_of_lt
      · exact h.answer ha'

lemma Budget.move (h : Budget p st) (hmove : Move p st st') : Budget p st' := by
  have hrecvs_le : st'.recvs = st.recvs → st'.recvs ≤ p.maxRestarts + 1 := fun hs => hs.le.trans h.recvs
  cases hmove with
  | down pc pc' later restarts recvs frames =>
    exact .of_run (by rw [frames]; exact h.frames) pc' ((h.run pc).down later restarts recvs)
  | restart pc pc' step step' left restarts recvs frames =>
    have hle := (h.run pc).restarter step
    have hlt : st.restarts < p.maxRestarts := by
      rcases left with hgate | hlt
      · exact ((h.run pc).passed hgate).2
      · exact hlt
    refine .of_run (by rw [frames]; exact h.frames) pc' ⟨?_, ?_, ?_, hrecvs_le recvs⟩
    · intro _
      rw [recvs, restarts]
      exact ⟨hle, hlt⟩
    · rw [step']
      intro hs
      cases hs
    · rw [step']
      intro hs
      cases hs
  | recv pc pc' step low left step' restarts recvs frames =>
    obtain ⟨hle, hmax⟩ := (h.run pc).recv step
    refine .of_run (by rw [frames]; exact h.frames) pc' ⟨?_, ?_, ?_, ?_⟩
    · intro hs
      rw [hs] at low
      exact absurd low (lt_irrefl _)
    · intro hgate
      rw [recvs, restarts]
      refine ⟨Nat.succ_le_succ hle, left.resolve_left ?_⟩
      intro hs
      rw [hs] at hgate
      cases hgate
    · intro _
      rw [recvs, restarts]
      exact ⟨Nat.succ_le_succ hle, hmax⟩
    · rw [recvs]
      exact Nat.succ_le_succ (hle.trans hmax)
  | start pc pc' step step' restarts recvs frames =>
    refine .of_run (by rw [frames]; exact h.frames) pc' ⟨?_, ?_, ?_, ?_⟩
    · intro _
      rw [recvs, restarts.2]
      exact ⟨le_rfl, Nat.zero_le _⟩
    · intro hgate
      rcases step' with hs | hs | hs <;> rw [hs] at hgate <;> cases hgate
    · intro _
      rw [recvs, restarts.2]
      exact ⟨Nat.zero_le _, Nat.zero_le _⟩
    · rw [recvs]
      exact Nat.zero_le _
  | deliver n pc pc' step restarts recvs frames =>
    refine .of_write (by rw [frames]; exact h.frames) pc' restarts ?_
    rw [recvs]
    exact h.recvs
  | skip n pc pc' restarts recvs frames =>
    refine .of_write (by rw [frames]; exact h.frames) pc' (restarts.trans (h.write _ pc)) ?_
    rw [recvs]
    exact h.recvs
  | push n f pc pc' step' restarts recvs deep frames left kept obj =>
    refine .of_run ?_ pc' ?_
    · intro g hg
      rw [frames] at hg
      rcases List.mem_cons.mp hg with rfl | hg
      · rw [kept]
        exact h.recvs
      · exact h.frames g hg
    · refine ⟨?_, ?_, ?_, by rw [recvs]; exact Nat.zero_le _⟩
      · intro _
        rw [recvs, restarts, h.write _ pc]
        exact ⟨le_rfl, Nat.zero_le _⟩
      · rw [step']
        intro hs
        cases hs
      · rw [step']
        intro hs
        cases hs
  | written pc pc' step' recvs frames =>
    exact .of_run (by rw [frames]; exact h.frames) pc' (.outside (Or.inr step') (hrecvs_le recvs))
  | pop f pc step frames pc' restarts recvs =>
    refine .of_write ?_ pc' restarts ?_
    · intro g hg
      refine h.frames g ?_
      rw [frames]
      exact List.mem_cons_of_mem _ hg
    · rw [recvs]
      refine h.frames f ?_
      rw [frames]
      exact List.mem_cons_self
  | again pc pc' step step' restarts recvs frames top =>
    refine .of_run (by rw [frames]; exact h.frames) pc' (.outside (Or.inl ?_) (hrecvs_le recvs))
    rcases step' with hs | hs <;> rw [hs] <;> rfl
  | park pc pc' step step' restarts recvs frames =>
    have hgate := (h.run pc).passed (by rw [step]; rfl)
    refine ⟨by rw [frames]; exact h.frames, ?_, ?_, ?_, ?_, by rw [recvs]; exact h.recvs⟩
    · intro hn
      rw [pc'] at hn
      cases hn
    · intro n hn
      rw [pc'] at hn
      cases hn
    · intro _
      rw [restarts, recvs]
      exact ⟨step', hgate.2, hgate.1⟩
    · intro hn
      rw [pc'] at hn
      cases hn
  | leave pc pc' step restarts recvs frames =>
    exact .of_out (by rw [frames]; exact h.frames) pc' (by rw [recvs]; exact h.recvs)
  | resume pc pc' step lookup restarts recvs frames =>
    obtain ⟨hs, hlt, hle⟩ := h.parked pc
    have hs' := lookup hs
    refine .of_run (by rw [frames]; exact h.frames) pc' ⟨?_, ?_, ?_, hrecvs_le recvs⟩
    · rw [hs']
      intro hne
      cases hne
    · intro _
      rw [recvs, restarts]
      exact ⟨hle, hlt⟩
    · rw [hs']
      intro hne
      cases hne
  | take pc pc' step restarts recvs frames =>
    refine .of_run (by rw [frames]; exact h.frames) pc' (.outside ?_ (hrecvs_le recvs))
    rcases step with ⟨-, hs⟩ | ⟨hq, hs⟩ | hs
    · rw [hs]
      exact Or.inl rfl
    · rw [hs, h.queued hq]
      exact Or.inl rfl
    · exact Or.inr hs
  | gone pc eq =>
    rw [eq]
    exact h

lemma budget_accepted (p : CntParams) : Budget p Cnt.accepted :=
  ⟨by simp [Cnt.accepted], by simp [Cnt.accepted], by simp [Cnt.accepted], by simp [Cnt.accepted],
    by simp [Cnt.accepted], by simp [Cnt.accepted]⟩

/-- What holds of a session at first and is kept by every step holds in every state that it comes to. -/
lemma runs_induct {P : Cnt → Prop} {env : Nat → CntEnv} (h0 : P st)
    (hnext : ∀ n a b, st.runs p env n = some a → P a → a.next p (env n) = some b → P b) (n : Nat) :
    ∀ st', st.runs p env n = some st' → P st' := by
  induction n with
  | zero =>
    intro st' h
    cases h
    exact h0
  | succ n ih =>
    intro st' h
    obtain ⟨mid, hmid, hlast⟩ := Option.bind_eq_some_iff.mp h
    exact hnext n mid st' hmid (ih mid hmid) hlast

lemma runs_budget {env : Nat → CntEnv} {n : Nat} (h : Cnt.accepted.runs p env n = some st) : Budget p st :=
  runs_induct (budget_accepted p) (fun _ _ _ _ hb hnext => hb.move (next_move hnext)) n st h

end VarnishCache.Proofs
