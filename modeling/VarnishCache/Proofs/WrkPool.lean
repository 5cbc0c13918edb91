import Mathlib.Algebra.BigOperators.Group.Finset.Basic
import VarnishCache.Lib.RefCount
import VarnishCache.WrkPool

/-!
# The hand-off of sessions to workers

A worker on the idle list waits with no session, and so does one that was taken off it until it is told. As long as no
wait returns in these times, every session that was accepted is in one place: in the queue, with a call of `WRK_Queue`,
with a worker that will run it, or it was run. Each step of the threads leaves less to do, and where none is left to take
all sessions were run for which there is a worker.
-/

namespace VarnishCache.Proofs
open RefCount

variable {queueMax n : Nat} {s s' : WrkPool} {w : Nat} {v : PoolWrk}

/-- What holds of a worker, by whether it is on one of the lists and whether a call is to signal it. -/
structure WrkOk (v : PoolWrk) (onList toSignal : Prop) : Prop where
  listed : onList → ∃ b, v = ⟨.wait b, none⟩
  waits : v = ⟨.wait false, none⟩ → onList
  ready : v.pc = .ready → v.sp ≠ none
  signalled : v.pc = .wait false → v.sp ≠ none → toSignal
  lasting : toSignal → v.pc ≠ .left ∧ v.pc ≠ .out

structure PoolInv (s : WrkPool) : Prop where
  lqueue : s.lqueue = s.queue.length
  nodup : s.listed.Nodup
  each : ∀ w, WrkOk (s.wrk w) (w ∈ s.listed) (w ∈ s.signalling)
  counted : ∀ sp, refs s.given sp + s.places sp = s.acceptance sp
  empty : s.queue ≠ [] → s.idle = []
  sound : s.failed = false
  fresh : ∃ n, ∀ w, n ≤ w → (s.wrk w).pc = .out

/-! ## Counting -/

lemma given_update (h : s'.wrk = Function.update s.wrk w v) : s'.given = Function.update s.given w v.given := by
  funext a
  by_cases ha : a = w
  · subst ha
    simp [WrkPool.given, h]
  · simp [WrkPool.given, h, ha]

/-- One worker changes, and the session it gets or runs changes its place. -/
lemma PoolInv.count (h : PoolInv s) (w : Nat) (v : PoolWrk) (hwrk : s'.wrk = Function.update s.wrk w v)
    (hacc : s'.accepted = s.accepted)
    (hplaces : ∀ a, s'.places a + ref v.given a = s.places a + ref (s.given w) a) :
    ∀ sp, refs s'.given sp + s'.places sp = s'.acceptance sp := by
  intro sp
  have hsame : s'.acceptance sp = s.acceptance sp := by rw [WrkPool.acceptance, hacc, WrkPool.acceptance]
  rw [given_update hwrk, hsame]
  refine balance (h.counted sp) (refs_update s.given w v.given sp) ?_
  rw [hplaces sp]

/-- One worker changes, with what the lists say of it. -/
lemma PoolInv.turn (h : PoolInv s) (hwrk : s'.wrk = Function.update s.wrk w v)
    (hother : ∀ a, a ≠ w → (a ∈ s'.listed ↔ a ∈ s.listed) ∧ (a ∈ s'.signalling ↔ a ∈ s.signalling))
    (hv : WrkOk v (w ∈ s'.listed) (w ∈ s'.signalling)) (hnodup : s'.listed.Nodup) (hlq : s'.lqueue = s'.queue.length)
    (hempty : s'.queue ≠ [] → s'.idle = []) (hsound : s'.failed = false)
    (hcount : ∀ sp, refs s'.given sp + s'.places sp = s'.acceptance sp) : PoolInv s' := by
  refine ⟨hlq, hnodup, fun a => ?_, hcount, hempty, hsound, ?_⟩
  · by_cases ha : a = w
    · subst ha
      rw [hwrk, Function.update_self]
      exact hv
    · obtain ⟨hlisted, hsignalling⟩ := hother a ha
      rw [hwrk, Function.update_of_ne ha, hlisted, hsignalling]
      exact h.each a
  · obtain ⟨n, hn⟩ := h.fresh
    refine ⟨max n (w + 1), fun a ha => ?_⟩
    rw [hwrk, Function.update_of_ne (by omega)]
    exact hn a (by omega)

/-- A worker that is on none of the lists. -/
lemma PoolInv.not_listed (h : PoolInv s) (hw : ∀ b, s.wrk w ≠ ⟨.wait b, none⟩) : w ∉ s.listed := by
  intro hmem
  obtain ⟨b, hb⟩ := (h.each w).listed hmem
  exact hw b hb

lemma not_wait {pc : WrkPc} (hw : (s.wrk w).pc = pc) (hpc : ∀ b, pc ≠ .wait b) : ∀ b, s.wrk w ≠ ⟨.wait b, none⟩ := by
  intro b hb
  rw [hb] at hw
  exact hpc b hw.symm

/-- A worker that does not wait. -/
lemma wrkOk_running {onList toSignal : Prop} (hnot : ¬ onList) (hpc : ∀ b, v.pc ≠ .wait b)
    (hready : v.pc = .ready → v.sp ≠ none) (hlast : toSignal → v.pc ≠ .left ∧ v.pc ≠ .out) : WrkOk v onList toSignal :=
  ⟨fun hl => absurd hl hnot, fun hl => absurd (congrArg PoolWrk.pc hl) (hpc false), hready,
    fun hl => absurd hl (hpc false), hlast⟩

lemma PoolInv.not_left (h : PoolInv s) (hw : w ∈ s.listed) : s.hasLeft w = false := by
  obtain ⟨b, hb⟩ := (h.each w).listed hw
  rw [WrkPool.hasLeft, hb]
  rfl

/-! ## Workers -/

lemma PoolInv.create (h : PoolInv s) (hw : (s.wrk w).pc = .out) : PoolInv (s.setWrk w { pc := .top, sp := none }) := by
  have hnot := h.not_listed (not_wait hw (fun b hb => by cases hb))
  refine h.turn rfl (fun a _ => ⟨Iff.rfl, Iff.rfl⟩) ?_ h.nodup h.lqueue h.empty h.sound (h.count w _ rfl rfl fun a => ?_)
  · exact wrkOk_running hnot (fun b hb => by cases hb) (fun hr => by cases hr)
      (fun _ => ⟨fun hl => (by cases hl), fun hl => by cases hl⟩)
  · have hg : s.given w = none := by simp [WrkPool.given, PoolWrk.given, hw]
    rw [hg]
    rfl

lemma PoolInv.lookQueue (h : PoolInv s) {sp : Nat} {queue : List Nat} (hw : (s.wrk w).pc = .top)
    (hq : s.queue = sp :: queue) :
    PoolInv { s.setWrk w { pc := .ready, sp := some sp } with queue := queue, lqueue := s.lqueue - 1 } := by
  have hnot := h.not_listed (not_wait hw (fun b hb => by cases hb))
  refine h.turn rfl (fun a _ => ⟨Iff.rfl, Iff.rfl⟩) ?_ h.nodup ?_ (fun _ => h.empty (by simp [hq])) h.sound
    (h.count w _ rfl rfl fun a => ?_)
  · exact wrkOk_running hnot (fun b hb => by cases hb) (fun _ => Option.some_ne_none sp)
      (fun _ => ⟨fun hl => (by cases hl), fun hl => by cases hl⟩)
  · have hl := h.lqueue
    rw [hq] at hl
    simp only [hl, List.length_cons, Nat.add_sub_cancel]
  · have hg : s.given w = none := by simp [WrkPool.given, PoolWrk.given, hw]
    have hcount : s.queue.count a = queue.count a + ref (some sp) a := by
      rw [hq, List.count_cons]
      simp [ref]
    rw [hg, ref_none]
    simp only [WrkPool.places, WrkPool.setWrk, hcount, PoolWrk.given]
    omega

lemma PoolInv.lookIdle (h : PoolInv s) (hw : (s.wrk w).pc = .top) (hq : s.queue = []) :
    PoolInv { s.setWrk w { pc := .wait false, sp := none } with idle := w :: s.idle } := by
  have hnot := h.not_listed (not_wait hw (fun b hb => by cases hb))
  refine h.turn rfl (fun a ha => ⟨?_, Iff.rfl⟩) ?_ (List.nodup_cons.mpr ⟨hnot, h.nodup⟩) h.lqueue
    (fun hne => absurd hq hne) h.sound (h.count w _ rfl rfl fun a => ?_)
  · change a ∈ w :: s.listed ↔ a ∈ s.listed
    rw [List.mem_cons, or_iff_right ha]
  · exact ⟨fun _ => ⟨false, rfl⟩, fun _ => List.mem_cons_self, fun hr => (by cases hr), fun _ hne => absurd rfl hne,
      fun _ => ⟨fun hl => (by cases hl), fun hl => by cases hl⟩⟩
  · have hg : s.given w = none := by simp [WrkPool.given, PoolWrk.given, hw]
    rw [hg]
    rfl

lemma PoolInv.wake (h : PoolInv s) {b : Bool} (hw : (s.wrk w).pc = .wait b) (hok : s.WakeOk (.wake w)) :
    PoolInv (s.setWrk w { s.wrk w with pc := if (s.wrk w).sp = none then .left else .ready }) := by
  obtain ⟨hnot, hsig⟩ := hok
  refine h.turn rfl (fun a _ => ⟨Iff.rfl, Iff.rfl⟩) ?_ h.nodup h.lqueue h.empty h.sound (h.count w _ rfl rfl fun a => ?_)
  · by_cases hnone : (s.wrk w).sp = none
    · rw [if_pos hnone]
      exact wrkOk_running hnot (fun b hb => by cases hb) (fun hr => by cases hr) (fun hl => absurd hl (hsig hnone))
    · rw [if_neg hnone]
      exact wrkOk_running hnot (fun b hb => by cases hb) (fun _ => hnone)
        (fun _ => ⟨fun hl => (by cases hl), fun hl => by cases hl⟩)
  · have hg : (⟨if (s.wrk w).sp = none then .left else .ready, (s.wrk w).sp⟩ : PoolWrk).given = s.given w := by
      simp only [WrkPool.given, PoolWrk.given, hw]
      by_cases hnone : (s.wrk w).sp = none
      · simp [hnone]
      · simp [hnone]
    rw [hg]
    rfl

lemma PoolInv.session (h : PoolInv s) {sp : Nat} (hw : s.wrk w = ⟨.ready, some sp⟩) :
    PoolInv { s.setWrk w { pc := .session, sp := some sp } with ran := s.ran ++ [(sp, w)] } := by
  have hnot := h.not_listed (not_wait (congrArg PoolWrk.pc hw) (fun b hb => by cases hb))
  refine h.turn rfl (fun a _ => ⟨Iff.rfl, Iff.rfl⟩) ?_ h.nodup h.lqueue h.empty h.sound (h.count w _ rfl rfl fun a => ?_)
  · exact wrkOk_running hnot (fun b hb => by cases hb) (fun hr => by cases hr)
      (fun _ => ⟨fun hl => (by cases hl), fun hl => by cases hl⟩)
  · have hg : s.given w = some sp := by simp [WrkPool.given, PoolWrk.given, hw]
    have hcount : ((s.ran ++ [(sp, w)]).map (·.1)).count a = (s.ran.map (·.1)).count a + ref (some sp) a := by
      rw [List.map_append, List.count_append, List.map_cons, List.map_nil, List.count_singleton]
      simp [ref]
    rw [hg]
    simp only [WrkPool.places, WrkPool.setWrk, hcount, PoolWrk.given, ref_none]
    omega

lemma PoolInv.finish (h : PoolInv s) (hw : (s.wrk w).pc = .session) :
    PoolInv (s.setWrk w { pc := .top, sp := none }) := by
  have hnot := h.not_listed (not_wait hw (fun b hb => by cases hb))
  refine h.turn rfl (fun a _ => ⟨Iff.rfl, Iff.rfl⟩) ?_ h.nodup h.lqueue h.empty h.sound (h.count w _ rfl rfl fun a => ?_)
  · exact wrkOk_running hnot (fun b hb => by cases hb) (fun hr => by cases hr)
      (fun _ => ⟨fun hl => (by cases hl), fun hl => by cases hl⟩)
  · have hg : s.given w = none := by simp [WrkPool.given, PoolWrk.given, hw]
    rw [hg]
    rfl

/-! ## Calls -/

/-- A session that was not accepted is nowhere. -/
lemma PoolInv.places_eq_zero (h : PoolInv s) {sp : Nat} (hsp : sp ∉ s.accepted) :
    refs s.given sp = 0 ∧ s.places sp = 0 := by
  have hcount := h.counted sp
  rw [WrkPool.acceptance, if_neg hsp] at hcount
  exact none_left hcount (Nat.zero_le _)

/-- A new session is accepted and has its place. -/
lemma PoolInv.accept (h : PoolInv s) {sp : Nat} (hsp : sp ∉ s.accepted) (hwrk : s'.wrk = s.wrk)
    (hacc : s'.accepted = s.accepted ++ [sp]) (hplaces : ∀ a, s'.places a = s.places a + ref (some sp) a) :
    ∀ a, refs s'.given a + s'.places a = s'.acceptance a := by
  intro a
  have hgiven : s'.given = s.given := by
    funext w
    rw [WrkPool.given, hwrk, WrkPool.given]
  rw [hgiven, hplaces]
  by_cases ha : a = sp
  · subst ha
    obtain ⟨hrefs, h0⟩ := h.places_eq_zero hsp
    rw [hrefs, h0, ref_self, WrkPool.acceptance, if_pos (by simp [hacc])]
    rfl
  · have hsame : s'.acceptance a = s.acceptance a := by
      simp [WrkPool.acceptance, hacc, ha]
    rw [ref_of_ne (by simpa using fun h => ha h.symm), Nat.add_zero, hsame]
    exact h.counted a

/-- A worker goes from one list to another. -/
lemma PoolInv.relist (h : PoolInv s) (hperm : s'.listed.Perm s.listed) (hwrk : s'.wrk = s.wrk)
    (hsig : s'.signalling = s.signalling) (hlq : s'.lqueue = s'.queue.length) (hempty : s'.queue ≠ [] → s'.idle = [])
    (hsound : s'.failed = s.failed) (hcount : ∀ sp, refs s'.given sp + s'.places sp = s'.acceptance sp) : PoolInv s' := by
  refine ⟨hlq, hperm.nodup_iff.mpr h.nodup, fun a => ?_, hcount, hempty, hsound.trans h.sound, ?_⟩
  · rw [hwrk, hsig, hperm.mem_iff]
    exact h.each a
  · rw [hwrk]
    exact h.fresh

lemma PoolInv.queueIdle (h : PoolInv s) {sp : Nat} {idle : List Nat} (hsp : sp ∉ s.accepted)
    (hidle : s.idle = w :: idle) :
    PoolInv { s with idle := idle, handing := s.handing ++ [(sp, w)], accepted := s.accepted ++ [sp] } := by
  refine h.relist ?_ rfl rfl h.lqueue ?_ rfl (h.accept hsp rfl rfl fun a => ?_)
  · unfold WrkPool.listed
    simp only [hidle, List.map_append, List.map_cons, List.map_nil, List.append_assoc, List.cons_append]
    rw [← List.append_assoc, ← List.append_assoc]
    exact List.perm_middle
  · intro hne
    have hnil := h.empty hne
    rw [hidle] at hnil
    cases hnil
  · have hcount : ((s.handing ++ [(sp, w)]).map (·.1)).count a = (s.handing.map (·.1)).count a + ref (some sp) a := by
      rw [List.map_append, List.count_append, List.map_cons, List.map_nil, List.count_singleton]
      simp [ref]
    simp only [WrkPool.places, hcount]
    omega

lemma PoolInv.queueTail (h : PoolInv s) {sp : Nat} (hsp : sp ∉ s.accepted) (hidle : s.idle = []) :
    PoolInv { s with queue := s.queue ++ [sp], lqueue := s.lqueue + 1, accepted := s.accepted ++ [sp] } := by
  refine h.relist (List.Perm.refl _) rfl rfl ?_ (fun _ => hidle) rfl (h.accept hsp rfl rfl fun a => ?_)
  · simp [h.lqueue]
  · have hcount : (s.queue ++ [sp]).count a = s.queue.count a + ref (some sp) a := by
      rw [List.count_append, List.count_singleton]
      simp [ref]
    simp only [WrkPool.places, hcount]
    omega

lemma PoolInv.decimate (h : PoolInv s) (hw : s.idle.getLast? = some w) :
    PoolInv { s with idle := s.idle.dropLast, retiring := s.retiring ++ [w] } := by
  obtain ⟨idle, hidle⟩ := List.getLast?_eq_some_iff.mp hw
  refine h.relist ?_ rfl rfl h.lqueue ?_ rfl h.counted
  · unfold WrkPool.listed
    simp only [hidle, List.dropLast_concat, List.append_assoc, List.singleton_append]
    rw [← List.append_assoc (s.handing.map (·.2))]
    exact (List.perm_append_singleton w _).append_left idle
  · intro hne
    rw [h.empty hne] at hidle
    simp at hidle

/-- The worker at the head of a permutation of the lists is taken off. -/
lemma PoolInv.head (h : PoolInv s) {listed : List Nat} (hperm : (w :: listed).Perm s.listed) :
    listed.Nodup ∧ w ∉ listed ∧ w ∈ s.listed ∧ ∀ a, a ≠ w → (a ∈ listed ↔ a ∈ s.listed) := by
  have hnodup := hperm.nodup_iff.mpr h.nodup
  rw [List.nodup_cons] at hnodup
  refine ⟨hnodup.2, hnodup.1, hperm.subset List.mem_cons_self, fun a ha => ?_⟩
  rw [← hperm.mem_iff, List.mem_cons, or_iff_right ha]

lemma PoolInv.hand (h : PoolInv s) {i sp : Nat} (hi : s.handing[i]? = some (sp, w)) :
    PoolInv { s.setWrk w { s.wrk w with sp := some sp } with
      handing := s.handing.eraseIdx i, signalling := s.signalling ++ [w], failed := s.failed || s.hasLeft w } := by
  obtain ⟨hlt, hget⟩ := List.getElem?_eq_some_iff.mp hi
  have hperm : List.Perm ((sp, w) :: s.handing.eraseIdx i) s.handing := by
    rw [← hget]
    exact List.getElem_cons_eraseIdx_perm hlt
  have hlists : (w :: (s.idle ++ ((s.handing.eraseIdx i).map (·.2) ++ s.retiring))).Perm s.listed :=
    List.perm_middle.symm.trans (((hperm.map Prod.snd).append_right s.retiring).append_left s.idle)
  obtain ⟨hnodup, hnot, hmem, hother⟩ := h.head hlists
  obtain ⟨b, hw⟩ := (h.each w).listed hmem
  refine h.turn rfl (fun a ha => ⟨hother a ha, ?_⟩) ?_ hnodup h.lqueue h.empty ?_ (h.count w _ rfl rfl fun a => ?_)
  · simp [ha]
  · rw [hw]
    exact ⟨fun hl => absurd hl hnot, fun hl => (by cases hl), fun hl => (by cases hl), fun _ _ => by simp,
      fun _ => ⟨fun hl => (by cases hl), fun hl => by cases hl⟩⟩
  · simp [h.sound, h.not_left hmem]
  · have hg : s.given w = none := by simp [WrkPool.given, PoolWrk.given, hw]
    have hcount := (hperm.map (·.1)).count_eq a
    rw [List.map_cons, List.count_cons] at hcount
    simp only at hcount
    have href : ref (some sp) a = if sp == a then 1 else 0 := by simp [ref]
    rw [hg, ref_none]
    simp only [WrkPool.places, WrkPool.setWrk, PoolWrk.given, hw, href]
    omega

@[simp] lemma signalled_sp : v.signalled.sp = v.sp := by
  unfold PoolWrk.signalled
  split <;> rfl

@[simp] lemma signalled_given : v.signalled.given = v.given := by
  obtain ⟨pc, sp⟩ := v
  cases pc <;> rfl

lemma signalled_pc {pc : WrkPc} (hpc : ∀ b, pc ≠ .wait b) : v.signalled.pc = pc ↔ v.pc = pc := by
  obtain ⟨vpc, sp⟩ := v
  cases vpc with
  | wait b => exact ⟨fun h => absurd h.symm (hpc true), fun h => absurd h.symm (hpc b)⟩
  | out => exact Iff.rfl
  | top => exact Iff.rfl
  | ready => exact Iff.rfl
  | session => exact Iff.rfl
  | left => exact Iff.rfl

lemma signalled_ne_wait : v.signalled.pc ≠ .wait false := by
  obtain ⟨pc, sp⟩ := v
  cases pc <;> exact fun h => by cases h

/-- A worker that has been signalled does not need another call to do it. -/
lemma WrkOk.signal {onList toSignal onList' toSignal' : Prop} (h : WrkOk v onList toSignal) (hlist : onList' → onList)
    (hsig : toSignal' → toSignal) : WrkOk v.signalled onList' toSignal' := by
  refine ⟨fun hl => ?_, fun hw => absurd (congrArg PoolWrk.pc hw) signalled_ne_wait, fun hr => ?_,
    fun hw => absurd hw signalled_ne_wait, fun hl => ?_⟩
  · obtain ⟨b, rfl⟩ := h.listed (hlist hl)
    exact ⟨true, rfl⟩
  · rw [signalled_sp]
    exact h.ready ((signalled_pc (fun b hb => by cases hb)).mp hr)
  · obtain ⟨hleft, hout⟩ := h.lasting (hsig hl)
    exact ⟨fun he => hleft ((signalled_pc (fun b hb => by cases hb)).mp he),
      fun he => hout ((signalled_pc (fun b hb => by cases hb)).mp he)⟩

lemma PoolInv.signal (h : PoolInv s) {i : Nat} (hi : s.signalling[i]? = some w) :
    PoolInv { s.setWrk w (s.wrk w).signalled with
      signalling := s.signalling.eraseIdx i, failed := s.failed || s.hasLeft w } := by
  obtain ⟨hlt, hget⟩ := List.getElem?_eq_some_iff.mp hi
  have hperm : List.Perm (w :: s.signalling.eraseIdx i) s.signalling := by
    rw [← hget]
    exact List.getElem_cons_eraseIdx_perm hlt
  have hlasting : s.hasLeft w = false := decide_eq_false ((h.each w).lasting (List.mem_of_getElem? hi)).1
  refine h.turn rfl (fun a ha => ⟨Iff.rfl, ?_⟩) ((h.each w).signal id fun hl => hperm.subset (List.mem_cons_of_mem w hl))
    h.nodup h.lqueue h.empty ?_ (h.count w _ rfl rfl fun a => ?_)
  · rw [← hperm.mem_iff, List.mem_cons, or_iff_right ha]
  · simp [h.sound, hlasting]
  · rw [signalled_given]
    rfl

lemma PoolInv.kiss (h : PoolInv s) {i : Nat} (hi : s.retiring[i]? = some w) :
    PoolInv { s.setWrk w (s.wrk w).signalled with
      retiring := s.retiring.eraseIdx i, failed := s.failed || s.hasLeft w || (s.wrk w).sp.isSome } := by
  obtain ⟨hlt, hget⟩ := List.getElem?_eq_some_iff.mp hi
  have hperm : List.Perm (w :: s.retiring.eraseIdx i) s.retiring := by
    rw [← hget]
    exact List.getElem_cons_eraseIdx_perm hlt
  have hlists : (w :: (s.idle ++ (s.handing.map (·.2) ++ s.retiring.eraseIdx i))).Perm s.listed :=
    List.perm_middle.symm.trans ((List.perm_middle.symm.trans (hperm.append_left _)).append_left s.idle)
  obtain ⟨hnodup, hnot, hmem, hother⟩ := h.head hlists
  obtain ⟨b, hw⟩ := (h.each w).listed hmem
  refine h.turn rfl (fun a ha => ⟨hother a ha, Iff.rfl⟩) ((h.each w).signal (fun hl => absurd hl hnot) id) hnodup
    h.lqueue h.empty ?_ (h.count w _ rfl rfl fun a => ?_)
  · simp [h.sound, h.not_left hmem, hw]
  · rw [signalled_given]
    rfl

/-! ## Runs -/

lemma PoolInv.step (h : PoolInv s) {c : PoolStep} (hok : s.WakeOk c) (hstep : s.step queueMax c = some s') :
    PoolInv s' := by
  cases c with
  | create w =>
    simp only [WrkPool.step] at hstep
    split at hstep
    next hw =>
      cases hstep
      exact h.create hw
    next => cases hstep
  | look w =>
    simp only [WrkPool.step] at hstep
    split at hstep
    next hw =>
      split at hstep
      next sp queue hq =>
        cases hstep
        exact h.lookQueue hw hq
      next hq =>
        cases hstep
        exact h.lookIdle hw hq
    next => cases hstep
  | wake w =>
    simp only [WrkPool.step] at hstep
    split at hstep
    next b hw =>
      cases hstep
      exact h.wake hw hok
    next => cases hstep
  | session w =>
    simp only [WrkPool.step] at hstep
    split at hstep
    next sp hw =>
      cases hstep
      exact h.session hw
    next => cases hstep
  | finish w =>
    simp only [WrkPool.step] at hstep
    split at hstep
    next hw =>
      cases hstep
      exact h.finish hw
    next => cases hstep
  | queue sp =>
    simp only [WrkPool.step] at hstep
    split at hstep
    next => cases hstep
    next hsp =>
      split at hstep
      next w idle hidle =>
        cases hstep
        exact h.queueIdle hsp hidle
      next hidle =>
        split at hstep
        next =>
          cases hstep
          exact h
        next =>
          cases hstep
          exact h.queueTail hsp hidle
  | hand i =>
    simp only [WrkPool.step] at hstep
    split at hstep
    next sp w hi =>
      cases hstep
      exact h.hand hi
    next => cases hstep
  | signal i =>
    simp only [WrkPool.step] at hstep
    split at hstep
    next w hi =>
      cases hstep
      exact h.signal hi
    next => cases hstep
  | decimate =>
    simp only [WrkPool.step] at hstep
    split at hstep
    next w hw =>
      cases hstep
      exact h.decimate hw
    next => cases hstep
  | kiss i =>
    simp only [WrkPool.step] at hstep
    split at hstep
    next w hi =>
      cases hstep
      exact h.kiss hi
    next => cases hstep

lemma poolInv_init : PoolInv WrkPool.init := by
  refine ⟨rfl, List.nodup_nil, fun w => ?_, fun sp => ?_, fun hne => absurd rfl hne, rfl, ⟨0, fun _ _ => rfl⟩⟩
  · exact ⟨fun hl => absurd hl List.not_mem_nil, fun hl => (by cases hl), fun hl => (by cases hl),
      fun hl => (by cases hl), fun hl => absurd hl List.not_mem_nil⟩
  · have hrefs : refs WrkPool.init.given sp = 0 := refs_eq_zero.mpr (fun i hi => by cases hi)
    rw [hrefs]
    rfl

lemma PoolInv.run (h : PoolInv s) {cs : List PoolStep} (hok : WrkPool.WakesOk queueMax s cs)
    (hrun : s.run queueMax cs = some s') : PoolInv s' := by
  induction cs generalizing s with
  | nil =>
    cases hrun
    exact h
  | cons c cs ih =>
    obtain ⟨s1, hstep, hrest⟩ := Option.bind_eq_some_iff.mp hrun
    exact ih (h.step hok.1 hstep) (hok.2 s1 hstep) hrest

/-! ## The threads come to rest -/

/-- How many steps a worker can still take by itself, at most. -/
def workLeft (v : PoolWrk) : Nat :=
  match v.pc, v.sp with
  | .out, _ => 0
  | .top, _ => 1
  | .wait b, none => b.toNat
  | .wait _, some _ => 4
  | .ready, _ => 3
  | .session, _ => 2
  | .left, _ => 0

/-- How many steps the threads can take by themselves, at most. -/
def poolWork (n : Nat) (s : WrkPool) : Nat :=
  (∑ a ∈ Finset.range n, workLeft (s.wrk a)) + 3 * s.queue.length + 7 * s.handing.length + 2 * s.signalling.length +
    2 * s.retiring.length

/-- Workers from this number on have not been made. -/
def FreshFrom (n : Nat) (s : WrkPool) : Prop := ∀ w, n ≤ w → (s.wrk w).pc = .out

lemma sum_workLeft (hwrk : s'.wrk = Function.update s.wrk w v) (hw : w < n) :
    ∑ a ∈ Finset.range n, workLeft (s'.wrk a) + workLeft (s.wrk w) =
      ∑ a ∈ Finset.range n, workLeft (s.wrk a) + workLeft v := by
  have hmem := Finset.mem_range.mpr hw
  rw [← Finset.sum_erase_add _ _ hmem, ← Finset.sum_erase_add (Finset.range n) (fun a => workLeft (s.wrk a)) hmem]
  have hrest : ∑ a ∈ (Finset.range n).erase w, workLeft (s'.wrk a) =
      ∑ a ∈ (Finset.range n).erase w, workLeft (s.wrk a) := by
    refine Finset.sum_congr rfl fun a ha => ?_
    rw [hwrk, Function.update_of_ne (Finset.ne_of_mem_erase ha)]
  rw [hrest, hwrk, Function.update_self]
  omega

lemma FreshFrom.lt (h : FreshFrom n s) (hw : (s.wrk w).pc ≠ .out) : w < n := by
  by_contra hge
  exact hw (h w (by omega))

lemma FreshFrom.update (h : FreshFrom n s) (hwrk : s'.wrk = Function.update s.wrk w v) (hw : w < n) :
    FreshFrom n s' := by
  intro a ha
  rw [hwrk, Function.update_of_ne (by omega)]
  exact h a ha

lemma workLeft_signalled : workLeft v.signalled ≤ workLeft v + 1 := by
  obtain ⟨pc, sp⟩ := v
  cases pc with
  | wait b =>
    cases sp with
    | none => exact Nat.le_add_left _ _
    | some sp => exact Nat.le_succ _
  | out => exact Nat.le_succ _
  | top => exact Nat.le_succ _
  | ready => exact Nat.le_succ _
  | session => exact Nat.le_succ _
  | left => exact Nat.le_succ _

/-- One worker changes, and less is left to do. -/
lemma poolWork_turn (hfresh : FreshFrom n s) (hwrk : s'.wrk = Function.update s.wrk w v) (hw : (s.wrk w).pc ≠ .out)
    (hless : workLeft v + 3 * s'.queue.length + 7 * s'.handing.length + 2 * s'.signalling.length + 2 * s'.retiring.length <
      workLeft (s.wrk w) + 3 * s.queue.length + 7 * s.handing.length + 2 * s.signalling.length + 2 * s.retiring.length) :
    FreshFrom n s' ∧ poolWork n s' < poolWork n s := by
  have hlt := hfresh.lt hw
  refine ⟨hfresh.update hwrk hlt, ?_⟩
  have hsum := sum_workLeft hwrk hlt
  unfold poolWork
  omega

lemma length_eraseIdx_lt {α : Type} {l : List α} {i : Nat} {a : α} (h : l[i]? = some a) :
    (l.eraseIdx i).length + 1 = l.length := by
  obtain ⟨hlt, -⟩ := List.getElem?_eq_some_iff.mp h
  rw [List.length_eraseIdx_of_lt hlt]
  omega

/-- What the threads do by themselves leaves less to do. -/
lemma PoolInv.internal (h : PoolInv s) {c : PoolStep} (hfresh : FreshFrom n s) (hc : s.Internal c)
    (hstep : s.step queueMax c = some s') : FreshFrom n s' ∧ poolWork n s' < poolWork n s := by
  cases c with
  | create w => exact hc.elim
  | queue sp => exact hc.elim
  | decimate => exact hc.elim
  | look w =>
    simp only [WrkPool.step] at hstep
    split at hstep
    next hw =>
      have hne : (s.wrk w).pc ≠ .out := by simp [hw]
      split at hstep
      next sp queue hq =>
        cases hstep
        refine poolWork_turn hfresh rfl hne ?_
        simp only [workLeft, hw, hq, List.length_cons, WrkPool.setWrk]
        omega
      next hq =>
        cases hstep
        refine poolWork_turn hfresh rfl hne ?_
        simp [workLeft, hw, WrkPool.setWrk]
    next => cases hstep
  | wake w =>
    obtain ⟨hw, -⟩ := hc
    simp only [WrkPool.step, hw, Option.some.injEq] at hstep
    subst hstep
    refine poolWork_turn hfresh rfl (by simp [hw]) ?_
    cases hsp : (s.wrk w).sp with
    | none => simp [workLeft, hw, hsp, WrkPool.setWrk]
    | some sp => simp [workLeft, hw, hsp, WrkPool.setWrk]
  | session w =>
    simp only [WrkPool.step] at hstep
    split at hstep
    next sp hw =>
      cases hstep
      refine poolWork_turn hfresh rfl (by simp [hw]) ?_
      simp [workLeft, hw, WrkPool.setWrk]
    next => cases hstep
  | finish w =>
    simp only [WrkPool.step] at hstep
    split at hstep
    next hw =>
      cases hstep
      refine poolWork_turn hfresh rfl (by simp [hw]) ?_
      simp [workLeft, hw, WrkPool.setWrk]
    next => cases hstep
  | hand i =>
    simp only [WrkPool.step] at hstep
    split at hstep
    next sp w hi =>
      cases hstep
      have hmem : w ∈ s.listed :=
        List.mem_append_right _ (List.mem_append_left _ (List.mem_map.mpr ⟨(sp, w), List.mem_of_getElem? hi, rfl⟩))
      obtain ⟨b, hw⟩ := (h.each w).listed hmem
      refine poolWork_turn hfresh rfl (by simp [hw]) ?_
      have hlen := length_eraseIdx_lt hi
      simp only [workLeft, hw, WrkPool.setWrk, List.length_append, List.length_singleton]
      omega
    next => cases hstep
  | signal i =>
    simp only [WrkPool.step] at hstep
    split at hstep
    next w hi =>
      cases hstep
      have hlen := length_eraseIdx_lt hi
      have hmore := workLeft_signalled (v := s.wrk w)
      refine poolWork_turn hfresh rfl ((h.each w).lasting (List.mem_of_getElem? hi)).2 ?_
      simp only [WrkPool.setWrk]
      omega
    next => cases hstep
  | kiss i =>
    simp only [WrkPool.step] at hstep
    split at hstep
    next w hi =>
      cases hstep
      have hmem : w ∈ s.listed := List.mem_append_right _ (List.mem_append_right _ (List.mem_of_getElem? hi))
      obtain ⟨b, hw⟩ := (h.each w).listed hmem
      refine poolWork_turn hfresh rfl (by simp [hw]) ?_
      have hlen := length_eraseIdx_lt hi
      have hmore := workLeft_signalled (v := s.wrk w)
      simp only [WrkPool.setWrk]
      omega
    next => cases hstep

lemma internal_wakeOk {c : PoolStep} (hc : s.Internal c) : s.WakeOk c := by
  cases c with
  | wake w => exact hc.2
  | create w => exact trivial
  | look w => exact trivial
  | session w => exact trivial
  | finish w => exact trivial
  | queue sp => exact trivial
  | hand i => exact trivial
  | signal i => exact trivial
  | decimate => exact trivial
  | kiss i => exact trivial

lemma PoolInv.internals (h : PoolInv s) {cs : List PoolStep} (hfresh : FreshFrom n s)
    (hcs : s.Along queueMax WrkPool.Internal cs) (hrun : s.run queueMax cs = some s') :
    PoolInv s' ∧ cs.length + poolWork n s' ≤ poolWork n s := by
  induction cs generalizing s with
  | nil =>
    cases hrun
    exact ⟨h, by simp⟩
  | cons c cs ih =>
    obtain ⟨s1, hstep, hrest⟩ := Option.bind_eq_some_iff.mp hrun
    obtain ⟨hfresh1, hless⟩ := h.internal hfresh hcs.1 hstep
    obtain ⟨hinv, hle⟩ := ih (h.step (internal_wakeOk hcs.1) hstep) hfresh1 (hcs.2 s1 hstep) hrest
    refine ⟨hinv, ?_⟩
    rw [List.length_cons]
    omega

/-- Where no thread can go on by itself, every worker that was made and has not left is on the idle list. -/
lemma PoolInv.at_rest (h : PoolInv s) (hrest : ∀ c, s.Internal c → s.step queueMax c = none) :
    s.handing = [] ∧ ∀ w, (s.wrk w).pc = .out ∨ (s.wrk w).pc = .left ∨ w ∈ s.idle := by
  have hhand : s.handing = [] := by
    by_contra hne
    have hstep := hrest (.hand 0) trivial
    simp [WrkPool.step, List.getElem?_eq_getElem (List.length_pos_iff.mpr hne)] at hstep
  have hsig : s.signalling = [] := by
    by_contra hne
    have hstep := hrest (.signal 0) trivial
    simp [WrkPool.step, List.getElem?_eq_getElem (List.length_pos_iff.mpr hne)] at hstep
  have hret : s.retiring = [] := by
    by_contra hne
    have hstep := hrest (.kiss 0) trivial
    simp [WrkPool.step, List.getElem?_eq_getElem (List.length_pos_iff.mpr hne)] at hstep
  have hlisted : s.listed = s.idle := by simp [WrkPool.listed, hhand, hret]
  refine ⟨hhand, fun w => ?_⟩
  have hw := h.each w
  rw [hlisted, hsig] at hw
  cases hpc : (s.wrk w).pc with
  | out => exact .inl rfl
  | left => exact .inr (.inl rfl)
  | top =>
    have hstep := hrest (.look w) trivial
    simp only [WrkPool.step, hpc, if_true] at hstep
    split at hstep <;> cases hstep
  | ready =>
    have hstep := hrest (.session w) trivial
    obtain ⟨sp, hsp⟩ := Option.ne_none_iff_exists'.mp (hw.ready hpc)
    have hval : s.wrk w = ⟨.ready, some sp⟩ := by rw [← hpc, ← hsp]
    simp [WrkPool.step, hval] at hstep
  | session =>
    have hstep := hrest (.finish w) trivial
    simp [WrkPool.step, hpc] at hstep
  | wait b =>
    refine .inr (.inr ?_)
    by_contra hnot
    cases b with
    | true =>
      have hstep := hrest (.wake w) ⟨hpc, by rwa [hlisted], fun _ => by simp [hsig]⟩
      simp [WrkPool.step, hpc] at hstep
    | false =>
      by_cases hsp : (s.wrk w).sp = none
      · exact hnot (hw.waits (by rw [← hpc, ← hsp]))
      · exact absurd (hw.signalled hpc hsp) List.not_mem_nil

/-- A session that was accepted and is with no call and no worker was run, or is in the queue. -/
lemma PoolInv.served (h : PoolInv s) (hrest : ∀ c, s.Internal c → s.step queueMax c = none) {sp : Nat}
    (hsp : sp ∈ s.accepted) :
    (s.ran.map (·.1)).count sp = 1 ∨ sp ∈ s.queue ∧ ∀ w, (s.wrk w).pc = .out ∨ (s.wrk w).pc = .left := by
  obtain ⟨hhand, hidle⟩ := h.at_rest hrest
  have hgiven : refs s.given sp = 0 := by
    refine refs_eq_zero.mpr fun w hw => ?_
    rcases hidle w with hpc | hpc | hmem
    · simp [WrkPool.given, PoolWrk.given, hpc] at hw
    · simp [WrkPool.given, PoolWrk.given, hpc] at hw
    · obtain ⟨b, hb⟩ := (h.each w).listed (List.mem_append_left _ hmem)
      simp [WrkPool.given, PoolWrk.given, hb] at hw
  have hcount := h.counted sp
  rw [hgiven, WrkPool.acceptance, if_pos hsp, zero_add, WrkPool.places, hhand] at hcount
  have hone : s.queue.count sp + (s.ran.map (·.1)).count sp = 1 := by
    have hnat : s.queue.count sp + 0 + (s.ran.map (·.1)).count sp = 1 := by exact_mod_cast hcount
    simpa using hnat
  by_cases hqueue : sp ∈ s.queue
  · refine .inr ⟨hqueue, fun w => ?_⟩
    have hnil := h.empty (List.ne_nil_of_mem hqueue)
    rcases hidle w with hpc | hpc | hmem
    · exact .inl hpc
    · exact .inr hpc
    · rw [hnil] at hmem
      cases hmem
  · rw [List.count_eq_zero_of_not_mem hqueue] at hone
    exact .inl (by omega)

lemma PoolInv.settles (h : PoolInv s) : s.Settles queueMax := by
  obtain ⟨n, hn⟩ := h.fresh
  refine ⟨⟨poolWork n s, fun cs s' hrun hcs => ?_⟩, fun cs s' hrun hcs hrest sp hsp => ?_⟩
  · obtain ⟨-, hle⟩ := h.internals hn hcs hrun
    omega
  · obtain ⟨hinv, -⟩ := h.internals hn hcs hrun
    exact hinv.served hrest hsp

/-- In every run whose returns from the wait meet the condition, every accepted session is in one place: queued,
with a call of `WRK_Queue`, with a worker that has not run it, or run; no worker that has left its loop is on the
idle list; the queue has the length that is kept; no worker that has left its loop is used; and the threads come to
rest by themselves, with all accepted sessions run once for which the pool has a worker. -/
theorem pool_hand_off {cs : List PoolStep} (hok : WrkPool.WakesOk queueMax .init cs)
    (hrun : WrkPool.init.run queueMax cs = some s) :
    (∀ sp, refs s.given sp + s.places sp = s.acceptance sp) ∧ (∀ w ∈ s.idle, (s.wrk w).pc ≠ .left) ∧
      s.lqueue = s.queue.length ∧ s.failed = false ∧ s.Settles queueMax := by
  have h := poolInv_init.run hok hrun
  refine ⟨h.counted, ?_, h.lqueue, h.sound, h.settles⟩
  intro w hw hleft
  obtain ⟨b, hb⟩ := (h.each w).listed (List.mem_append_left _ hw)
  rw [hb] at hleft
  cases hleft

/-- A session is handed to an idle worker; while it runs, a second worker goes idle and retires; the next session
waits in the queue for the first worker. -/
def flockRun : List PoolStep :=
  [.create 0, .look 0, .queue 5, .hand 0, .signal 0, .wake 0, .session 0, .create 1, .look 1, .decimate, .kiss 0, .wake 1,
    .queue 6, .finish 0, .look 0, .session 0, .finish 0, .look 0]

theorem pool_hand_off_flock : ∃ s, WrkPool.init.run 100 flockRun = some s ∧ s.ran = [(5, 0), (6, 0)] ∧ s.idle = [0] ∧
    (s.wrk 1).pc = .left ∧ s.failed = false ∧ s.Settles 100 := by
  have hrun : WrkPool.init.run 100 flockRun = some _ := rfl
  obtain ⟨-, -, -, hsound, hsettles⟩ := pool_hand_off (by decide) hrun
  exact ⟨_, hrun, by decide, by decide, by decide, hsound, hsettles⟩

/-- A spurious wake-up of an idle worker: it leaves and stays on the idle list, and the session that it is handed then
is lost. -/
theorem pool_spurious_wake :
    (WrkPool.init.run 100 [.create 0, .look 0, .wake 0]).any (fun s => (s.wrk 0).pc = .left && s.idle.contains 0) = true ∧
      (WrkPool.init.run 100 [.create 0, .look 0, .wake 0, .queue 5, .hand 0, .signal 0]).any (fun s =>
        s.accepted = [5] && s.places 5 = 0 && (s.wrk 0).pc = .left && s.idle = []) = true := by
  decide

end VarnishCache.Proofs
