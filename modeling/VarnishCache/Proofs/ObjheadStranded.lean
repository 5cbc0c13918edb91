import VarnishCache.Proofs.ObjheadWaiters

/-!
# When waiting sessions are stranded

`WaitersCovered` is kept by every step but one: `HSH_Deref` takes the last objcore off an objhead, the first waiting
session cannot be queued, and `hsh_rush` leaves the others on the list with nobody to wake them.
-/

namespace VarnishCache.Proofs

open VarnishCache HshState RefCount

variable {D : Type} {st st' : HshState D} {leak : Nat → Nat} {oh s x : Nat} {h : Objhead D} {o : Objcore}
  {rush : Rush} {a : HshAct D}

lemma rushLoop_one {q : Nat → Bool} {n : Nat} (hn : 0 < n) (s : Nat) : (rushLoop q n [s]).1 = [] := by
  obtain ⟨n, rfl⟩ : ∃ m, n = m + 1 := ⟨n - 1, by omega⟩
  by_cases hq : q s = true
  · cases n <;> simp [rushLoop, hq]
  · simp [rushLoop, hq]

/-- The first session of the list is woken if it can be queued. -/
lemma rushLoop_first {q : Nat → Bool} {n s : Nat} {wl : List Nat} (hn : 0 < n) (hq : q s = true)
    (hnd : (s :: wl).Nodup) : s ∉ (rushLoop q n (s :: wl)).1 ∧ (rushLoop q n (s :: wl)).2 ≠ some s := by
  obtain ⟨n, rfl⟩ : ∃ m, n = m + 1 := ⟨n - 1, by omega⟩
  have hnot := (List.nodup_cons.mp hnd).1
  have hloop : rushLoop q (n + 1) (s :: wl) = rushLoop q n wl := by simp [rushLoop, hq]
  rw [hloop]
  refine ⟨?_, ?_⟩
  · intro hmem
    exact hnot ((rushLoop_suffix q n wl).mem hmem)
  · intro hd
    exact hnot ((rushLoop_dropped hd).mem List.mem_cons_self)

/-- The last objcore goes and no session but parked ones has a reference. -/
lemma covered_last (wf : HshWf st leak 0) (hs : st.sess s = .has x) (hh : st.heads oh = some h)
    (hkeep : ∀ s1 s2 wl, waiters h = s1 :: s2 :: wl → rush.queued s1 = true)
    (hst : st'.heads oh = some (rushHead { h with objcs := h.objcs.erase x } rush))
    (hsess : ∀ s', s' ≠ s → (rushLoop rush.queued rush.exponent (waiters h)).2 ≠ some s' → st'.sess s' = st.sess s')
    (hne : (rushLoop rush.queued rush.exponent (waiters h)).1 ≠ []) : ∃ r, Outstanding st' oh r := by
  have hpos : 0 < rush.exponent := by
    have := rush.two_le
    omega
  have hnd := wf.parked oh h hh
  cases hw : waiters h with
  | nil =>
    rw [hw] at hne
    exact absurd (List.suffix_nil.mp (rushLoop_suffix _ _ _)) hne
  | cons s1 wl =>
    cases wl with
    | nil =>
      rw [hw] at hne
      exact absurd (rushLoop_one hpos s1) hne
    | cons s2 wl =>
      have hq := hkeep s1 s2 wl hw
      rw [hw] at hnd hsess
      obtain ⟨hoff, hdrop⟩ := rushLoop_first hpos hq hnd
      have hs1 : st.sess s1 = .waiting oh := wf.waiting oh h s1 hh (by simp [hw])
      have hss : s1 ≠ s := by
        rintro rfl
        rw [hs] at hs1
        cases hs1
      refine ⟨.sess s1, Or.inr ⟨(hsess s1 hss hdrop).trans hs1, ?_⟩⟩
      intro h' hh'
      rw [hst] at hh'
      have hold : waiters { h with objcs := h.objcs.erase x } = s1 :: s2 :: wl := hw
      rw [← Option.some.inj hh', waiters_rushHead, hold]
      exact hoff

lemma covered_step [DecidableEq D] (wf : HshWf st leak 0) (hcov : WaitersCovered st) (hkeep : KeepsWaking st a)
    (hstep : st.step a = some st') : WaitersCovered st' := by
  intro oh h' hh' hne
  obtain ⟨s', hs'⟩ := List.exists_mem_of_ne_nil _ hne
  rcases (headStep_step hstep oh).waiting h' s' hh' hs' with ⟨h, hh, hmem⟩ | ⟨-, x, o, hx, -⟩
  · obtain ⟨r, hr⟩ := hcov oh h hh (List.ne_nil_of_mem hmem)
    rcases outstanding_step wf hr hstep with hout | hover | ⟨x, rfl, s, rush, o, h1, rfl, hs, ho, hone, rfl, hh1⟩
    · exact ⟨r, hout⟩
    · exact hover.outstanding
    · rw [hh] at hh1
      obtain rfl := Option.some.inj hh1
      by_cases hmore : ∃ y ∈ h.objcs, y ≠ x
      · obtain ⟨y, hy, hyx⟩ := hmore
        rcases (headStep_step hstep o.objhead).objcs y ⟨h, hh, hy⟩ with hout | ⟨s2, _, _, _, heq, hs2, -⟩
        · exact ⟨.objcore y, hout⟩
        · obtain ⟨rfl, -⟩ := HshAct.deref.inj heq
          rw [hs] at hs2
          exact absurd (HshSess.has.inj hs2).symm hyx
      by_cases hsess : ∃ s2, Outstanding st o.objhead (.sess s2)
      · obtain ⟨s2, hs2⟩ := hsess
        rcases outstanding_step wf hs2 hstep with hout | hover | ⟨_, hc, -⟩
        · exact ⟨.sess s2, hout⟩
        · exact hover.outstanding
        · cases hc
      push Not at hmore hsess
      have hx : x ∈ h.objcs := (wf.objcs _ h x hh).mpr ⟨o, ho, rfl, by omega⟩
      have honly : h.objcs = [x] := by
        have hnd := wf.nodup _ h hh
        cases hl : h.objcs with
        | nil => simp [hl] at hx
        | cons y l =>
          rw [hl] at hnd hmore
          obtain rfl := hmore y List.mem_cons_self
          cases l with
          | nil => rfl
          | cons z l =>
            obtain rfl := hmore z (by simp)
            simp at hnd
      obtain ⟨x', o', h2, hs2, ho2, hh2, hcase⟩ := hshDeref_cases hstep
      rw [hs] at hs2
      obtain rfl := HshSess.has.inj hs2
      rw [ho] at ho2
      obtain rfl := Option.some.inj ho2
      rw [hh] at hh2
      obtain rfl := Option.some.inj hh2
      rcases hcase with ⟨-, rfl⟩ | ⟨hmore2, -⟩
      · have hst : (((st.setCore x (some { o with refcnt := 0 })).setSess s (.dropping x)).hshRush o.objhead
            { h with objcs := h.objcs.erase x } rush).heads o.objhead =
            some (rushHead { h with objcs := h.objcs.erase x } rush) := by simp [heads_hshRush]
        refine covered_last wf hs hh ?_ hst ?_ ?_
        · intro s1 s2 wl hw
          exact hkeep x o h s1 s2 wl hs ho hone hh honly hsess hw
        · intro s2 hne2 hdrop
          have hold : waiters { h with objcs := h.objcs.erase x } = waiters h := rfl
          rw [sess_hshRush, hold, if_neg hdrop]
          simp [hne2]
        · rw [hst] at hh'
          rw [← Option.some.inj hh', waiters_rushHead] at hne
          exact hne
      · omega
  · exact ⟨.objcore x, hx⟩

/-- A step that does not keep waking leaves sessions on a list with nobody to wake them. -/
lemma stranded_step [DecidableEq D] (hkeep : ¬ KeepsWaking st a) (hstep : st.step a = some st') :
    ¬ WaitersCovered st' := by
  cases a with
  | deref s rush =>
    simp only [KeepsWaking] at hkeep
    push Not at hkeep
    obtain ⟨x, o, h, s1, s2, wl, hs, ho, hone, hh, honly, hsess, hw, hq⟩ := hkeep
    obtain ⟨x', o', h2, hs2, ho2, hh2, hcase⟩ := hshDeref_cases hstep
    rw [hs] at hs2
    obtain rfl := HshSess.has.inj hs2
    rw [ho] at ho2
    obtain rfl := Option.some.inj ho2
    rw [hh] at hh2
    obtain rfl := Option.some.inj hh2
    rcases hcase with ⟨-, rfl⟩ | ⟨hmore, -⟩
    · have hold : waiters { h with objcs := h.objcs.erase x } = s1 :: s2 :: wl := hw
      have hloop : rushLoop rush.queued rush.exponent (s1 :: s2 :: wl) = (s2 :: wl, some s1) := by
        obtain ⟨n, hn⟩ : ∃ m, rush.exponent = m + 1 := ⟨rush.exponent - 1, by have := rush.two_le; omega⟩
        rw [hn]
        simp [rushLoop, hq]
      have hst : (((st.setCore x (some { o with refcnt := 0 })).setSess s (.dropping x)).hshRush o.objhead
          { h with objcs := h.objcs.erase x } rush).heads o.objhead =
          some (rushHead { h with objcs := h.objcs.erase x } rush) := by simp [heads_hshRush]
      have hleft : waiters (rushHead { h with objcs := h.objcs.erase x } rush) = s2 :: wl := by
        rw [waiters_rushHead, hold, hloop]
      intro hcov
      obtain ⟨r, hr⟩ := hcov o.objhead _ hst (by rw [hleft]; simp)
      cases r with
      | objcore y =>
        obtain ⟨h', hh', hy⟩ := hr
        rw [hst] at hh'
        rw [← Option.some.inj hh'] at hy
        simp [rushHead, honly] at hy
      | sess s' =>
        have hne : s' ≠ s := by
          rintro rfl
          refine not_outstanding ?_ hr
          rw [sess_hshRush]
          split <;> simp [HshSess.objhead]
        have hne1 : s' ≠ s1 := by
          rintro rfl
          refine not_outstanding ?_ hr
          rw [sess_hshRush, hold, hloop, if_pos rfl]
          rfl
        have hsame : (((st.setCore x (some { o with refcnt := 0 })).setSess s (.dropping x)).hshRush o.objhead
            { h with objcs := h.objcs.erase x } rush).sess s' = st.sess s' := by
          rw [sess_hshRush, hold, hloop, if_neg (by simpa using Ne.symm hne1)]
          simp [hne]
        apply hsess s'
        rcases hr with hr | ⟨hr, hnot⟩
        · exact Or.inl (hsame.symm.trans hr)
        · refine Or.inr ⟨hsame.symm.trans hr, ?_⟩
          intro h' hh'
          rw [hh] at hh'
          rw [← Option.some.inj hh', hw]
          have := hnot _ hst
          rw [hleft] at this
          simp only [List.mem_cons, not_or] at this ⊢
          exact ⟨hne1, this⟩
    · omega
  | enter _ _ _ | again _ | scan _ _ _ | leave _ | ref _ _ | unbusy _ _ | free _ => exact absurd trivial hkeep

lemma covered_run [DecidableEq D] {acts pre suf : List (HshAct D)} (hacts : acts = pre ++ suf)
    (hrun : init.run pre = some st) (hkeep : ∀ st a, Takes acts st a → KeepsWaking st a) : WaitersCovered st := by
  induction pre using List.reverseRecOn generalizing suf st with
  | nil =>
    obtain rfl := Option.some.inj hrun
    intro oh h hh
    cases hh
  | append_singleton pre a ih =>
    obtain ⟨st1, hrun1, hstep⟩ := run_snoc.mp hrun
    have hacts1 : acts = pre ++ a :: suf := by simp [hacts]
    obtain ⟨leak, wf⟩ := hshWf_reach hrun1
    exact covered_step wf (ih hacts1 hrun1) (hkeep st1 a ⟨pre, suf, hacts1, hrun1⟩) hstep

/-- In every run, no session is stranded in any state if and only if the first of several waiting sessions can
be queued whenever the last objcore goes with no other session about. -/
theorem hsh_no_stranded_waiter [DecidableEq D] {acts : List (HshAct D)} (hrun : init.run acts = some st) :
    (∀ st', Passes acts st' → NoStranded st') ↔ ∀ st' a, Takes acts st' a → KeepsWaking st' a := by
  constructor
  · rintro hno st1 a ⟨pre, suf, hacts, hrun1⟩
    by_contra hkeep
    rw [hacts, run_append, hrun1, Option.bind_some, run] at hrun
    obtain ⟨st2, hstep, -⟩ := Option.bind_eq_some_iff.mp hrun
    have hrun2 : init.run (pre ++ [a]) = some st2 := run_snoc.mpr ⟨st1, hrun1, hstep⟩
    have hno2 := hno st2 ⟨pre ++ [a], suf, by simp [hacts], hrun2⟩
    exact stranded_step hkeep hstep ((noStranded_iff hrun2).mp hno2)
  · rintro hkeep st1 ⟨pre, suf, hacts, hrun1⟩
    exact (noStranded_iff hrun1).mpr (covered_run hacts hrun1 hkeep)

/-- Sessions 1 to 4 wait for the object that session 0 fetches. Session 0 drops the object: `HSH_Unbusy`
cannot queue session 1, and `HSH_Deref` queues those it can. -/
def waitRun (queued : Nat → Bool) : List (HshAct Unit) :=
  [.enter 0 () 0, .scan 0 missEnv 0, .enter 1 () 1, .scan 1 missEnv 1, .enter 2 () 1, .scan 2 missEnv 1,
    .enter 3 () 1, .scan 3 missEnv 1, .enter 4 () 1, .scan 4 missEnv 1,
    .unbusy 0 { exponent := 2, queued := fun _ => false, two_le := le_rfl },
    .deref 0 { exponent := 2, queued := queued, two_le := le_rfl }, .free 0]

/-- The lists of the objhead and the sessions in the end. -/
def waitEnd (queued : Nat → Bool) : Option (Option (List Nat × List Nat) × List HshSess) :=
  (init.run (waitRun queued)).map (fun st =>
    ((st.heads 0).map (fun h => (h.objcs, waiters h)), [st.sess 0, st.sess 1, st.sess 2, st.sess 3, st.sess 4]))

lemma waitRun_keeps {q : Nat → Bool} (hq : ∀ s, q s = true) {st : HshState Unit} {a : HshAct Unit}
    (ha : a ∈ waitRun q) : KeepsWaking st a := by
  simp only [waitRun, List.mem_cons, List.not_mem_nil, or_false] at ha
  rcases ha with rfl | rfl | rfl | rfl | rfl | rfl | rfl | rfl | rfl | rfl | rfl | rfl | rfl
  case inr.inr.inr.inr.inr.inr.inr.inr.inr.inr.inr.inl =>
    intro x o h s1 s2 wl _ _ _ _ _ _ _
    exact hq s1
  all_goals trivial

/-- Sessions 2 and 3 are queued in time, and session 4 will be woken. -/
theorem hsh_no_stranded_waiter_queued : ∃ st, init.run (waitRun (fun _ => true)) = some st ∧
    (st.heads 0).map (fun h => (h.objcs, waiters h)) = some ([], [4]) ∧ st.sess 2 = .waiting 0 ∧ NoStranded st := by
  obtain ⟨st, hrun⟩ : ∃ st, init.run (waitRun (fun _ => true)) = some st := ⟨_, rfl⟩
  have hend : waitEnd (fun _ => true) =
    some (some ([], [4]), [.idle, .idle, .waiting 0, .waiting 0, .waiting 0]) := by decide
  have hkeep : ∀ st' a, Takes (waitRun (fun _ => true)) st' a → KeepsWaking st' a := by
    rintro st' a ⟨pre, suf, hacts, -⟩
    exact waitRun_keeps (fun _ => rfl) (by simp [hacts])
  have hno := (hsh_no_stranded_waiter hrun).mpr hkeep st ⟨_, [], (List.append_nil _).symm, hrun⟩
  simp only [waitEnd, hrun, Option.map_some, Option.some.injEq, Prod.mk.injEq, List.cons.injEq] at hend
  exact ⟨st, hrun, hend.1, hend.2.2.2.1, hno⟩

/-- When session 2 cannot be queued either, sessions 3 and 4 wait with nobody to wake them. -/
theorem hsh_rush_strands_waiters : ∃ st, init.run (waitRun (fun _ => false)) = some st ∧
    (st.heads 0).map (fun h => (h.objcs, waiters h)) = some ([], [3, 4]) ∧
    (∀ s, st.sess s = .idle ∨ s ∈ [3, 4]) ∧ ¬ NoStranded st := by
  obtain ⟨st, hrun, hsess⟩ : ∃ st, init.run (waitRun (fun _ => false)) = some st ∧
      ∀ s, st.sess s = .idle ∨ s ∈ [3, 4] := by
    refine ⟨_, rfl, ?_⟩
    intro s
    by_cases hs : s ∈ [0, 1, 2, 3, 4]
    · simp only [List.mem_cons, List.not_mem_nil, or_false] at hs
      rcases hs with rfl | rfl | rfl | rfl | rfl
      case inr.inr.inr.inl | inr.inr.inr.inr => exact Or.inr (by simp)
      all_goals exact Or.inl rfl
    · simp only [List.mem_cons, List.not_mem_nil, or_false, not_or] at hs
      exact Or.inl (by simp [hs, init, hshRush, rushLoop])
  have hend : waitEnd (fun _ => false) =
    some (some ([], [3, 4]), [.idle, .idle, .idle, .waiting 0, .waiting 0]) := by decide
  simp only [waitEnd, hrun, Option.map_some, Option.some.injEq, Prod.mk.injEq, List.cons.injEq] at hend
  refine ⟨st, hrun, hend.1, hsess, ?_⟩
  intro hno
  obtain ⟨h, hh, hlists⟩ := Option.map_eq_some_iff.mp hend.1
  obtain ⟨hobjcs, hw⟩ := Prod.mk.inj hlists
  obtain ⟨r, hr⟩ := (noStranded_iff hrun).mp hno 0 h hh (by simp [hw])
  cases r with
  | objcore x =>
    obtain ⟨h', hh', hx⟩ := hr
    rw [hh] at hh'
    rw [← Option.some.inj hh', hobjcs] at hx
    cases hx
  | sess s =>
    rcases hsess s with hidle | hmem
    · exact not_outstanding (by rw [hidle]; rfl) hr
    · have hs : st.sess s = .waiting 0 := by
        simp only [List.mem_cons, List.not_mem_nil, or_false] at hmem
        rcases hmem with rfl | rfl
        · exact hend.2.2.2.2.1
        · exact hend.2.2.2.2.2.1
      rcases hr with hr | ⟨-, hnot⟩
      · rw [hs] at hr
        cases hr
      · exact hnot h hh (by rw [hw]; exact hmem)

end VarnishCache.Proofs
