import VarnishCache.Proofs.ObjheadRefcnt

/-!
# Sessions on waiting lists are woken

A session is parked only behind a busy objcore. Who gives up a reference to an objcore runs `hsh_rush`, and a
session off the list either gets such a reference or waits again behind a busy objcore. The chain breaks only
where the last objcore goes: the rush then made wakes nobody when the first session cannot be queued, and it
leaves the rest of the list alone.
-/

namespace VarnishCache.Proofs

open VarnishCache HshState RefCount

variable {D : Type} {st st' : HshState D} {leak : Nat → Nat} {oh s x : Nat} {h : Objhead D} {o : Objcore}
  {rush : Rush}

/-- A reference to an objhead: the one that an objcore on its list has, or that of a session. -/
inductive HshRef where
  | objcore (x : Nat)
  | sess (s : Nat)

/-- A reference to `oh` that is not that of a parked session. -/
def Outstanding (st : HshState D) (oh : Nat) : HshRef → Prop
  | .objcore x => ∃ h, st.heads oh = some h ∧ x ∈ h.objcs
  | .sess s => st.sess s = .lookup oh ∨ st.sess s = .waiting oh ∧ ∀ h, st.heads oh = some h → s ∉ waiters h

def BusyOn (st : HshState D) (oh : Nat) : Prop :=
  ∃ x o, Outstanding st oh (.objcore x) ∧ st.cores x = some o ∧ o.busy = true

/-- A session that had a reference to `oh` has got one to an objcore of it, or waits behind a busy one. -/
def HandsOver (st : HshState D) (oh : Nat) (r : HshRef) : Prop :=
  ∃ s, r = .sess s ∧
    ((∃ x, ownedBy st s = some x ∧ Outstanding st oh (.objcore x)) ∨ (st.sess s = .waiting oh ∧ BusyOn st oh))

/-- Whenever the reference is given up and sessions are waiting, `hsh_rush` is run on the objhead, unless the
reference is handed over. -/
def BoundToRush [DecidableEq D] (st : HshState D) (oh : Nat) (r : HshRef) : Prop :=
  ∀ acts st1 a st2 h, st.run acts = some st1 → Outstanding st1 oh r → st1.heads oh = some h → waiters h ≠ [] →
    st1.step a = some st2 → ¬ Outstanding st2 oh r →
      (∃ wl rush, st1.rushed a = some (oh, wl, rush)) ∨ HandsOver st2 oh r

/-- An objhead with waiting sessions has a busy objcore, or somebody will run `hsh_rush` on it. -/
def NoStranded [DecidableEq D] (st : HshState D) : Prop :=
  ∀ oh h, st.heads oh = some h → waiters h ≠ [] →
    BusyOn st oh ∨ ∃ r, Outstanding st oh r ∧ BoundToRush st oh r

/-- When `HSH_Deref` takes off the last objcore, no session but parked ones has a reference to the objhead and
more than one is waiting, then the first of these can be queued. -/
def KeepsWaking (st : HshState D) : HshAct D → Prop
  | .deref s rush => ∀ x o h s1 s2 wl, st.sess s = .has x → st.cores x = some o → o.refcnt = 1 →
      st.heads o.objhead = some h → h.objcs = [x] → (∀ s', ¬ Outstanding st o.objhead (.sess s')) →
      waiters h = s1 :: s2 :: wl → rush.queued s1 = true
  | _ => True

def WaitersCovered (st : HshState D) : Prop :=
  ∀ oh h, st.heads oh = some h → waiters h ≠ [] → ∃ r, Outstanding st oh r

lemma heads_hshRush (st : HshState D) (oh : Nat) (h : Objhead D) (rush : Rush) :
    (st.hshRush oh h rush).heads = Function.update st.heads oh (some (rushHead h rush)) := by
  rw [hshRush_eq, rushSess]
  split <;> rfl

lemma sess_hshRush (st : HshState D) (oh : Nat) (h : Objhead D) (rush : Rush) (s : Nat) :
    (st.hshRush oh h rush).sess s =
      if (rushLoop rush.queued rush.exponent (waiters h)).2 = some s then .idle else st.sess s := by
  rw [hshRush_eq, rushSess]
  cases (rushLoop rush.queued rush.exponent (waiters h)).2 with
  | none => simp
  | some sp => simp [Function.update_apply, eq_comm]

/-- The step takes no objcore off `oh` and parks no session on it. -/
def HeadKept (st st' : HshState D) (oh : Nat) : Prop :=
  (∀ h x, st.heads oh = some h → x ∈ h.objcs → ∃ h', st'.heads oh = some h' ∧ x ∈ h'.objcs) ∧
    ∀ h' s, st'.heads oh = some h' → s ∈ waiters h' → ∃ h, st.heads oh = some h ∧ s ∈ waiters h

lemma headKept_of_eq (h : st'.heads oh = st.heads oh) : HeadKept st st' oh := by
  refine ⟨?_, ?_⟩
  · intro h1 x hh hx
    exact ⟨h1, by rw [h, hh], hx⟩
  · intro h1 s hh hs
    exact ⟨h1, by rw [← h, hh], hs⟩

lemma headKept_setHead {h' : Objhead D} {k : Nat} (hh : st.heads k = some h) (hobjcs : ∀ x ∈ h.objcs, x ∈ h'.objcs)
    (hwaiters : ∀ s ∈ waiters h', s ∈ waiters h) (oh : Nat) : HeadKept st (st.setHead k (some h')) oh := by
  by_cases ho : oh = k
  · subst ho
    refine ⟨?_, ?_⟩
    · intro h1 x hh1 hx
      rw [hh] at hh1
      obtain rfl := Option.some.inj hh1
      exact ⟨h', by simp, hobjcs x hx⟩
    · intro h1 s hh1 hs
      obtain rfl : h' = h1 := by simpa using hh1
      exact ⟨h, hh, hwaiters s hs⟩
  · exact headKept_of_eq (by simp [ho])

lemma not_outstanding (hs : (st.sess s).objhead = none) : ¬ Outstanding st oh (.sess s) := by
  rintro (h | ⟨h, -⟩)
  · simp [h, HshSess.objhead] at hs
  · simp [h, HshSess.objhead] at hs

section Hash

variable [DecidableEq D]

lemma headKept_hashLookup {digest : D} {noh k : Nat} (hstep : st.hashLookup digest noh = some (st', k)) (oh : Nat) :
    HeadKept st st' oh := by
  unfold hashLookup at hstep
  split at hstep
  · rename_i k1 hi
    obtain ⟨h, hh, hstep⟩ := Option.bind_eq_some_iff.mp hstep
    simp only [Option.some.injEq, Prod.mk.injEq] at hstep
    obtain ⟨rfl, rfl⟩ := hstep
    apply headKept_setHead hh
    · exact fun x hx => hx
    · exact fun s hs => hs
  · split at hstep
    · cases hstep
    rename_i hnoh
    simp only [Option.some.injEq, Prod.mk.injEq] at hstep
    obtain ⟨rfl, rfl⟩ := hstep
    by_cases ho : oh = noh
    · subst ho
      refine ⟨?_, ?_⟩
      · intro h x hh
        simp [hh] at hnoh
      · intro h s hh hs
        obtain rfl : _ = h := Option.some.inj (by simpa using hh)
        simp [waiters] at hs
    · exact headKept_of_eq (by simp [ho])

lemma headKept_hashDeref {k : Nat} (hstep : st.hashDeref k = some st') (oh : Nat) : HeadKept st st' oh := by
  unfold hashDeref at hstep
  obtain ⟨h, hh, hstep⟩ := Option.bind_eq_some_iff.mp hstep
  split at hstep
  · cases hstep
  split at hstep
  · split at hstep
    · cases hstep
    rename_i hnil
    push Not at hnil
    obtain rfl := Option.some.inj hstep
    by_cases ho : oh = k
    · subst ho
      refine ⟨?_, by simp⟩
      intro h1 x hh1 hx
      rw [hh] at hh1
      rw [← Option.some.inj hh1, hnil] at hx
      simp at hx
    · exact headKept_of_eq (by simp [ho])
  · obtain rfl := Option.some.inj hstep
    apply headKept_setHead hh
    · exact fun x hx => hx
    · exact fun s hs => hs

lemma sess_hashDeref {k : Nat} (hstep : st.hashDeref k = some st') : st'.sess = st.sess := by
  unfold hashDeref at hstep
  obtain ⟨h, hh, hstep⟩ := Option.bind_eq_some_iff.mp hstep
  split_ifs at hstep <;> simp_all [← Option.some.inj hstep]

end Hash

/-- A rush on objhead `k` whose objcores are those of `h` now. -/
lemma headKept_hshRush {k : Nat} (st' : HshState D) (rush : Rush) (hk : HeadKept st (st'.setHead k (some h)) oh) :
    HeadKept st (st'.hshRush k h rush) oh := by
  by_cases ho : oh = k
  · subst ho
    have hhead : (st'.hshRush oh h rush).heads oh = some (rushHead h rush) := by simp [heads_hshRush]
    refine ⟨?_, ?_⟩
    · intro h1 x hh1 hx
      obtain ⟨h2, hh2, hx2⟩ := hk.1 h1 x hh1 hx
      obtain rfl : h = h2 := by simpa using hh2
      exact ⟨rushHead h rush, hhead, hx2⟩
    · intro h1 s hh1 hs
      rw [hhead] at hh1
      rw [← Option.some.inj hh1, waiters_rushHead] at hs
      exact hk.2 h s (by simp) ((rushLoop_suffix _ _ _).mem hs)
  · have heq : (st'.hshRush k h rush).heads oh = (st'.setHead k (some h)).heads oh := by
      simp [heads_hshRush, ho]
    refine ⟨?_, ?_⟩
    · rw [heq]
      exact hk.1
    · rw [heq]
      exact hk.2

/-- A session that a rush deletes was parked. -/
lemma sess_hshRush_of_outstanding {k : Nat} {h' : Objhead D} (wf : HshWf st leak 0) (hk : st.heads k = some h)
    (hw : waiters h' = waiters h) (hr : Outstanding st oh (.sess s)) :
    (st'.hshRush k h' rush).sess s = st'.sess s := by
  rw [sess_hshRush, hw]
  split
  · rename_i hd
    have hmem : s ∈ waiters h := (rushLoop_dropped hd).mem List.mem_cons_self
    have hs := wf.waiting k h s hk hmem
    rcases hr with hr | ⟨hr, hnot⟩
    · rw [hs] at hr
      cases hr
    · rw [hs] at hr
      obtain rfl := HshSess.waiting.inj hr
      exact absurd hmem (hnot h hk)
  · rfl

/-- The last reference to an objcore of `oh` goes. -/
def Unlinks (st : HshState D) (a : HshAct D) (oh x : Nat) : Prop :=
  ∃ s rush o h, a = .deref s rush ∧ st.sess s = .has x ∧ st.cores x = some o ∧ o.refcnt = 1 ∧ o.objhead = oh ∧
    st.heads oh = some h

/-- Session `s` is parked on `oh` in the step, behind a busy objcore. -/
def Parks (st' : HshState D) (a : HshAct D) (oh s : Nat) : Prop := (∃ env noc, a = .scan s env noc) ∧ BusyOn st' oh

/-- What a step does to the lists of an objhead. -/
structure HeadStep (st st' : HshState D) (a : HshAct D) (oh : Nat) : Prop where
  objcs : ∀ x, Outstanding st oh (.objcore x) → Outstanding st' oh (.objcore x) ∨ Unlinks st a oh x
  waiting : ∀ h' s, st'.heads oh = some h' → s ∈ waiters h' →
    (∃ h, st.heads oh = some h ∧ s ∈ waiters h) ∨ Parks st' a oh s

lemma HeadKept.headStep {a : HshAct D} (hk : HeadKept st st' oh) : HeadStep st st' a oh where
  objcs := by
    rintro x ⟨h, hh, hx⟩
    exact Or.inl (hk.1 h x hh hx)
  waiting := fun h' s hh' hs => Or.inl (hk.2 h' s hh' hs)

lemma headStep_scan {k noc : Nat} {env : LookupEnv} (hh : st.heads k = some h) (hcase : ScanStep st s k h st')
    (oh : Nat) : HeadStep st st' (.scan s env noc) oh := by
  cases hcase with
  | hit hmem ho hoh => exact HeadKept.headStep (headKept_of_eq rfl)
  | poll hmem ho hbusy => exact HeadKept.headStep (headKept_of_eq rfl)
  | @park x o hmem ho hbusy =>
    by_cases hoh : oh = k
    · subst hoh
      have hthis : ((st.setHead oh (some { h with waitinglist := some (waiters h ++ [s]) })).setSess s
          (.waiting oh)).heads oh = some { h with waitinglist := some (waiters h ++ [s]) } := by simp
      refine ⟨?_, ?_⟩
      · rintro y ⟨h1, hh1, hy⟩
        rw [hh] at hh1
        obtain rfl := Option.some.inj hh1
        exact Or.inl ⟨_, hthis, hy⟩
      · intro h' s' hh' hs'
        rw [hthis] at hh'
        obtain rfl := Option.some.inj hh'
        have hs2 : s' ∈ waiters h ++ [s] := hs'
        rcases List.mem_append.mp hs2 with hold | hnew
        · exact Or.inl ⟨h, hh, hold⟩
        · obtain rfl := List.mem_singleton.mp hnew
          exact Or.inr ⟨⟨env, noc, rfl⟩, x, o, ⟨_, hthis, hmem⟩, ho, hbusy⟩
    · exact HeadKept.headStep (headKept_of_eq (by simp [hoh]))
  | miss hx =>
    refine HeadKept.headStep (headKept_setHead hh ?_ ?_ oh)
    · intro y hy
      exact List.mem_append_left _ hy
    · exact fun s hs => hs

lemma headStep_last (hs : st.sess s = .has x) (ho : st.cores x = some o) (hone : o.refcnt = 1)
    (hh : st.heads o.objhead = some h) (oh : Nat) :
    HeadStep st (((st.setCore x (some { o with refcnt := 0 })).setSess s (.dropping x)).hshRush o.objhead
      { h with objcs := h.objcs.erase x } rush) (.deref s rush) oh := by
  by_cases hoh : oh = o.objhead
  · subst hoh
    refine ⟨?_, ?_⟩
    · rintro y ⟨h1, hh1, hy⟩
      rw [hh] at hh1
      obtain rfl := Option.some.inj hh1
      by_cases hyx : y = x
      · subst hyx
        exact Or.inr ⟨s, rush, o, h, rfl, hs, ho, hone, rfl, hh⟩
      · exact Or.inl ⟨rushHead { h with objcs := h.objcs.erase x } rush, by simp [heads_hshRush],
          (List.mem_erase_of_ne hyx).mpr hy⟩
    · intro h' s' hh' hs'
      obtain rfl : rushHead { h with objcs := h.objcs.erase x } rush = h' := by simpa [heads_hshRush] using hh'
      rw [waiters_rushHead] at hs'
      exact Or.inl ⟨h, hh, (rushLoop_suffix _ _ _).mem hs'⟩
  · exact HeadKept.headStep (headKept_of_eq (by simp [heads_hshRush, hoh]))

lemma headStep_step [DecidableEq D] {a : HshAct D} (hstep : st.step a = some st') (oh : Nat) :
    HeadStep st st' a oh := by
  cases a with
  | enter s digest noh =>
    simp only [step, lookupEnter] at hstep
    split at hstep
    · cases hstep
    obtain ⟨⟨st1, k⟩, hlookup, rfl⟩ := Option.map_eq_some_iff.mp hstep
    exact HeadKept.headStep (headKept_hashLookup hlookup oh)
  | again s =>
    obtain ⟨k, h, hs, hh, hnot, rfl⟩ := lookupAgain_cases hstep
    exact HeadKept.headStep (headKept_of_eq rfl)
  | scan s env noc =>
    obtain ⟨k, h, hs, hh, hcase⟩ := lookupScan_cases hstep
    exact headStep_scan hh hcase oh
  | leave s =>
    obtain ⟨k, x, hs, hderef⟩ := lookupHit_cases hstep
    exact HeadKept.headStep (headKept_hashDeref hderef oh)
  | ref s x =>
    simp only [step, hshRef] at hstep
    split at hstep
    · cases hstep
    obtain ⟨o, ho, hstep⟩ := Option.bind_eq_some_iff.mp hstep
    split at hstep
    · cases hstep
    obtain rfl := Option.some.inj hstep
    exact HeadKept.headStep (headKept_of_eq rfl)
  | unbusy s rush =>
    obtain ⟨x, o, h, hs, ho, hh, -, hpos, rfl⟩ := hshUnbusy_cases hstep
    have hk : HeadKept st (st.setHead o.objhead (some { h with objcs := x :: h.objcs.erase x })) oh := by
      apply headKept_setHead hh
      · intro y hy
        by_cases hyx : y = x
        · simp [hyx]
        · exact List.mem_cons_of_mem _ ((List.mem_erase_of_ne hyx).mpr hy)
      · exact fun s hs => hs
    exact HeadKept.headStep (headKept_hshRush (st.setCore x (some { o with busy := false })) rush hk)
  | deref s rush =>
    obtain ⟨x, o, h, hs, ho, hh, ⟨hone, rfl⟩ | ⟨hmore, rfl⟩⟩ := hshDeref_cases hstep
    · exact headStep_last hs ho hone hh oh
    · have hk : HeadKept st (st.setHead o.objhead (some h)) oh :=
        headKept_setHead hh (fun y hy => hy) (fun s hs => hs) oh
      exact HeadKept.headStep
        (headKept_hshRush ((st.setCore x (some { o with refcnt := o.refcnt - 1 })).setSess s .idle) rush hk)
  | free s =>
    simp only [step, hshFree] at hstep
    split at hstep
    · obtain ⟨o, ho, hstep⟩ := Option.bind_eq_some_iff.mp hstep
      exact HeadKept.headStep (headKept_hashDeref hstep oh)
    · cases hstep

/-- A lookup ends with a reference to an objcore, or behind a busy one. -/
lemma handsOver_scan {k : Nat} (hh : st.heads k = some h) (hcase : ScanStep st s k h st') :
    HandsOver st' k (.sess s) := by
  refine ⟨s, rfl, ?_⟩
  cases hcase with
  | @hit x o hmem ho hoh => exact Or.inl ⟨x, by simp [HshSess.objcore], h, hh, hmem⟩
  | @park x o hmem ho hbusy =>
    exact Or.inr ⟨by simp, x, o, ⟨{ h with waitinglist := some (waiters h ++ [s]) }, by simp, hmem⟩, ho, hbusy⟩
  | @poll x o hmem ho hbusy => exact Or.inr ⟨by simp, x, o, ⟨h, hh, hmem⟩, ho, hbusy⟩
  | @miss x hx =>
    exact Or.inl ⟨x, by simp [HshSess.objcore], { h with objcs := h.objcs ++ [x] }, by simp, by simp⟩

/-- What a step does to a session that has a reference to `oh` and is not parked. -/
lemma sess_step [DecidableEq D] {a : HshAct D} (wf : HshWf st leak 0) (hr : Outstanding st oh (.sess s))
    (hstep : st.step a = some st') :
    st'.sess s = st.sess s ∨ st'.sess s = .lookup oh ∨ HandsOver st' oh (.sess s) := by
  have hact : ∀ s', (st.sess s').objhead = none → s ≠ s' := by
    rintro s' hs' rfl
    exact not_outstanding hs' hr
  cases a with
  | enter s' digest noh =>
    simp only [step, lookupEnter] at hstep
    split at hstep
    · cases hstep
    rename_i hidle
    push Not at hidle
    obtain ⟨⟨st1, k⟩, hlookup, rfl⟩ := Option.map_eq_some_iff.mp hstep
    obtain ⟨-, -, hsess⟩ := hshWf_hashLookup wf hlookup
    have hne := hact s' (by rw [hidle]; rfl)
    exact Or.inl (by simp [hne, hsess])
  | again s' =>
    obtain ⟨k, h, hs, hh, hnot, rfl⟩ := lookupAgain_cases hstep
    by_cases hne : s = s'
    · subst hne
      rcases hr with hr | ⟨hr, -⟩
      · rw [hs] at hr
        cases hr
      · rw [hs] at hr
        obtain rfl := HshSess.waiting.inj hr
        exact Or.inr (Or.inl (by simp))
    · exact Or.inl (by simp [hne])
  | scan s' env noc =>
    obtain ⟨k, h, hs, hh, hcase⟩ := lookupScan_cases hstep
    by_cases hne : s = s'
    · subst hne
      obtain rfl : k = oh := by
        rcases hr with hr | ⟨hr, -⟩
        · rw [hs] at hr
          exact HshSess.lookup.inj hr
        · rw [hs] at hr
          cases hr
      exact Or.inr (Or.inr (handsOver_scan hh hcase))
    · left
      cases hcase <;> simp [hne]
  | leave s' =>
    obtain ⟨k, x, hs, hderef⟩ := lookupHit_cases hstep
    have hne : s ≠ s' := by
      rintro rfl
      rcases hr with hr | ⟨hr, -⟩ <;> rw [hs] at hr <;> cases hr
    exact Or.inl (by simp [sess_hashDeref hderef, hne])
  | ref s' x =>
    simp only [step, hshRef] at hstep
    split at hstep
    · cases hstep
    rename_i hidle
    push Not at hidle
    obtain ⟨o, ho, hstep⟩ := Option.bind_eq_some_iff.mp hstep
    split at hstep
    · cases hstep
    obtain rfl := Option.some.inj hstep
    have hne := hact s' (by rw [hidle]; rfl)
    exact Or.inl (by simp [hne])
  | unbusy s' rush =>
    obtain ⟨x, o, h, hs, ho, hh, -, hpos, rfl⟩ := hshUnbusy_cases hstep
    left
    exact sess_hshRush_of_outstanding wf hh rfl hr
  | deref s' rush =>
    obtain ⟨x, o, h, hs, ho, hh, ⟨hone, rfl⟩ | ⟨hmore, rfl⟩⟩ := hshDeref_cases hstep
    · have hne := hact s' (by rw [hs]; rfl)
      have hold : waiters { h with objcs := h.objcs.erase x } = waiters h := rfl
      left
      rw [sess_hshRush_of_outstanding wf hh hold hr]
      simp [hne]
    · have hne := hact s' (by rw [hs]; rfl)
      left
      rw [sess_hshRush_of_outstanding wf hh rfl hr]
      simp [hne]
  | free s' =>
    simp only [step, hshFree] at hstep
    split at hstep
    · rename_i x hs
      obtain ⟨o, ho, hstep⟩ := Option.bind_eq_some_iff.mp hstep
      have hne := hact s' (by rw [hs]; rfl)
      exact Or.inl (by simp [sess_hashDeref hstep, hne])
    · cases hstep

lemma HandsOver.outstanding {r : HshRef} (h : HandsOver st oh r) : ∃ r, Outstanding st oh r := by
  obtain ⟨s, -, ⟨x, -, hx⟩ | ⟨-, x, o, hx, -⟩⟩ := h
  · exact ⟨.objcore x, hx⟩
  · exact ⟨.objcore x, hx⟩

section Step

variable [DecidableEq D] {a : HshAct D} {r : HshRef}

/-- What becomes of a reference in a step. -/
lemma outstanding_step (wf : HshWf st leak 0) (hr : Outstanding st oh r) (hstep : st.step a = some st') :
    Outstanding st' oh r ∨ HandsOver st' oh r ∨ ∃ x, r = .objcore x ∧ Unlinks st a oh x := by
  have hhead := headStep_step hstep oh
  cases r with
  | objcore x =>
    rcases hhead.objcs x hr with hout | hun
    · exact Or.inl hout
    · exact Or.inr (Or.inr ⟨x, rfl, hun⟩)
  | sess s =>
    rcases sess_step wf hr hstep with hsame | hlookup | hover
    · rcases hr with hr | ⟨hr, hnot⟩
      · exact Or.inl (Or.inl (hsame.trans hr))
      · by_cases hpark : ∀ h', st'.heads oh = some h' → s ∉ waiters h'
        · exact Or.inl (Or.inr ⟨hsame.trans hr, hpark⟩)
        · push Not at hpark
          obtain ⟨h', hh', hmem⟩ := hpark
          rcases hhead.waiting h' s hh' hmem with ⟨h, hh, hold⟩ | ⟨-, hbusy⟩
          · exact absurd hold (hnot h hh)
          · exact Or.inr (Or.inl ⟨s, rfl, Or.inr ⟨hsame.trans hr, hbusy⟩⟩)
    · exact Or.inl (Or.inl hlookup)
    · exact Or.inr (Or.inl hover)

lemma hshWf_reach {acts : List (HshAct D)} (hrun : init.run acts = some st) : ∃ leak, HshWf st leak 0 := by
  induction acts using List.reverseRecOn generalizing st with
  | nil =>
    obtain rfl := Option.some.inj hrun
    exact ⟨0, hshWf_init⟩
  | append_singleton acts a ih =>
    obtain ⟨st1, hrun1, hstep⟩ := run_snoc.mp hrun
    obtain ⟨leak, wf⟩ := ih hrun1
    exact ⟨_, hshWf_step wf hstep⟩

/-- Every reference that is not that of a parked session is bound to wake others. -/
lemma boundToRush_reach {acts : List (HshAct D)} (hrun : init.run acts = some st) (oh : Nat) (r : HshRef) :
    BoundToRush st oh r := by
  intro acts' st1 a st2 h hrun1 hout hh hne hstep hgone
  have hrun2 : init.run (acts ++ acts') = some st1 := by
    rw [run_append, hrun]
    exact hrun1
  obtain ⟨leak, wf⟩ := hshWf_reach hrun2
  rcases outstanding_step wf hout hstep with hstill | hover | ⟨x, rfl, s, rush, o, h1, rfl, hs, ho, hone, rfl, hh1⟩
  · exact absurd hstill hgone
  · exact Or.inr hover
  · rw [hh] at hh1
    obtain rfl := Option.some.inj hh1
    cases hw : h.waitinglist with
    | none => simp [waiters, hw] at hne
    | some wl =>
      refine Or.inl ⟨wl, rush, ?_⟩
      simp [rushed, waitersAt, hs, ho, hh, hw]

lemma noStranded_iff {acts : List (HshAct D)} (hrun : init.run acts = some st) : NoStranded st ↔ WaitersCovered st := by
  constructor
  · intro hno oh h hh hne
    rcases hno oh h hh hne with ⟨x, o, hx, -⟩ | ⟨r, hr, -⟩
    · exact ⟨.objcore x, hx⟩
    · exact ⟨r, hr⟩
  · intro hcov oh h hh hne
    obtain ⟨r, hr⟩ := hcov oh h hh hne
    exact Or.inr ⟨r, hr, boundToRush_reach hrun oh r⟩

end Step

end VarnishCache.Proofs
