import VarnishCache.Proofs.ObjheadSteps

/-!
# The reference counts of the objheads

The count of an objhead is exact as long as every session that `hsh_rush` takes off a waiting list can be
queued. One that cannot is deleted by `WRK_QueueSession`, which gives back its VCL but not the reference in
`sp->hash_objhead`, and then the objhead is never freed.
-/

namespace VarnishCache.Proofs

open VarnishCache HshState RefCount

variable {D : Type} {st : HshState D} {leak : Nat → Nat}

/-- The count of an objhead is that of the objcores linked to it and of the sessions that hold it, in
`HSH_Lookup` or with `sp->hash_objhead` set, and there is no objhead without any of them. -/
structure RefcntExact (st : HshState D) : Prop where
  counted : ∀ oh h, st.heads oh = some h →
    {x | ∃ o, st.cores x = some o ∧ o.objhead = oh}.encard + {s | (st.sess s).objhead = some oh}.encard = h.refcnt
  freed : ∀ oh, st.heads oh = none ↔
    (∀ x o, st.cores x = some o → o.objhead ≠ oh) ∧ ∀ s, (st.sess s).objhead ≠ some oh

/-- Every session that the step takes off a waiting list can be queued. -/
def AllQueued (st : HshState D) (a : HshAct D) : Prop :=
  ∀ oh wl rush, st.rushed a = some (oh, wl, rush) → ∀ s ∈ wl.take rush.exponent, rush.queued s = true

lemma encard_linked (st : HshState D) (oh : Nat) :
    {x | ∃ o, st.cores x = some o ∧ o.objhead = oh}.encard = refs (linkedTo st) oh := by
  have hset : {x | ∃ o, st.cores x = some o ∧ o.objhead = oh} = holders (linkedTo st) oh := by
    ext x
    simp [linkedTo]
  rw [hset, refs]

lemma encard_held (st : HshState D) (oh : Nat) :
    {s | (st.sess s).objhead = some oh}.encard = refs (heldBy st) oh := rfl

lemma refcntExact_iff (wf : HshWf st leak 0) : RefcntExact st ↔ leak = 0 := by
  constructor
  · intro hex
    funext oh
    cases hh : st.heads oh with
    | none => exact wf.noLeak oh hh
    | some h =>
      have hc := hex.counted oh h hh
      have hsum := wf.count oh h hh
      rw [encard_linked, encard_held] at hc
      rw [hc] at hsum
      norm_cast at hsum
      simp only [Pi.zero_apply]
      omega
  · rintro rfl
    constructor
    · intro oh h hh
      rw [encard_linked, encard_held]
      simpa using wf.count oh h hh
    · intro oh
      constructor
      · intro hh
        refine ⟨?_, ?_⟩
        · rintro x o ho rfl
          obtain ⟨h, hh'⟩ := wf.linked x o ho
          simp [hh] at hh'
        · intro s hs
          obtain ⟨h, hh'⟩ := wf.held s oh hs
          simp [hh] at hh'
      · rintro ⟨hlinked, hheld⟩
        by_contra hne
        obtain ⟨h, hh⟩ := Option.ne_none_iff_exists'.mp hne
        have hl : refs (linkedTo st) oh = 0 := by
          rw [refs_eq_zero]
          intro x hx
          obtain ⟨o, ho, hoh⟩ := Option.map_eq_some_iff.mp hx
          exact hlinked x o ho hoh
        have hs : refs (heldBy st) oh = 0 := refs_eq_zero.mpr hheld
        have hc := wf.count oh h hh
        rw [hl, hs] at hc
        have hpos := wf.pos oh h hh
        norm_cast at hc
        simp only [Pi.zero_apply] at hc
        omega

lemma rushLoop_none_iff (q : Nat → Bool) (n : Nat) (wl : List Nat) :
    (rushLoop q n wl).2 = none ↔ ∀ s ∈ wl.take n, q s = true := by
  induction n generalizing wl with
  | zero => simp [rushLoop]
  | succ n ih =>
    cases wl with
    | nil => simp [rushLoop]
    | cons s wl =>
      by_cases hq : q s = true
      · simp [rushLoop, hq, ih]
      · simp [rushLoop, hq]

lemma leakAfter_eq_zero_iff {a : HshAct D} : leakAfter 0 st a = 0 ↔ AllQueued st a := by
  unfold leakAfter AllQueued
  cases hr : st.rushed a with
  | none => simp
  | some r =>
    obtain ⟨oh, wl, rush⟩ := r
    have hiff := rushLoop_none_iff rush.queued rush.exponent wl
    simp only [Option.some.injEq, Prod.mk.injEq]
    cases hd : (rushLoop rush.queued rush.exponent wl).2 with
    | none =>
      have hall := hiff.mp hd
      simp only [leakRush, hd]
      constructor
      · rintro - _ _ _ ⟨rfl, rfl, rfl⟩
        exact hall
      · exact fun _ => rfl
    | some sp =>
      simp only [leakRush, hd]
      constructor
      · intro hzero
        have := congrFun hzero oh
        simp at this
      · intro hq
        have := hiff.mpr (hq oh wl rush ⟨rfl, rfl, rfl⟩)
        rw [hd] at this
        cases this

section Run

variable [DecidableEq D] {st' : HshState D} {acts : List (HshAct D)}

lemma run_append (st : HshState D) (acts acts' : List (HshAct D)) :
    st.run (acts ++ acts') = (st.run acts).bind (fun st' => st'.run acts') := by
  induction acts generalizing st with
  | nil => rfl
  | cons a acts ih =>
    simp only [List.cons_append, run, Option.bind_assoc]
    congr 1
    funext st1
    exact ih st1

lemma run_snoc {a : HshAct D} : st.run (acts ++ [a]) = some st' ↔
    ∃ st1, st.run acts = some st1 ∧ st1.step a = some st' := by
  rw [run_append, Option.bind_eq_some_iff]
  simp [run]

/-- The states that a run goes through. -/
def Passes (acts : List (HshAct D)) (st : HshState D) : Prop := ∃ pre suf, acts = pre ++ suf ∧ init.run pre = some st

/-- The steps that a run takes, each with the state before it. -/
def Takes (acts : List (HshAct D)) (st : HshState D) (a : HshAct D) : Prop :=
  ∃ pre suf, acts = pre ++ a :: suf ∧ init.run pre = some st

/-- As long as the counts are exact or all sessions are queued, no reference is without a holder. -/
lemma hshWf_run (pre suf : List (HshAct D)) (hacts : acts = pre ++ suf) (hrun : init.run pre = some st)
    (h : (∀ st, Passes acts st → RefcntExact st) ∨ ∀ st a, Takes acts st a → AllQueued st a) : HshWf st 0 0 := by
  induction pre using List.reverseRecOn generalizing suf st with
  | nil =>
    obtain rfl := Option.some.inj hrun
    exact hshWf_init
  | append_singleton pre a ih =>
    obtain ⟨st1, hrun1, hstep⟩ := run_snoc.mp hrun
    have hacts1 : acts = pre ++ a :: suf := by simp [hacts]
    have wf1 := ih (a :: suf) hacts1 hrun1
    have wf2 := hshWf_step wf1 hstep
    rcases h with hex | hq
    · rw [(refcntExact_iff wf2).mp (hex st ⟨pre ++ [a], suf, hacts, hrun⟩)] at wf2
      exact wf2
    · rw [leakAfter_eq_zero_iff.mpr (hq st1 a ⟨pre, suf, hacts1, hrun1⟩)] at wf2
      exact wf2

/-- In every run, the counts of all objheads are exact in all states if and only if every session that is
taken off a waiting list can be queued. -/
theorem hsh_refcnt_exact (hrun : init.run acts = some st) :
    (∀ st', Passes acts st' → RefcntExact st') ↔ ∀ st' a, Takes acts st' a → AllQueued st' a := by
  constructor
  · rintro hex st1 a ⟨pre, suf, hacts, hrun1⟩
    have wf1 := hshWf_run pre (a :: suf) hacts hrun1 (Or.inl hex)
    rw [hacts, run_append, hrun1, Option.bind_some, run] at hrun
    obtain ⟨st2, hstep, -⟩ := Option.bind_eq_some_iff.mp hrun
    have wf2 := hshWf_step wf1 hstep
    have hacts2 : acts = (pre ++ [a]) ++ suf := by simp [hacts]
    have hex2 := hex st2 ⟨pre ++ [a], suf, hacts2, run_snoc.mpr ⟨st1, hrun1, hstep⟩⟩
    exact leakAfter_eq_zero_iff.mp ((refcntExact_iff wf2).mp hex2)
  · rintro hq st1 ⟨pre, suf, hacts, hrun1⟩
    exact (refcntExact_iff (hshWf_run pre suf hacts hrun1 (Or.inr hq))).mpr rfl

end Run

/-- A lookup that finds no object it likes, and waits for a busy one. -/
def missEnv : LookupEnv :=
  { hashIgnoreBusy := false, hashAlwaysMiss := false, esiLevel := 0, healthy := true, busyVary := fun _ => true
    live := fun _ => false, banned := fun _ => false, vary := fun _ => false, valid := fun _ => false
    inGrace := fun _ => false, expires := fun _ => 0 }

/-- Sessions 0 and 1 look up the same digest. The first fetches the object and the second waits for it; then
the first drops the object and `hsh_rush` takes the second off the list. -/
def dropRun (queued : Nat → Bool) : List (HshAct Unit) :=
  let rush : Rush := { exponent := 3, queued := queued, two_le := by decide }
  [.enter 0 () 0, .scan 0 missEnv 0, .enter 1 () 1, .scan 1 missEnv 1, .unbusy 0 rush, .deref 0 rush, .free 0]

/-- The objhead of the run, the sessions and the objcores in the end. -/
def dropRunEnd (queued : Nat → Bool) : Option (Option Nat × List HshSess × List Bool) :=
  (init.run (dropRun queued)).map (fun st =>
    ((st.heads 0).map Objhead.refcnt, [st.sess 0, st.sess 1], [(st.cores 0).isSome, (st.cores 1).isSome]))

lemma dropRun_queued (q : Nat → Bool) (hq : ∀ s, q s = true) {st : HshState Unit} {a : HshAct Unit}
    (ha : a ∈ dropRun q) : AllQueued st a := by
  intro oh wl rush hr s hs
  simp only [dropRun, List.mem_cons, List.not_mem_nil, or_false] at ha
  rcases ha with rfl | rfl | rfl | rfl | rfl | rfl | rfl
  case inr.inr.inr.inr.inl | inr.inr.inr.inr.inr.inl =>
    obtain ⟨r, -, hr⟩ := Option.map_eq_some_iff.mp hr
    obtain ⟨-, -, rfl⟩ := Prod.mk.inj (Prod.mk.inj hr).2
    exact hq s
  all_goals cases hr

/-- When session 1 can be queued, it comes back with its reference. -/
theorem hsh_refcnt_exact_queued : ∃ st, init.run (dropRun (fun _ => true)) = some st ∧
    (st.heads 0).map Objhead.refcnt = some 1 ∧ st.sess 1 = .waiting 0 ∧ RefcntExact st := by
  obtain ⟨st, hrun⟩ : ∃ st, init.run (dropRun (fun _ => true)) = some st := ⟨_, rfl⟩
  have hend : dropRunEnd (fun _ => true) = some (some 1, [.idle, .waiting 0], [false, false]) := by decide
  have hq : ∀ st' a, Takes (dropRun (fun _ => true)) st' a → AllQueued st' a := by
    rintro st' a ⟨pre, suf, hacts, -⟩
    exact dropRun_queued _ (fun _ => rfl) (by simp [hacts])
  have hex := (hsh_refcnt_exact hrun).mpr hq st ⟨_, [], (List.append_nil _).symm, hrun⟩
  simp only [dropRunEnd, hrun, Option.map_some, Option.some.injEq, Prod.mk.injEq, List.cons.injEq] at hend
  exact ⟨st, hrun, hend.1, hend.2.1.2.1, hex⟩

/-- When session 1 cannot be queued, the objhead stays behind with a reference that nobody has. -/
theorem hsh_rush_leaks_objhead : ∃ st, init.run (dropRun (fun _ => false)) = some st ∧
    (st.heads 0).map Objhead.refcnt = some 1 ∧ (∀ x, st.cores x = none) ∧ (∀ s, st.sess s = .idle) ∧
    ¬ RefcntExact st := by
  obtain ⟨st, hrun, hcores, hsess⟩ : ∃ st, init.run (dropRun (fun _ => false)) = some st ∧
      (∀ x, st.cores x = none) ∧ ∀ s, st.sess s = .idle := by
    refine ⟨_, rfl, ?_, ?_⟩
    · intro x
      by_cases hx : x = 0
      · subst hx
        rfl
      · simp [hx, init, hshRush, rushLoop]
    · intro s
      by_cases hs0 : s = 0
      · subst hs0
        rfl
      by_cases hs1 : s = 1
      · subst hs1
        rfl
      · simp [hs0, hs1, init, hshRush, rushLoop]
  have hend : dropRunEnd (fun _ => false) = some (some 1, [.idle, .idle], [false, false]) := by decide
  simp only [dropRunEnd, hrun, Option.map_some, Option.some.injEq, Prod.mk.injEq, List.cons.injEq] at hend
  refine ⟨st, hrun, hend.1, hcores, hsess, ?_⟩
  intro hex
  have hnone := (hex.freed 0).mpr ⟨by simp [hcores], by simp [hsess, HshSess.objhead]⟩
  rw [hnone] at hend
  cases hend.1

end VarnishCache.Proofs
