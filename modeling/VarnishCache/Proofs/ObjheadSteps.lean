import VarnishCache.Proofs.Objhead

/-!
# Steps keep the invariant of the objheads

Each step of a lookup, an unbusying and a dereference moves references around and keeps the counts; only
`hsh_rush` leaves a reference without a holder, when it deletes a session.
-/

namespace VarnishCache.Proofs

open VarnishCache HshState RefCount

variable {D : Type} {st st' : HshState D} {leak leak' spare : Nat → Nat} {oh s x : Nat} {h : Objhead D}
  {o : Objcore} {rush : Rush}

section Rush

variable {q : Nat → Bool} {n : Nat} {wl : List Nat}

lemma rushLoop_suffix (q : Nat → Bool) (n : Nat) (wl : List Nat) : (rushLoop q n wl).1 <:+ wl := by
  induction n generalizing wl with
  | zero => exact List.suffix_rfl
  | succ n ih =>
    cases wl with
    | nil => exact List.suffix_rfl
    | cons sp wl =>
      simp only [rushLoop]
      split
      · exact (ih wl).trans (List.suffix_cons sp wl)
      · exact List.suffix_cons sp wl

/-- A session that cannot be queued is off the list when the rush ends. -/
lemma rushLoop_dropped {sp : Nat} (h : (rushLoop q n wl).2 = some sp) :
    sp :: (rushLoop q n wl).1 <:+ wl := by
  induction n generalizing wl with
  | zero => simp [rushLoop] at h
  | succ n ih =>
    cases wl with
    | nil => simp [rushLoop] at h
    | cons s wl =>
      by_cases hq : q s = true
      · simp only [rushLoop, hq, if_true] at h ⊢
        exact (ih h).trans (List.suffix_cons s wl)
      · simp only [rushLoop, hq, Bool.false_eq_true, if_false, Option.some.injEq] at h ⊢
        rw [h]

end Rush

/-- The references without a holder after a rush. -/
def leakRush (leak : Nat → Nat) (oh : Nat) (wl : List Nat) (rush : Rush) : Nat → Nat :=
  if (rushLoop rush.queued rush.exponent wl).2.isSome then fun k => leak k + ref (some oh) k else leak

/-- The objhead after a rush. -/
def rushHead (h : Objhead D) (rush : Rush) : Objhead D :=
  let wl := (rushLoop rush.queued rush.exponent (waiters h)).1
  { h with waitinglist := if wl = [] then none else some wl }

lemma waiters_rushHead (h : Objhead D) (rush : Rush) :
    waiters (rushHead h rush) = (rushLoop rush.queued rush.exponent (waiters h)).1 := by
  unfold rushHead
  generalize (rushLoop rush.queued rush.exponent (waiters h)).1 = wl
  cases wl <;> rfl

/-- The session that a rush deletes. -/
def rushSess (st : HshState D) (h : Objhead D) (rush : Rush) : HshState D :=
  match (rushLoop rush.queued rush.exponent (waiters h)).2 with
  | none => st
  | some sp => st.setSess sp .idle

lemma hshRush_eq (st : HshState D) (oh : Nat) (h : Objhead D) (rush : Rush) :
    st.hshRush oh h rush = rushSess (st.setHead oh (some (rushHead h rush))) h rush := by
  cases hwl : h.waitinglist with
  | none =>
    have hloop : rushLoop rush.queued rush.exponent (waiters h) = ([], none) := by
      rw [waiters, hwl]
      cases rush.exponent <;> rfl
    have hhead : rushHead h rush = h := by
      rw [rushHead, hloop, if_pos rfl, ← hwl]
    rw [hshRush, hwl, rushSess, hloop, hhead]
  | some wl =>
    have hloop : waiters h = wl := by
      rw [waiters, hwl, Option.getD_some]
    cases hd : (rushLoop rush.queued rush.exponent wl).2 with
    | none => simp only [hshRush, hwl, rushSess, rushHead, hloop, hd]
    | some sp => simp only [hshRush, hwl, rushSess, rushHead, hloop, hd]

lemma hshWf_rush (wf : HshWf st leak spare) (hh : st.heads oh = some h) (rush : Rush) :
    HshWf (st.hshRush oh h rush) (leakRush leak oh (waiters h) rush) spare := by
  have hsuf := rushLoop_suffix rush.queued rush.exponent (waiters h)
  have hparked := wf.parked oh h hh
  have wf1 : HshWf (st.setHead oh (some (rushHead h rush))) leak spare := by
    refine hshWf_setHead wf hh ⟨rfl, wf.pos oh h hh, List.Perm.refl _, ?_, ?_⟩ (fun k => rfl)
    · intro s hs
      rw [waiters_rushHead] at hs
      exact wf.waiting oh h s hh (hsuf.mem hs)
    · rw [waiters_rushHead]
      exact hparked.sublist hsuf.sublist
  rw [hshRush_eq]
  cases hd : (rushLoop rush.queued rush.exponent (waiters h)).2 with
  | none =>
    rw [rushSess, leakRush, hd]
    exact wf1
  | some sp =>
    have hcons := rushLoop_dropped hd
    have hnd : (sp :: (rushLoop rush.queued rush.exponent (waiters h)).1).Nodup :=
      hparked.sublist hcons.sublist
    have hsp : st.sess sp = .waiting oh := wf.waiting oh h sp hh (hcons.mem List.mem_cons_self)
    have hheld : heldBy st sp = some oh := by rw [heldBy, hsp]; rfl
    have hown : ownedBy st sp = none := by rw [ownedBy, hsp]; rfl
    rw [rushSess, leakRush, hd]
    refine hshWf_setSess wf1 ⟨by simp [HshSess.objhead], by simp [HshSess.objcore], by simp, by simp, by simp⟩
      ?_ ?_ ?_
    · intro k hk hhk hmem
      have hk' := wf1.waiting k hk sp hhk hmem
      rw [sess_setHead, hsp] at hk'
      obtain rfl := HshSess.waiting.inj hk'
      obtain rfl : rushHead h rush = hk := by simpa using hhk
      rw [waiters_rushHead] at hmem
      exact (List.nodup_cons.mp hnd).1 hmem
    · intro k
      rw [heldBy_setHead, hheld]
      simp [HshSess.objhead]
    · intro k
      rw [ownedBy_setHead, hown]
      simp [HshSess.objcore]

lemma not_parked (wf : HshWf st leak spare) (hs : ∀ oh, st.sess s ≠ .waiting oh) (oh : Nat) (h : Objhead D)
    (hh : st.heads oh = some h) : s ∉ waiters h :=
  fun hmem => hs oh (wf.waiting oh h s hh hmem)

section Hash

variable [DecidableEq D]

lemma hshWf_hashLookup {digest : D} {noh : Nat} (wf : HshWf st leak spare)
    (hstep : st.hashLookup digest noh = some (st', oh)) :
    HshWf st' (fun k => leak k + ref (some oh) k) spare ∧ (∃ h, st'.heads oh = some h) ∧ st'.sess = st.sess := by
  unfold hashLookup at hstep
  cases hi : st.index digest with
  | some oh1 =>
    rw [hi] at hstep
    obtain ⟨h, hh, -⟩ := (wf.index digest oh1).mp hi
    simp only [hh, Option.bind_eq_bind, Option.bind_some, Option.some.injEq, Prod.mk.injEq] at hstep
    obtain ⟨rfl, rfl⟩ := hstep
    refine ⟨?_, by simp, rfl⟩
    refine hshWf_setHead wf hh ⟨rfl, Nat.succ_pos _, List.Perm.refl _, fun s hs => wf.waiting _ h s hh hs,
      wf.parked _ h hh⟩ ?_
    intro k
    by_cases hk : k = oh1
    · subst hk
      simp only [ref_self, if_true]
      omega
    · simp [hk, ref_of_ne (show some oh1 ≠ some k by simpa using Ne.symm hk)]
  | none =>
    simp only [hi] at hstep
    split at hstep
    · cases hstep
    · rename_i hnoh
      simp only [Option.some.injEq, Prod.mk.injEq] at hstep
      obtain ⟨rfl, rfl⟩ := hstep
      refine ⟨?_, by simp, rfl⟩
      exact hshWf_newHead (h := { digest := digest, refcnt := 1, objcs := [], waitinglist := none }) wf
        (by simpa using hnoh) hi rfl rfl rfl (fun k => rfl)

lemma hshWf_hashDeref (wf : HshWf st leak spare) (hstep : st.hashDeref oh = some st')
    (hleak : ∀ k, leak' k + ref (some oh) k = leak k) : HshWf st' leak' spare := by
  unfold hashDeref at hstep
  obtain ⟨h, hh, hstep⟩ := Option.bind_eq_some_iff.mp hstep
  split at hstep
  · cases hstep
  split at hstep
  · rename_i hone
    split at hstep
    · cases hstep
    · obtain rfl := Option.some.inj hstep
      exact hshWf_delHead wf hh hone hleak
  · rename_i hzero hone
    obtain rfl := Option.some.inj hstep
    refine hshWf_setHead wf hh ⟨rfl, by simp; omega, List.Perm.refl _, fun s hs => wf.waiting _ h s hh hs,
      wf.parked _ h hh⟩ ?_
    intro k
    have hl := hleak k
    by_cases hk : k = oh
    · subst hk
      rw [ref_self] at hl
      simp only [if_true]
      omega
    · rw [ref_of_ne (by simpa using Ne.symm hk)] at hl
      simp only [if_neg hk]
      omega

end Hash

/-- What the loop of `HSH_Lookup` has found is on the list, or was found before. -/
structure ScanFinds (cores : Nat → Option Objcore) (l : List Nat) (busyOc graceOc : Option Nat)
    (scan : LookupScan) : Prop where
  oc : ∀ x, scan.oc = some x → x ∈ l
  busy : ∀ x, scan.busyOc = some x → busyOc = some x ∨ (x ∈ l ∧ ∃ o, cores x = some o ∧ o.busy = true)
  grace : ∀ x, scan.graceOc = some x → graceOc = some x ∨ x ∈ l

lemma scanFinds_cons {cores : Nat → Option Objcore} {l : List Nat} {y : Nat} {b g : Option Nat}
    {scan : LookupScan} (h : ScanFinds cores l b g scan) : ScanFinds cores (y :: l) b g scan where
  oc := fun x hx => List.mem_cons_of_mem _ (h.oc x hx)
  busy := fun x hx => (h.busy x hx).imp_right (fun hl => ⟨List.mem_cons_of_mem _ hl.1, hl.2⟩)
  grace := fun x hx => (h.grace x hx).imp_right (List.mem_cons_of_mem _)

lemma hshScan_finds {env : LookupEnv} {r : Nat} {cores : Nat → Option Objcore} {l : List Nat}
    {busyOc graceOc : Option Nat} {scan : LookupScan}
    (hscan : hshScan env oh r cores l busyOc graceOc = some scan) : ScanFinds cores l busyOc graceOc scan := by
  induction l generalizing busyOc graceOc with
  | nil =>
    obtain rfl := Option.some.inj hscan
    exact ⟨by simp, fun x hx => Or.inl hx, fun x hx => Or.inl hx⟩
  | cons y l ih =>
    unfold hshScan at hscan
    split at hscan
    · cases hscan
    rename_i oy hoy
    split at hscan
    · cases hscan
    split at hscan
    · rename_i hbusy
      split at hscan
      · exact scanFinds_cons (ih hscan)
      split at hscan
      · exact scanFinds_cons (ih hscan)
      · have hfinds := scanFinds_cons (y := y) (ih hscan)
        refine ⟨hfinds.oc, ?_, hfinds.grace⟩
        intro x hx
        rcases hfinds.busy x hx with hxy | hl
        · obtain rfl := Option.some.inj hxy
          exact Or.inr ⟨List.mem_cons_self, oy, hoy, hbusy⟩
        · exact Or.inr hl
    split at hscan
    · exact scanFinds_cons (ih hscan)
    split at hscan
    · exact scanFinds_cons (ih hscan)
    split at hscan
    · exact scanFinds_cons (ih hscan)
    split at hscan
    · obtain rfl := Option.some.inj hscan
      refine ⟨?_, fun x hx => Or.inl hx, fun x hx => Or.inl hx⟩
      intro x hx
      obtain rfl := Option.some.inj hx
      exact List.mem_cons_self
    split at hscan
    · have hfinds := scanFinds_cons (y := y) (ih hscan)
      refine ⟨hfinds.oc, hfinds.busy, ?_⟩
      intro x hx
      rcases hfinds.grace x hx with hxy | hl
      · obtain rfl := Option.some.inj hxy
        exact Or.inr List.mem_cons_self
      · exact Or.inr hl
    · exact scanFinds_cons (ih hscan)

lemma liked_mem {env : LookupEnv} {cores : Nat → Option Objcore} {l : List Nat} {scan : LookupScan}
    (h : ScanFinds cores l none none scan) (hx : scan.liked env = some x) : x ∈ l := by
  dsimp only [LookupScan.liked] at hx
  split at hx
  · cases hx
  split at hx
  · rcases h.grace x hx with hn | hl
    · cases hn
    · exact hl
  · exact h.oc x hx

/-- What the critical section of `HSH_Lookup` comes to. -/
inductive ScanStep (st : HshState D) (s oh : Nat) (h : Objhead D) : HshState D → Prop
  | hit {x : Nat} {o : Objcore} (hmem : x ∈ h.objcs) (ho : st.cores x = some o) (hoh : o.objhead = oh) :
      ScanStep st s oh h ((st.setCore x (some { o with refcnt := o.refcnt + 1 })).setSess s (.hit oh x))
  | park {x : Nat} {o : Objcore} (hmem : x ∈ h.objcs) (ho : st.cores x = some o) (hbusy : o.busy = true) :
      ScanStep st s oh h ((st.setHead oh (some { h with waitinglist := some (waiters h ++ [s]) })).setSess s
        (.waiting oh))
  | poll {x : Nat} {o : Objcore} (hmem : x ∈ h.objcs) (ho : st.cores x = some o) (hbusy : o.busy = true) :
      ScanStep st s oh h (st.setSess s (.waiting oh))
  | miss {x : Nat} (hx : st.cores x = none) :
      ScanStep st s oh h (((st.setCore x (some { objhead := oh, busy := true, refcnt := 1 })).setHead oh
        (some { h with objcs := h.objcs ++ [x] })).setSess s (.has x))

lemma lookupScan_cases {env : LookupEnv} {noc : Nat} (hstep : st.lookupScan s env noc = some st') :
    ∃ oh h, st.sess s = .lookup oh ∧ st.heads oh = some h ∧ ScanStep st s oh h st' := by
  unfold lookupScan at hstep
  split at hstep
  · rename_i oh hs
    obtain ⟨h, hh, hstep⟩ := Option.bind_eq_some_iff.mp hstep
    refine ⟨oh, h, hs, hh, ?_⟩
    split at hstep
    · cases hstep
    obtain ⟨scan, hscan, hstep⟩ := Option.bind_eq_some_iff.mp hstep
    have hfinds := hshScan_finds hscan
    split at hstep
    · rename_i x hliked
      obtain ⟨o, ho, hstep⟩ := Option.bind_eq_some_iff.mp hstep
      split at hstep
      · cases hstep
      · rename_i hcheck
        obtain rfl := Option.some.inj hstep
        push Not at hcheck
        exact .hit (liked_mem hfinds hliked) ho hcheck.2
    · split at hstep
      · rename_i hbusy
        obtain ⟨x, hx⟩ := Option.isSome_iff_exists.mp hbusy
        have hfound : x ∈ h.objcs ∧ ∃ o, st.cores x = some o ∧ o.busy = true := by
          rcases hfinds.busy x hx with hn | hl
          · cases hn
          · exact hl
        obtain ⟨hmem, o, ho, hb⟩ := hfound
        split at hstep
        · obtain rfl := Option.some.inj hstep
          exact .park hmem ho hb
        · obtain rfl := Option.some.inj hstep
          exact .poll hmem ho hb
      · split at hstep
        · cases hstep
        · rename_i hnoc
          obtain rfl := Option.some.inj hstep
          exact .miss (by simpa using hnoc)
  · cases hstep

section Lookup

lemma sessFits_idle (st : HshState D) (s : Nat) : SessFits st s .idle :=
  ⟨by simp [HshSess.objhead], by simp [HshSess.objcore], by simp, by simp, by simp⟩

lemma sessFits_lookup (hh : st.heads oh = some h) : SessFits st s (.lookup oh) :=
  ⟨by simp [HshSess.objhead, hh], by simp [HshSess.objcore], by simp, by simp, by simp⟩

lemma sessFits_waiting (hh : st.heads oh = some h) : SessFits st s (.waiting oh) :=
  ⟨by simp [HshSess.objhead, hh], by simp [HshSess.objcore], by simp, by simp, by simp⟩

lemma sessFits_has (ho : st.cores x = some o) : SessFits st s (.has x) :=
  ⟨by simp [HshSess.objhead], by simp [HshSess.objcore, ho], by simp, by simp, by simp⟩

/-- The references of a session whose state is known. -/
lemma hshWf_go {σ σ' : HshSess} (wf : HshWf st leak spare) (hs : st.sess s = σ) (hσ : ∀ oh, σ ≠ .waiting oh)
    (fits : SessFits st s σ') {spare' : Nat → Nat} (hleak : ∀ k, leak' k + ref σ'.objhead k = leak k + ref σ.objhead k)
    (hspare : ∀ k, spare' k + ref σ'.objcore k = spare k + ref σ.objcore k) :
    HshWf (st.setSess s σ') leak' spare' := by
  have hheld : heldBy st s = σ.objhead := by rw [heldBy, hs]
  have hown : ownedBy st s = σ.objcore := by rw [ownedBy, hs]
  refine hshWf_setSess wf fits (not_parked wf (by rw [hs]; exact hσ)) ?_ ?_
  · rw [hheld]
    exact hleak
  · rw [hown]
    exact hspare

lemma hshWf_enter [DecidableEq D] {digest : D} {noh : Nat} (wf : HshWf st leak 0)
    (hstep : st.lookupEnter s digest noh = some st') : HshWf st' leak 0 := by
  unfold lookupEnter at hstep
  split at hstep
  · cases hstep
  rename_i hidle
  push Not at hidle
  obtain ⟨⟨st1, oh⟩, hlookup, rfl⟩ := Option.map_eq_some_iff.mp hstep
  obtain ⟨wf1, ⟨h, hh⟩, hsess⟩ := hshWf_hashLookup wf hlookup
  have hs1 : st1.sess s = .idle := by rw [hsess, hidle]
  exact hshWf_go wf1 hs1 (by simp) (sessFits_lookup hh) (fun k => rfl) (fun k => rfl)

lemma lookupAgain_cases (hstep : st.lookupAgain s = some st') :
    ∃ oh h, st.sess s = .waiting oh ∧ st.heads oh = some h ∧ s ∉ waiters h ∧ st' = st.setSess s (.lookup oh) := by
  unfold lookupAgain at hstep
  split at hstep
  · rename_i oh hs
    obtain ⟨h, hh, hstep⟩ := Option.bind_eq_some_iff.mp hstep
    split at hstep
    · cases hstep
    · rename_i hnot
      exact ⟨oh, h, hs, hh, hnot, (Option.some.inj hstep).symm⟩
  · cases hstep

lemma hshWf_again (wf : HshWf st leak 0) (hstep : st.lookupAgain s = some st') : HshWf st' leak 0 := by
  obtain ⟨oh, h, hs, hh, hnot, rfl⟩ := lookupAgain_cases hstep
  refine hshWf_setSess wf (sessFits_lookup hh) ?_ ?_ ?_
  · intro k hk hhk hmem
    have hk' := wf.waiting k hk s hhk hmem
    rw [hs] at hk'
    obtain rfl := HshSess.waiting.inj hk'
    rw [hh] at hhk
    obtain rfl := Option.some.inj hhk
    exact hnot hmem
  · intro k
    rw [heldBy, hs]
    rfl
  · intro k
    rw [ownedBy, hs]
    rfl

lemma hshWf_scan {env : LookupEnv} {noc : Nat} (wf : HshWf st leak 0)
    (hstep : st.lookupScan s env noc = some st') : HshWf st' leak 0 := by
  obtain ⟨oh, h, hs, hh, hcase⟩ := lookupScan_cases hstep
  have hnot := not_parked wf (s := s) (by simp [hs])
  cases hcase with
  | @hit x o hmem ho hoh =>
    have hpos : 0 < o.refcnt := by
      obtain ⟨o', ho', -, hp⟩ := (wf.objcs oh h x hh).mp hmem
      rw [ho] at ho'
      rwa [Option.some.inj ho']
    have wf1 : HshWf (st.setCore x (some { o with refcnt := o.refcnt + 1 })) leak (fun k => ref (some x) k) := by
      refine hshWf_setCore wf ho rfl (by simp [hpos]) ?_
      intro k
      by_cases hk : k = x
      · subst hk
        simp only [ref_self, if_true, Pi.zero_apply]
        omega
      · simp [hk, ref_of_ne (show some x ≠ some k by simpa using Ne.symm hk)]
    have fits : SessFits (st.setCore x (some { o with refcnt := o.refcnt + 1 })) s (.hit oh x) := by
      refine ⟨by simp [HshSess.objhead, hh], by simp [HshSess.objcore], ?_, by simp, by simp⟩
      intro k y hky
      obtain ⟨rfl, rfl⟩ := HshSess.hit.inj hky
      exact ⟨{ o with refcnt := o.refcnt + 1 }, by simp, hoh⟩
    exact hshWf_go wf1 hs (by simp) fits (fun k => rfl) (fun k => by simp [HshSess.objcore])
  | @park x o hmem ho hbusy =>
    have wf1 : HshWf (st.setSess s (.waiting oh)) leak 0 :=
      hshWf_go wf hs (by simp) (sessFits_waiting hh) (fun k => rfl) (fun k => rfl)
    refine hshWf_setHead wf1 hh ⟨rfl, wf.pos oh h hh, List.Perm.refl _, ?_, ?_⟩ (fun k => rfl)
    · intro s' hs'
      rcases List.mem_append.mp hs' with hold | hnew
      · have := wf1.waiting oh h s' hh hold
        exact this
      · obtain rfl := List.mem_singleton.mp hnew
        simp
    · have hnd := wf.parked oh h hh
      have hns := hnot oh h hh
      change (waiters h ++ [s]).Nodup
      exact List.nodup_append.mpr ⟨hnd, List.nodup_singleton s, by
        intro a ha b hb
        obtain rfl := List.mem_singleton.mp hb
        rintro rfl
        exact hns ha⟩
  | @poll x o hmem ho hbusy =>
    exact hshWf_go wf hs (by simp) (sessFits_waiting hh) (fun k => rfl) (fun k => rfl)
  | @miss x hx =>
    have wf1 : HshWf (st.setSess s .idle) (fun k => leak k + ref (some oh) k) 0 :=
      hshWf_go wf hs (by simp) (sessFits_idle st s) (fun k => rfl) (fun k => rfl)
    have wf2 := hshWf_link (o := { objhead := oh, busy := true, refcnt := 1 }) (h := h) wf1 hx hh Nat.one_pos
      (fun k => rfl) (fun k => rfl)
    let st2 := ((st.setSess s .idle).setCore x (some { objhead := oh, busy := true, refcnt := 1 })).setHead oh
      (some { h with objcs := h.objcs ++ [x] })
    have hs2 : st2.sess s = .idle := by simp [st2]
    have ho2 : st2.cores x = some { objhead := oh, busy := true, refcnt := 1 } := by simp [st2]
    have wf3 : HshWf (st2.setSess s (.has x)) leak 0 := by
      refine hshWf_go wf2 hs2 (by simp) (sessFits_has ho2) (fun k => rfl) ?_
      intro k
      by_cases hk : k = x
      · subst hk
        simp [HshSess.objcore]
      · simp [HshSess.objcore, hk, ref_of_ne (show some x ≠ some k by simpa using Ne.symm hk)]
    simpa [st2, HshState.setSess, HshState.setHead, HshState.setCore] using wf3

end Lookup

lemma hashDeref_setSess [DecidableEq D] (st : HshState D) (oh s : Nat) (σ : HshSess) :
    (st.setSess s σ).hashDeref oh = (st.hashDeref oh).map (fun st' => st'.setSess s σ) := by
  simp only [hashDeref, heads_setSess]
  cases st.heads oh with
  | none => rfl
  | some h =>
    simp only [Option.bind_eq_bind, Option.bind_some]
    split_ifs <;> rfl

lemma lookupHit_cases [DecidableEq D] (hstep : st.lookupHit s = some st') :
    ∃ oh x, st.sess s = .hit oh x ∧ (st.setSess s (.has x)).hashDeref oh = some st' := by
  unfold lookupHit at hstep
  split at hstep
  · rename_i oh x hs
    obtain ⟨h, hh, hstep⟩ := Option.bind_eq_some_iff.mp hstep
    split at hstep
    · cases hstep
    · obtain ⟨st1, hst1, hstep⟩ := Option.bind_eq_some_iff.mp hstep
      refine ⟨oh, x, hs, ?_⟩
      rw [hashDeref_setSess, hst1]
      exact hstep
  · cases hstep

lemma hshWf_leave [DecidableEq D] (wf : HshWf st leak 0) (hstep : st.lookupHit s = some st') : HshWf st' leak 0 := by
  obtain ⟨oh, x, hs, hderef⟩ := lookupHit_cases hstep
  obtain ⟨o, ho, -⟩ := wf.hit s oh x hs
  have wf1 : HshWf (st.setSess s (.has x)) (fun k => leak k + ref (some oh) k) 0 :=
    hshWf_go wf hs (by simp) (sessFits_has ho) (fun k => rfl) (fun k => rfl)
  exact hshWf_hashDeref wf1 hderef (fun k => rfl)

lemma hshWf_ref (wf : HshWf st leak 0) (hstep : st.hshRef s x = some st') : HshWf st' leak 0 := by
  unfold hshRef at hstep
  split at hstep
  · cases hstep
  rename_i hidle
  push Not at hidle
  obtain ⟨o, ho, hstep⟩ := Option.bind_eq_some_iff.mp hstep
  split at hstep
  · cases hstep
  rename_i hpos
  obtain rfl := Option.some.inj hstep
  have wf1 : HshWf (st.setCore x (some { o with refcnt := o.refcnt + 1 })) leak (fun k => ref (some x) k) := by
    refine hshWf_setCore wf ho rfl (by simp; omega) ?_
    intro k
    by_cases hk : k = x
    · subst hk
      simp only [ref_self, if_true, Pi.zero_apply]
      omega
    · simp [hk, ref_of_ne (show some x ≠ some k by simpa using Ne.symm hk)]
  have ho1 : (st.setCore x (some { o with refcnt := o.refcnt + 1 })).cores x =
      some { o with refcnt := o.refcnt + 1 } := by simp
  exact hshWf_go wf1 hidle (by simp) (sessFits_has ho1) (fun k => rfl) (fun k => by simp [HshSess.objcore])

lemma hshRush_setHead (st : HshState D) (oh : Nat) (h : Objhead D) (rush : Rush) :
    (st.setHead oh (some h)).hshRush oh h rush = st.hshRush oh h rush := by
  rw [hshRush_eq, hshRush_eq]
  simp only [HshState.setHead, Function.update_idem]

lemma hshUnbusy_cases (hstep : st.hshUnbusy s rush = some st') :
    ∃ x o h, st.sess s = .has x ∧ st.cores x = some o ∧ st.heads o.objhead = some h ∧ o.busy = true ∧
      0 < o.refcnt ∧ st' = (st.setCore x (some { o with busy := false })).hshRush o.objhead
        { h with objcs := x :: h.objcs.erase x } rush := by
  unfold hshUnbusy at hstep
  split at hstep
  · rename_i x hs
    obtain ⟨o, ho, hstep⟩ := Option.bind_eq_some_iff.mp hstep
    obtain ⟨h, hh, hstep⟩ := Option.bind_eq_some_iff.mp hstep
    split at hstep
    · cases hstep
    · rename_i hok
      push Not at hok
      refine ⟨x, o, h, hs, ho, hh, by simpa using hok.1, by omega, (Option.some.inj hstep).symm⟩
  · cases hstep

lemma hshWf_unbusy (wf : HshWf st leak 0) (ho : st.cores x = some o) (hh : st.heads o.objhead = some h)
    (hpos : 0 < o.refcnt) :
    HshWf ((st.setCore x (some { o with busy := false })).setHead o.objhead
      (some { h with objcs := x :: h.objcs.erase x })) leak 0 := by
  have hmem : x ∈ h.objcs := (wf.objcs _ h x hh).mpr ⟨o, ho, rfl, hpos⟩
  have wf1 : HshWf (st.setCore x (some { o with busy := false })) leak 0 :=
    hshWf_setCore wf ho rfl Iff.rfl (fun k => rfl)
  exact hshWf_setHead wf1 hh ⟨rfl, wf.pos _ h hh, (List.perm_cons_erase hmem).symm,
    fun s' hs' => wf.waiting _ h s' hh hs', wf.parked _ h hh⟩ (fun k => rfl)

/-- What `HSH_Deref` comes to. -/
lemma hshDeref_cases (hstep : st.hshDeref s rush = some st') :
    ∃ x o h, st.sess s = .has x ∧ st.cores x = some o ∧ st.heads o.objhead = some h ∧
      ((o.refcnt = 1 ∧ st' = ((st.setCore x (some { o with refcnt := 0 })).setSess s (.dropping x)).hshRush o.objhead
        { h with objcs := h.objcs.erase x } rush) ∨
      (1 < o.refcnt ∧ st' = ((st.setCore x (some { o with refcnt := o.refcnt - 1 })).setSess s .idle).hshRush
        o.objhead h rush)) := by
  unfold hshDeref at hstep
  split at hstep
  · rename_i x hs
    obtain ⟨o, ho, hstep⟩ := Option.bind_eq_some_iff.mp hstep
    obtain ⟨h, hh, hstep⟩ := Option.bind_eq_some_iff.mp hstep
    refine ⟨x, o, h, hs, ho, hh, ?_⟩
    split at hstep
    · cases hstep
    · rename_i hok
      push Not at hok
      dsimp only at hstep
      split at hstep
      · rename_i hone
        rw [hone] at hstep
        exact Or.inl ⟨hone, (Option.some.inj hstep).symm⟩
      · exact Or.inr ⟨by omega, (Option.some.inj hstep).symm⟩
  · cases hstep

lemma hshWf_last (wf : HshWf st leak 0) (hs : st.sess s = .has x) (ho : st.cores x = some o)
    (hh : st.heads o.objhead = some h) (hone : o.refcnt = 1) :
    HshWf (((st.setCore x (some { o with refcnt := 0 })).setSess s (.dropping x)).setHead o.objhead
      (some { h with objcs := h.objcs.erase x })) leak 0 := by
  have wf1 : HshWf (st.setSess s .idle) leak (fun k => ref (some x) k) :=
    hshWf_go wf hs (by simp) (sessFits_idle st s) (fun k => rfl) (fun k => by simp [HshSess.objcore])
  let st2 := ((st.setSess s .idle).setCore x (some { o with refcnt := 0 })).setHead o.objhead
    (some { h with objcs := h.objcs.erase x })
  have wf2 : HshWf st2 leak 0 := hshWf_unlink wf1 ho hh hone (fun k => by simp)
  have hs2 : st2.sess s = .idle := by simp [st2]
  have hno : ∀ s', st.sess s' ≠ .dropping x := by
    intro s' hs'
    obtain ⟨o', ho', hzero⟩ := wf.dropping s' x hs'
    rw [ho] at ho'
    rw [← Option.some.inj ho', hone] at hzero
    cases hzero
  have fits : SessFits st2 s (.dropping x) := by
    refine ⟨by simp [HshSess.objhead], by simp [HshSess.objcore], by simp, ?_, ?_⟩
    · intro y hy
      obtain rfl := HshSess.dropping.inj hy
      exact ⟨{ o with refcnt := 0 }, by simp [st2], rfl⟩
    · intro s' y hy hs'
      obtain rfl := HshSess.dropping.inj hy
      by_contra hne
      simp [st2, hne] at hs'
      exact hno s' hs'
  have wf3 : HshWf (st2.setSess s (.dropping x)) leak 0 := hshWf_go wf2 hs2 (by simp) fits (fun k => rfl) (fun k => rfl)
  simpa [st2, HshState.setSess, HshState.setHead, HshState.setCore] using wf3

lemma hshWf_more (wf : HshWf st leak 0) (hs : st.sess s = .has x) (ho : st.cores x = some o) (hmore : 1 < o.refcnt) :
    HshWf ((st.setCore x (some { o with refcnt := o.refcnt - 1 })).setSess s .idle) leak 0 := by
  have wf1 : HshWf (st.setSess s .idle) leak (fun k => ref (some x) k) :=
    hshWf_go wf hs (by simp) (sessFits_idle st s) (fun k => rfl) (fun k => by simp [HshSess.objcore])
  refine hshWf_setCore wf1 ho rfl (by simp; omega) ?_
  intro k
  by_cases hk : k = x
  · subst hk
    simp only [ref_self, if_true, Pi.zero_apply]
    omega
  · simp [hk, ref_of_ne (show some x ≠ some k by simpa using Ne.symm hk)]

lemma hshWf_free [DecidableEq D] (wf : HshWf st leak 0) (hstep : st.hshFree s = some st') : HshWf st' leak 0 := by
  unfold hshFree at hstep
  split at hstep
  · rename_i x hs
    obtain ⟨o, ho, hstep⟩ := Option.bind_eq_some_iff.mp hstep
    obtain ⟨o', ho', hzero⟩ := wf.dropping s x hs
    rw [ho] at ho'
    obtain rfl := Option.some.inj ho'
    have wf1 : HshWf (st.setSess s .idle) leak 0 :=
      hshWf_go wf hs (by simp) (sessFits_idle st s) (fun k => rfl) (fun k => rfl)
    have hno : ∀ s', (st.setSess s .idle).sess s' ≠ .dropping x := by
      intro s' hs'
      by_cases hne : s' = s
      · subst hne
        simp at hs'
      · simp only [sess_setSess, Function.update_of_ne hne] at hs'
        exact hne (wf.dropper s' s x hs' hs)
    have wf2 := hshWf_delCore wf1 ho hzero hno (fun k => rfl)
    exact hshWf_hashDeref wf2 hstep (fun k => rfl)
  · cases hstep

/-- The references without a holder after a step. -/
def leakAfter (leak : Nat → Nat) (st : HshState D) (a : HshAct D) : Nat → Nat :=
  match st.rushed a with
  | none => leak
  | some (oh, wl, rush) => leakRush leak oh wl rush

lemma leakAfter_rush {a : HshAct D} (ha : a = .unbusy s rush ∨ a = .deref s rush) (hs : st.sess s = .has x)
    (ho : st.cores x = some o) (hh : st.heads o.objhead = some h) :
    leakAfter leak st a = leakRush leak o.objhead (waiters h) rush := by
  have hat : st.waitersAt s = h.waitinglist.map (fun wl => (o.objhead, wl)) := by
    simp only [waitersAt, hs, ho, hh, Option.bind_eq_bind, Option.bind_some]
    cases h.waitinglist <;> rfl
  have hr : st.rushed a = h.waitinglist.map (fun wl => (o.objhead, wl, rush)) := by
    rcases ha with rfl | rfl <;> simp [rushed, hat, Function.comp_def]
  cases hwl : h.waitinglist with
  | none =>
    rw [leakAfter, hr, hwl, leakRush, waiters, hwl]
    cases rush.exponent <;> rfl
  | some wl =>
    rw [leakAfter, hr, hwl, waiters, hwl]
    rfl

/-- A step keeps the invariant, and books the reference of a session that it deletes. -/
lemma hshWf_step [DecidableEq D] {a : HshAct D} (wf : HshWf st leak 0) (hstep : st.step a = some st') :
    HshWf st' (leakAfter leak st a) 0 := by
  cases a with
  | enter s digest noh => exact hshWf_enter wf hstep
  | again s => exact hshWf_again wf hstep
  | scan s env noc => exact hshWf_scan wf hstep
  | leave s => exact hshWf_leave wf hstep
  | ref s x => exact hshWf_ref wf hstep
  | unbusy s rush =>
    obtain ⟨x, o, h, hs, ho, hh, -, hpos, rfl⟩ := hshUnbusy_cases hstep
    rw [leakAfter_rush (Or.inl rfl) hs ho hh, ← hshRush_setHead]
    exact hshWf_rush (hshWf_unbusy wf ho hh hpos) (by simp) rush
  | deref s rush =>
    obtain ⟨x, o, h, hs, ho, hh, ⟨hone, rfl⟩ | ⟨hmore, rfl⟩⟩ := hshDeref_cases hstep
    · rw [leakAfter_rush (Or.inr rfl) hs ho hh, ← hshRush_setHead]
      exact hshWf_rush (hshWf_last wf hs ho hh hone) (by simp) rush
    · rw [leakAfter_rush (Or.inr rfl) hs ho hh]
      exact hshWf_rush (hshWf_more wf hs ho hmore) hh rush
  | free s => exact hshWf_free wf hstep

end VarnishCache.Proofs
