import VarnishCache.Lib.RefCount
import VarnishCache.VclConf

/-!
# The life of a VCL

References go between sessions and workers, and `conf->busy` counts them. A discarded VCL is never active, so it can only
lose references, and the CLI thread, which alone nukes VCLs, sees its count fall to zero and stay there.
-/

namespace VarnishCache.Proofs
open RefCount

variable {s s' s1 : VclState} {vcl : Nat}

structure VclInv (s : VclState) : Prop where
  counted : ∀ vcl v, s.vcls vcl = some v → refs s.holding vcl + (0 : ℕ) = v.busy
  held : ∀ i vcl, s.holding i = some vcl → ∃ v, s.vcls vcl = some v
  active : ∀ vcl, s.active = some vcl → ∃ v, s.vcls vcl = some v ∧ v.discard = false
  listed : ∀ vcl, vcl ∈ s.head ↔ ∃ v, s.vcls vcl = some v
  discarded : ∀ vcl, s.cli = .discard vcl → ∃ v, s.vcls vcl = some v ∧ v.discard = true

/-! ## References -/

lemma holding_setWrk (w : Nat) (v : VclWrk) :
    (s.setWrk w v).holding = Function.update s.holding (.wrk w) v.vcl := by
  funext i
  cases i with
  | sess sp => rw [Function.update_of_ne (by simp)]; rfl
  | wrk w' =>
    by_cases h : w' = w
    · subst h
      simp [VclState.holding, VclState.setWrk]
    · simp [VclState.holding, VclState.setWrk, h]

lemma holding_setSess (sp : Nat) (v : Option Nat) :
    (s.setSess sp v).holding = Function.update s.holding (.sess sp) v := by
  funext i
  cases i with
  | wrk w => rw [Function.update_of_ne (by simp)]; rfl
  | sess sp' =>
    by_cases h : sp' = sp
    · subst h
      simp [VclState.holding, VclState.setSess]
    · simp [VclState.holding, VclState.setSess, h]

lemma rel_cases (h : s.rel vcl = some s') :
    ∃ v, s.vcls vcl = some v ∧ 0 < v.busy ∧ s' = s.setVcls vcl { v with busy := v.busy - 1 } := by
  unfold VclState.rel at h
  split at h
  next => cases h
  next v hv =>
    split at h
    next => cases h
    next hbusy =>
      cases h
      exact ⟨v, hv, Nat.pos_of_ne_zero hbusy, rfl⟩

lemma takeRef_cases (h : s.takeRef vcl = some s') :
    ∃ v, s.vcls vcl = some v ∧ v.discard = false ∧ s' = s.setVcls vcl { v with busy := v.busy + 1 } := by
  unfold VclState.takeRef at h
  split at h
  next => cases h
  next v hv =>
    split at h
    next => cases h
    next hdisc =>
      cases h
      exact ⟨v, hv, by simpa using hdisc, rfl⟩

/-- One holder turns to another VCL or to none, and the counts go along. -/
lemma VclInv.turn (h : VclInv s) (i : VclHolder) (next : Option Nat)
    (hhold : s'.holding = Function.update s.holding i next)
    (hnext : ∀ vcl, next = some vcl → ∃ v, s'.vcls vcl = some v)
    (hvcls : ∀ vcl, (∀ v, s.vcls vcl = some v → ∃ v', s'.vcls vcl = some v' ∧ v'.discard = v.discard ∧
        v'.busy + ref (s.holding i) vcl = v.busy + ref next vcl) ∧
      (s.vcls vcl = none → s'.vcls vcl = none))
    (hhead : s'.head = s.head) (hactive : s'.active = s.active) (hcli : s'.cli = s.cli) : VclInv s' where
  counted := by
    intro vcl v hv
    cases hold : s.vcls vcl with
    | none =>
      rw [(hvcls vcl).2 hold] at hv
      cases hv
    | some v0 =>
      obtain ⟨v', hv', -, hbusy⟩ := (hvcls vcl).1 v0 hold
      obtain rfl : v = v' := Option.some.inj (hv.symm.trans hv')
      rw [hhold]
      refine balance (h.counted vcl v0 hold) (refs_update s.holding i next vcl) ?_
      omega
  held := by
    intro j vcl hj
    rw [hhold] at hj
    by_cases hji : j = i
    · subst hji
      rw [Function.update_self] at hj
      exact hnext vcl hj
    · rw [Function.update_of_ne hji] at hj
      obtain ⟨v, hv⟩ := h.held j vcl hj
      obtain ⟨v', hv', -⟩ := (hvcls vcl).1 v hv
      exact ⟨v', hv'⟩
  active := by
    intro vcl ha
    rw [hactive] at ha
    obtain ⟨v, hv, hd⟩ := h.active vcl ha
    obtain ⟨v', hv', hd', -⟩ := (hvcls vcl).1 v hv
    exact ⟨v', hv', hd'.trans hd⟩
  listed := by
    intro vcl
    rw [hhead, h.listed]
    constructor
    · rintro ⟨v, hv⟩
      obtain ⟨v', hv', -⟩ := (hvcls vcl).1 v hv
      exact ⟨v', hv'⟩
    · rintro ⟨v', hv'⟩
      cases hold : s.vcls vcl with
      | none =>
        rw [(hvcls vcl).2 hold] at hv'
        cases hv'
      | some v => exact ⟨v, rfl⟩
  discarded := by
    intro vcl hc
    rw [hcli] at hc
    obtain ⟨v, hv, hd⟩ := h.discarded vcl hc
    obtain ⟨v', hv', hd', -⟩ := (hvcls vcl).1 v hv
    exact ⟨v', hv', hd'.trans hd⟩

/-- A reference goes from one holder to another. -/
lemma VclInv.move (h : VclInv s) {i j : VclHolder} (hi : s.holding i = some vcl) (hj : s.holding j = none)
    (hhold : s'.holding = Function.update (Function.update s.holding i none) j (some vcl)) (hvcls : s'.vcls = s.vcls)
    (hhead : s'.head = s.head) (hactive : s'.active = s.active) (hcli : s'.cli = s.cli) : VclInv s' where
  counted := by
    intro a v hv
    rw [hvcls] at hv
    have hj' : Function.update s.holding i none j = none := by
      by_cases hji : j = i
      · rw [hji, Function.update_self]
      · rw [Function.update_of_ne hji, hj]
    have hsecond := refs_update (Function.update s.holding i none) j (some vcl) a
    have hfirst := refs_update s.holding i none a
    rw [hj', ← hhold] at hsecond
    rw [hi] at hfirst
    have heq : refs s'.holding a = refs s.holding a := by
      simpa using hsecond.trans hfirst
    rw [heq]
    exact h.counted a v hv
  held := by
    intro k a hk
    rw [hvcls]
    rw [hhold] at hk
    by_cases hkj : k = j
    · subst hkj
      rw [Function.update_self] at hk
      cases hk
      exact h.held i vcl hi
    · rw [Function.update_of_ne hkj] at hk
      by_cases hki : k = i
      · subst hki
        rw [Function.update_self] at hk
        cases hk
      · rw [Function.update_of_ne hki] at hk
        exact h.held k a hk
  active := by
    intro a ha
    rw [hvcls]
    exact h.active a (hactive ▸ ha)
  listed := by
    intro a
    rw [hhead, hvcls]
    exact h.listed a
  discarded := by
    intro a ha
    rw [hvcls]
    exact h.discarded a (hcli ▸ ha)

/-- `VCL_Rel`. -/
lemma VclInv.rel (h : VclInv s) {i : VclHolder} (hi : s.holding i = some vcl) (hrel : s.rel vcl = some s1)
    (hhold : s'.holding = Function.update s.holding i none) (hvcls : s'.vcls = s1.vcls)
    (hhead : s'.head = s.head) (hactive : s'.active = s.active) (hcli : s'.cli = s.cli) : VclInv s' := by
  obtain ⟨v, hv, hpos, rfl⟩ := rel_cases hrel
  refine h.turn i none hhold (fun a ha => by cases ha) ?_ hhead hactive hcli
  intro a
  rw [hvcls, hi]
  by_cases ha : a = vcl
  · subst ha
    refine ⟨?_, fun hnone => absurd (hv.symm.trans hnone) (by simp)⟩
    intro u hu
    obtain rfl : v = u := Option.some.inj (hv.symm.trans hu)
    refine ⟨_, Function.update_self _ _ _, rfl, ?_⟩
    simp only [ref_self, ref_none]
    omega
  · simp only [VclState.setVcls, Function.update_of_ne ha]
    refine ⟨fun u hu => ⟨u, hu, rfl, ?_⟩, fun hnone => hnone⟩
    rw [ref_of_ne (by simpa using fun h => ha h.symm), ref_none]

/-- `VCL_Get`. -/
lemma VclInv.takeRef (h : VclInv s) {i : VclHolder} (hi : s.holding i = none) (htake : s.takeRef vcl = some s1)
    (hhold : s'.holding = Function.update s.holding i (some vcl)) (hvcls : s'.vcls = s1.vcls)
    (hhead : s'.head = s.head) (hactive : s'.active = s.active) (hcli : s'.cli = s.cli) : VclInv s' := by
  obtain ⟨v, hv, hdisc, rfl⟩ := takeRef_cases htake
  refine h.turn i (some vcl) hhold ?_ ?_ hhead hactive hcli
  · intro a ha
    cases ha
    rw [hvcls]
    exact ⟨_, Function.update_self _ _ _⟩
  intro a
  rw [hvcls, hi]
  by_cases ha : a = vcl
  · subst ha
    refine ⟨?_, fun hnone => absurd (hv.symm.trans hnone) (by simp)⟩
    intro u hu
    obtain rfl : v = u := Option.some.inj (hv.symm.trans hu)
    refine ⟨_, Function.update_self _ _ _, rfl, ?_⟩
    simp only [ref_self, ref_none]
  · simp only [VclState.setVcls, Function.update_of_ne ha]
    refine ⟨fun u hu => ⟨u, hu, rfl, ?_⟩, fun hnone => hnone⟩
    rw [ref_none, ref_of_ne (by simpa using fun h => ha h.symm)]

/-! ## The CLI -/

lemma find_cases {name : String} (h : s.find name = some vcl) :
    vcl ∈ s.head ∧ ∃ v, s.vcls vcl = some v ∧ v.discard = false := by
  have hsome := List.find?_some h
  refine ⟨List.mem_of_find?_eq_some h, ?_⟩
  cases hv : s.vcls vcl with
  | none => simp [hv] at hsome
  | some v =>
    simp only [hv, Bool.and_eq_true] at hsome
    exact ⟨v, rfl, by simpa using hsome.1⟩

/-- Nobody has a VCL that is not busy. -/
lemma VclInv.not_held (h : VclInv s) {v : Vcls} (hv : s.vcls vcl = some v) (hbusy : v.busy = 0) (i : VclHolder) :
    s.holding i ≠ some vcl := by
  have hcount := h.counted vcl v hv
  rw [hbusy] at hcount
  exact refs_eq_zero.mp (by simpa using hcount) i

lemma VclInv.nuke (h : VclInv s) {test : Vcls → Bool} {v : Vcls} {cli : VclCli} (hv : s.vcls vcl = some v)
    (hidle : (test v && v.busy == 0) = true) (htest : test v = true → v.discard = true) (hcli : ∀ a, cli ≠ .discard a) :
    VclInv { s.nuke vcl with cli := cli } := by
  rw [Bool.and_eq_true, beq_iff_eq] at hidle
  have hnot := h.not_held hv hidle.2
  have hvcls : ∀ a u, (s.nuke vcl).vcls a = some u → a ≠ vcl ∧ s.vcls a = some u := by
    intro a u hu
    by_cases ha : a = vcl
    · subst ha
      simp [VclState.nuke] at hu
    · simp only [VclState.nuke, Function.update_of_ne ha] at hu
      exact ⟨ha, hu⟩
  have hkeep : ∀ a u, a ≠ vcl → s.vcls a = some u → (s.nuke vcl).vcls a = some u := by
    intro a u ha hu
    simp only [VclState.nuke, Function.update_of_ne ha]
    exact hu
  refine ⟨?_, ?_, ?_, ?_, fun a ha => absurd ha (hcli a)⟩
  · intro a u hu
    exact h.counted a u (hvcls a u hu).2
  · intro i a hi
    obtain ⟨u, hu⟩ := h.held i a hi
    refine ⟨u, hkeep a u ?_ hu⟩
    rintro rfl
    exact hnot i hi
  · intro a ha
    obtain ⟨u, hu, hd⟩ := h.active a ha
    refine ⟨u, hkeep a u ?_ hu, hd⟩
    rintro rfl
    obtain rfl : v = u := Option.some.inj (hv.symm.trans hu)
    rw [htest hidle.1] at hd
    cases hd
  · intro a
    simp only [VclState.nuke, List.mem_filter, decide_eq_true_eq, h.listed a]
    constructor
    · rintro ⟨⟨u, hu⟩, ha⟩
      exact ⟨u, hkeep a u ha hu⟩
    · rintro ⟨u, hu⟩
      exact ⟨⟨u, (hvcls a u hu).2⟩, (hvcls a u hu).1⟩

/-- A discarded VCL that is not busy is nuked. -/
lemma VclInv.nukeIdle (h : VclInv s) {test : Vcls → Bool} {cli : VclCli}
    (htest : ∀ v, s.vcls vcl = some v → test v = true → v.discard = true) (hcli : ∀ a, cli ≠ .discard a) :
    VclInv { s.nukeIdle test vcl with cli := cli } := by
  have hsame : VclInv { s with cli := cli } := ⟨h.counted, h.held, h.active, h.listed, fun a ha => absurd ha (hcli a)⟩
  unfold VclState.nukeIdle
  cases hv : s.vcls vcl with
  | none => exact hsame
  | some v =>
    simp only
    split
    next hidle => exact h.nuke hv hidle (htest v hv) hcli
    next => exact hsame

lemma VclInv.load (h : VclInv s) {name : String} (hcli : s.cli = .idle) (hfree : s.vcls vcl = none) :
    VclInv { s.setVcls vcl { name := name, discard := false, busy := 0 } with
      head := s.head ++ [vcl], active := some (s.active.getD vcl) } := by
  have hother : ∀ a u, s.vcls a = some u → a ≠ vcl := by
    rintro a u hu rfl
    rw [hfree] at hu
    cases hu
  have hkeep : ∀ a u, s.vcls a = some u →
      (s.setVcls vcl { name := name, discard := false, busy := 0 }).vcls a = some u := by
    intro a u hu
    simp only [VclState.setVcls, Function.update_of_ne (hother a u hu)]
    exact hu
  refine ⟨?_, ?_, ?_, ?_, ?_⟩
  · intro a u hu
    by_cases ha : a = vcl
    · subst ha
      simp only [VclState.setVcls, Function.update_self, Option.some.injEq] at hu
      subst hu
      simp only [Nat.cast_zero, add_zero]
      refine refs_eq_zero.mpr ?_
      intro i hi
      obtain ⟨u, hu⟩ := h.held i a hi
      exact hother a u hu rfl
    · simp only [VclState.setVcls, Function.update_of_ne ha] at hu
      exact h.counted a u hu
  · intro i a hi
    obtain ⟨u, hu⟩ := h.held i a hi
    exact ⟨u, hkeep a u hu⟩
  · intro a ha
    simp only [Option.some.injEq] at ha
    cases hactive : s.active with
    | none =>
      rw [hactive, Option.getD_none] at ha
      subst ha
      exact ⟨_, Function.update_self _ _ _, rfl⟩
    | some b =>
      rw [hactive, Option.getD_some] at ha
      subst ha
      obtain ⟨u, hu, hd⟩ := h.active b hactive
      exact ⟨u, hkeep b u hu, hd⟩
  · intro a
    simp only [List.mem_append, List.mem_singleton, h.listed a]
    constructor
    · rintro (⟨u, hu⟩ | rfl)
      · exact ⟨u, hkeep a u hu⟩
      · exact ⟨_, Function.update_self _ _ _⟩
    · rintro ⟨u, hu⟩
      by_cases ha : a = vcl
      · exact Or.inr ha
      · simp only [VclState.setVcls, Function.update_of_ne ha] at hu
        exact Or.inl ⟨u, hu⟩
  · intro a ha
    have hc : s.cli = .discard a := ha
    rw [hcli] at hc
    cases hc

lemma VclInv.discard (h : VclInv s) {v : Vcls} (hv : s.vcls vcl = some v) (hne : s.active ≠ some vcl) :
    VclInv { s.setVcls vcl { v with discard := true } with cli := .discard vcl } := by
  refine ⟨?_, ?_, ?_, ?_, ?_⟩
  · intro a u hu
    by_cases ha : a = vcl
    · subst ha
      simp only [VclState.setVcls, Function.update_self, Option.some.injEq] at hu
      subst hu
      exact h.counted a v hv
    · simp only [VclState.setVcls, Function.update_of_ne ha] at hu
      exact h.counted a u hu
  · intro i a hi
    obtain ⟨u, hu⟩ := h.held i a hi
    by_cases ha : a = vcl
    · subst ha
      exact ⟨_, Function.update_self _ _ _⟩
    · refine ⟨u, ?_⟩
      simp only [VclState.setVcls, Function.update_of_ne ha]
      exact hu
  · intro a ha
    obtain ⟨u, hu, hd⟩ := h.active a ha
    refine ⟨u, ?_, hd⟩
    have hav : a ≠ vcl := by
      rintro rfl
      exact hne ha
    simp only [VclState.setVcls, Function.update_of_ne hav]
    exact hu
  · intro a
    simp only [VclState.setVcls, h.listed a]
    by_cases ha : a = vcl
    · subst ha
      simp only [Function.update_self]
      exact ⟨fun _ => ⟨_, rfl⟩, fun _ => ⟨v, hv⟩⟩
    · simp only [Function.update_of_ne ha]
  · intro a ha
    cases ha
    exact ⟨_, Function.update_self _ _ _, rfl⟩

lemma VclInv.cliStep (h : VclInv s) {c : VclStep} (hcli : s.cli = .idle) (hstep : s.cliStep c = some s') :
    VclInv s' := by
  cases c with
  | load name vcl =>
    simp only [VclState.cliStep] at hstep
    split at hstep
    next =>
      cases hstep
      exact h
    next =>
      cases hstep
      exact h
    next vcl _ _ =>
      split at hstep
      next => cases hstep
      next hfree =>
        cases hstep
        exact h.load hcli (by simpa using hfree)
  | use name =>
    simp only [VclState.cliStep] at hstep
    split at hstep
    next =>
      cases hstep
      exact h
    next vcl hfind =>
      cases hstep
      refine ⟨h.counted, h.held, ?_, h.listed, h.discarded⟩
      intro a ha
      cases ha
      exact (find_cases hfind).2
  | discard name =>
    simp only [VclState.cliStep] at hstep
    split at hstep
    next =>
      cases hstep
      exact h
    next vcl hfind =>
      split at hstep
      next =>
        cases hstep
        exact h
      next hne =>
        split at hstep
        next => cases hstep
        next v hv =>
          cases hstep
          exact h.discard hv hne
  | poll =>
    cases hstep
    exact ⟨h.counted, h.held, h.active, h.listed, fun a ha => (by cases ha)⟩
  | _ => cases hstep

/-! ## Runs -/

lemma VclInv.step (h : VclInv s) {c : VclStep} (hstep : s.step c = some s') : VclInv s' := by
  have hcommand : ∀ c, (if s.cli = .idle then s.cliStep c else none) = some s' → VclInv s' := by
    intro c hc
    split at hc
    next hcli => exact h.cliStep hcli hc
    next => cases hc
  cases c with
  | load name vcl => exact hcommand _ hstep
  | use name => exact hcommand _ hstep
  | discard name => exact hcommand _ hstep
  | poll => exact hcommand _ hstep
  | discardNuke =>
    simp only [VclState.step] at hstep
    split at hstep
    next vcl hcli =>
      cases hstep
      refine h.nukeIdle ?_ (fun a ha => by cases ha)
      intro v hv _
      obtain ⟨u, hu, hd⟩ := h.discarded vcl hcli
      obtain rfl : v = u := Option.some.inj (hv.symm.trans hu)
      exact hd
    next => cases hstep
  | pollNext =>
    simp only [VclState.step] at hstep
    split at hstep
    next vcl rest hcli =>
      cases hstep
      exact h.nukeIdle (fun v _ hd => hd) (fun a ha => by cases ha)
    next => cases hstep
  | pollEnd =>
    simp only [VclState.step] at hstep
    split at hstep
    next =>
      cases hstep
      exact ⟨h.counted, h.held, h.active, h.listed, fun a ha => (by cases ha)⟩
    next => cases hstep
  | refresh w =>
    simp only [VclState.step] at hstep
    split at hstep
    next vcl hw =>
      have hsame : ∀ v : VclWrk, v.vcl = vcl → VclInv (s.setWrk w v) := by
        intro v hv
        have hhold : (s.setWrk w v).holding = s.holding := by
          rw [holding_setWrk, hv]
          have hold : s.holding (.wrk w) = vcl := by simp [VclState.holding, hw, VclWrk.vcl]
          rw [← hold, Function.update_eq_self]
        exact ⟨by rw [hhold]; exact h.counted, by rw [hhold]; exact h.held, h.active, h.listed, h.discarded⟩
      split at hstep
      next =>
        cases hstep
        exact hsame _ rfl
      next vcl =>
        cases hstep
        refine hsame _ ?_
        split <;> rfl
    next => cases hstep
  | refreshRel w =>
    simp only [VclState.step] at hstep
    split at hstep
    next vcl hw =>
      obtain ⟨s1, hrel, rfl⟩ := Option.map_eq_some_iff.mp hstep
      have hi : s.holding (.wrk w) = some vcl := by simp [VclState.holding, hw, VclWrk.vcl]
      obtain ⟨v, hv, hpos, rfl⟩ := rel_cases hrel
      exact h.rel hi hrel (holding_setWrk w .get) rfl rfl rfl rfl
    next => cases hstep
  | get w =>
    simp only [VclState.step] at hstep
    split at hstep
    next vcl hw hactive =>
      obtain ⟨s1, htake, rfl⟩ := Option.map_eq_some_iff.mp hstep
      have hi : s.holding (.wrk w) = none := by simp [VclState.holding, hw, VclWrk.vcl]
      obtain ⟨v, hv, hd, rfl⟩ := takeRef_cases htake
      exact h.takeRef hi htake (holding_setWrk w (.fresh vcl)) rfl rfl rfl rfl
    next => cases hstep
  | start w sp =>
    simp only [VclState.step] at hstep
    split at hstep
    next vcl hw hsp =>
      cases hstep
      have hi : s.holding (.wrk w) = some vcl := by simp [VclState.holding, hw, VclWrk.vcl]
      refine h.move hi (j := .sess sp) hsp ?_ rfl rfl rfl rfl
      rw [holding_setWrk, holding_setSess, Function.update_comm (by simp)]
      rfl
    next => cases hstep
  | wrkRel w =>
    simp only [VclState.step] at hstep
    split at hstep
    next vcl hw =>
      obtain ⟨s1, hrel, rfl⟩ := Option.map_eq_some_iff.mp hstep
      have hi : s.holding (.wrk w) = some vcl := by simp [VclState.holding, hw, VclWrk.vcl]
      obtain ⟨v, hv, hpos, rfl⟩ := rel_cases hrel
      exact h.rel hi hrel (holding_setWrk w (.has none)) rfl rfl rfl rfl
    next => cases hstep
  | done w sp =>
    simp only [VclState.step] at hstep
    split at hstep
    next vcl hw hsp =>
      cases hstep
      have hj : s.holding (.wrk w) = none := by simp [VclState.holding, hw, VclWrk.vcl]
      refine h.move (i := .sess sp) hsp hj ?_ rfl rfl rfl rfl
      rw [holding_setSess, holding_setWrk, Function.update_comm (by simp)]
      rfl
    next => cases hstep
  | sessRel sp =>
    simp only [VclState.step] at hstep
    split at hstep
    next vcl hsp =>
      obtain ⟨s1, hrel, rfl⟩ := Option.map_eq_some_iff.mp hstep
      obtain ⟨v, hv, hpos, rfl⟩ := rel_cases hrel
      exact h.rel (i := .sess sp) hsp hrel (holding_setSess sp none) rfl rfl rfl rfl
    next => cases hstep

lemma vclInv_init : VclInv VclState.init := by
  refine ⟨fun _ _ hv => (by cases hv), ?_, fun _ ha => (by cases ha), ?_, fun _ ha => (by cases ha)⟩
  · intro i vcl hi
    cases i with
    | sess sp => cases hi
    | wrk w => cases hi
  · intro vcl
    simp [VclState.init]

lemma VclInv.run (h : VclInv s) {cs : List VclStep} (hrun : s.run cs = some s') : VclInv s' := by
  induction cs generalizing s with
  | nil =>
    cases hrun
    exact h
  | cons c cs ih =>
    obtain ⟨s1, hstep, hrest⟩ := Option.bind_eq_some_iff.mp hrun
    exact ih (h.step hstep) hrest

/-! ## Polling -/

/-- `VCL_Poll` is under way, and this VCL is nuked or it will be. -/
def Doomed (vcl : Nat) (s : VclState) : Prop :=
  ∃ rest, s.cli = .poll rest ∧
    (s.vcls vcl = none ∨ ∃ v, s.vcls vcl = some v ∧ v.discard = true ∧ v.busy = 0 ∧ vcl ∈ rest)

lemma Doomed.of_eq (h : Doomed vcl s) (hcli : s'.cli = s.cli) (hvcls : s'.vcls vcl = s.vcls vcl) : Doomed vcl s' := by
  obtain ⟨rest, hrest, hcase⟩ := h
  exact ⟨rest, hcli.trans hrest, by rw [hvcls]; exact hcase⟩

lemma Doomed.of_rel (h : Doomed vcl s) {a : Nat} (hrel : s.rel a = some s1) (hcli : s'.cli = s1.cli)
    (hvcls : s'.vcls = s1.vcls) : Doomed vcl s' := by
  obtain ⟨v, hv, hpos, rfl⟩ := rel_cases hrel
  refine h.of_eq hcli ?_
  rw [hvcls, VclState.setVcls]
  refine Function.update_of_ne ?_ _ _
  rintro rfl
  obtain ⟨rest, -, hnone | ⟨u, hu, -, h0, -⟩⟩ := h
  · rw [hnone] at hv
    cases hv
  · obtain rfl : v = u := Option.some.inj (hv.symm.trans hu)
    omega

lemma Doomed.of_takeRef (h : Doomed vcl s) {a : Nat} (htake : s.takeRef a = some s1) (hcli : s'.cli = s1.cli)
    (hvcls : s'.vcls = s1.vcls) : Doomed vcl s' := by
  obtain ⟨v, hv, hd, rfl⟩ := takeRef_cases htake
  refine h.of_eq hcli ?_
  rw [hvcls, VclState.setVcls]
  refine Function.update_of_ne ?_ _ _
  rintro rfl
  obtain ⟨rest, -, hnone | ⟨u, hu, hd', -, -⟩⟩ := h
  · rw [hnone] at hv
    cases hv
  · obtain rfl : v = u := Option.some.inj (hv.symm.trans hu)
    rw [hd] at hd'
    cases hd'

lemma Doomed.pollNext (h : Doomed vcl s) {a : Nat} {rest : List Nat} (hcli : s.cli = .poll (a :: rest)) :
    Doomed vcl { s.nukeIdle (·.discard) a with cli := .poll rest } := by
  refine ⟨rest, rfl, ?_⟩
  obtain ⟨rest', hrest', hcase⟩ := h
  rw [hcli] at hrest'
  cases hrest'
  by_cases ha : a = vcl
  · -- it is its turn, and it is not busy
    subst ha
    left
    rcases hcase with hnone | ⟨v, hv, hd, h0, -⟩
    · simp only [VclState.nukeIdle, hnone]
    · simp only [VclState.nukeIdle, hv, hd, h0, beq_self_eq_true, Bool.and_self, if_true,
        VclState.nuke, Function.update_self]
  · have hsame : (s.nukeIdle (·.discard) a).vcls vcl = s.vcls vcl := by
      unfold VclState.nukeIdle
      split
      · rfl
      · split
        · exact Function.update_of_ne (fun h => ha h.symm) _ _
        · rfl
    simp only [hsame]
    rcases hcase with hnone | ⟨v, hv, hd, h0, hmem⟩
    · exact Or.inl hnone
    · rcases List.mem_cons.mp hmem with rfl | hmem
      · exact absurd rfl ha
      · exact Or.inr ⟨v, hv, hd, h0, hmem⟩

lemma Doomed.step (h : Doomed vcl s) {c : VclStep} (hne : c ≠ .pollEnd) (hstep : s.step c = some s') :
    Doomed vcl s' := by
  have hcommand : ∀ c, (if s.cli = .idle then s.cliStep c else none) = some s' → Doomed vcl s' := by
    intro c hc
    obtain ⟨rest, hrest, -⟩ := h
    rw [hrest, if_neg (by simp)] at hc
    cases hc
  cases c with
  | load name vcl => exact hcommand _ hstep
  | use name => exact hcommand _ hstep
  | discard name => exact hcommand _ hstep
  | poll => exact hcommand _ hstep
  | pollEnd => exact absurd rfl hne
  | discardNuke =>
    obtain ⟨rest, hrest, -⟩ := h
    simp [VclState.step, hrest] at hstep
  | pollNext =>
    simp only [VclState.step] at hstep
    split at hstep
    next a rest hcli =>
      cases hstep
      exact h.pollNext hcli
    next => cases hstep
  | refresh w =>
    simp only [VclState.step] at hstep
    split at hstep
    next vcl hw =>
      split at hstep
      all_goals
        cases hstep
        exact h.of_eq rfl rfl
    next => cases hstep
  | refreshRel w =>
    simp only [VclState.step] at hstep
    split at hstep
    next =>
      obtain ⟨s1, hrel, rfl⟩ := Option.map_eq_some_iff.mp hstep
      exact h.of_rel hrel rfl rfl
    next => cases hstep
  | get w =>
    simp only [VclState.step] at hstep
    split at hstep
    next =>
      obtain ⟨s1, htake, rfl⟩ := Option.map_eq_some_iff.mp hstep
      exact h.of_takeRef htake rfl rfl
    next => cases hstep
  | start w sp =>
    simp only [VclState.step] at hstep
    split at hstep
    next =>
      cases hstep
      exact h.of_eq rfl rfl
    next => cases hstep
  | wrkRel w =>
    simp only [VclState.step] at hstep
    split at hstep
    next =>
      obtain ⟨s1, hrel, rfl⟩ := Option.map_eq_some_iff.mp hstep
      exact h.of_rel hrel rfl rfl
    next => cases hstep
  | done w sp =>
    simp only [VclState.step] at hstep
    split at hstep
    next =>
      cases hstep
      exact h.of_eq rfl rfl
    next => cases hstep
  | sessRel sp =>
    simp only [VclState.step] at hstep
    split at hstep
    next =>
      obtain ⟨s1, hrel, rfl⟩ := Option.map_eq_some_iff.mp hstep
      exact h.of_rel hrel rfl rfl
    next => cases hstep

lemma Doomed.run (h : Doomed vcl s) {cs : List VclStep} (hne : .pollEnd ∉ cs) (hrun : s.run cs = some s') :
    Doomed vcl s' := by
  induction cs generalizing s with
  | nil =>
    cases hrun
    exact h
  | cons c cs ih =>
    obtain ⟨s1, hstep, hrest⟩ := Option.bind_eq_some_iff.mp hrun
    refine ih (h.step ?_ hstep) (fun hmem => hne (List.mem_cons_of_mem c hmem)) hrest
    rintro rfl
    exact hne List.mem_cons_self

/-- A `VCL_Poll` that begins now nukes every discarded VCL that nobody has, whatever the sessions do until it is through
the list. -/
def PollNukes (s : VclState) : Prop :=
  ∀ s1 s2 cs vcl v, s.step .poll = some s1 → s1.run cs = some s2 → .pollEnd ∉ cs → s2.cli = .poll [] →
    s.vcls vcl = some v → v.discard = true → (∀ i, s.holding i ≠ some vcl) → s2.vcls vcl = none

lemma VclInv.pollNukes (h : VclInv s) : PollNukes s := by
  intro s1 s2 cs vcl v hpoll hrun hne hend hv hd hnot
  have h0 : v.busy = 0 := by
    have hcount := h.counted vcl v hv
    rw [refs_eq_zero.mpr hnot] at hcount
    exact_mod_cast hcount.symm
  have hdoomed : Doomed vcl s1 := by
    simp only [VclState.step] at hpoll
    split at hpoll
    next =>
      cases hpoll
      exact ⟨s.head, rfl, Or.inr ⟨v, hv, hd, h0, (h.listed vcl).mpr ⟨v, hv⟩⟩⟩
    next => cases hpoll
  obtain ⟨rest, hrest, hnone | ⟨u, -, -, -, hmem⟩⟩ := hdoomed.run hne hrun
  · exact hnone
  · rw [hend] at hrest
    cases hrest
    cases hmem

/-- `VCL_Rel` succeeds for whoever has the VCL. -/
lemma VclInv.gives (h : VclInv s) {i : VclHolder} (hi : s.holding i = some vcl) : ∃ s', s.rel vcl = some s' := by
  obtain ⟨v, hv⟩ := h.held i vcl hi
  have hcount := h.counted vcl v hv
  have hbusy : v.busy ≠ 0 := by
    intro h0
    rw [h0, Nat.cast_zero, add_zero] at hcount
    exact refs_eq_zero.mp hcount i hi
  refine ⟨s.setVcls vcl { v with busy := v.busy - 1 }, ?_⟩
  simp only [VclState.rel, hv, if_neg hbusy]

/-- In every state of every run, `conf->busy` is the number of sessions and workers that have the VCL, every VCL that
somebody has is there and can be given back, the active one is there and not discarded, and `VCL_Poll` nukes what is
discarded and free. -/
theorem vcl_life_cycle {cs : List VclStep} (hrun : VclState.init.run cs = some s) :
    (∀ vcl v, s.vcls vcl = some v → refs s.holding vcl = v.busy) ∧
      (∀ i vcl, s.holding i = some vcl → (∃ v, s.vcls vcl = some v) ∧ ∃ s', s.rel vcl = some s') ∧
      (∀ vcl, s.active = some vcl → ∃ v, s.vcls vcl = some v ∧ v.discard = false) ∧ PollNukes s := by
  have h := vclInv_init.run hrun
  refine ⟨?_, fun i vcl hi => ⟨h.held i vcl hi, h.gives hi⟩, h.active, h.pollNukes⟩
  intro vcl v hv
  simpa using h.counted vcl v hv

/-- A session has the first of two VCLs, which is discarded, polled, given back by way of the worker, and polled
again. -/
def discardRun : List VclStep :=
  [.load "a" (some 0), .refresh 7, .get 7, .start 7 3, .load "b" (some 1), .use "b",
    .discard "a", .discardNuke, .poll, .pollNext,
    .pollNext, .pollEnd, .done 7 3, .refresh 7, .refreshRel 7, .get 7, .poll, .pollNext, .pollNext, .pollEnd]

theorem vcl_life_cycle_discard :
    (∃ s, VclState.init.run (discardRun.take 12) = some s ∧ s.vcls 0 = some ⟨"a", true, 1⟩ ∧ s.holding (.sess 3) = some 0 ∧
      ∃ s', s.rel 0 = some s') ∧
      ∃ s, VclState.init.run discardRun = some s ∧ s.vcls 0 = none ∧ s.vcls 1 = some ⟨"b", false, 1⟩ ∧ s.active = some 1 ∧
        PollNukes s := by
  have hkept : VclState.init.run (discardRun.take 12) = some _ := rfl
  have hrun : VclState.init.run discardRun = some _ := rfl
  exact ⟨⟨_, hkept, by decide, rfl, ((vcl_life_cycle hkept).2.1 (.sess 3) 0 rfl).2⟩,
    _, hrun, by decide, by decide, by decide, (vcl_life_cycle hrun).2.2.2⟩

end VarnishCache.Proofs
