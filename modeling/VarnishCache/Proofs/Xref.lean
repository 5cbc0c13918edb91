import VarnishCache.Xref
import VarnishCache.Lib.CallGraph

/-!
# What the checks of subroutine calls accept

Both checks pass when everything that a method can reach is defined, does not reach itself, and returns and uses only
what the method may; and with `err_unref` when methods reach all subroutines.
-/

namespace VarnishCache.Proofs

open VarnishCache CallGraph Relation

variable {n : Nat} {vcl : VclProgram n} {st st' : XrefState n}

def Calls (vcl : VclProgram n) (p q : Fin n) : Prop := ∃ pc ∈ (vcl.proc p).calls, pc.p = q

def callees (vcl : VclProgram n) (p : Fin n) : List (Fin n) := (vcl.proc p).calls.map (·.p)

lemma calls_iff (p q : Fin n) : Calls vcl p q ↔ q ∈ callees vcl p := by
  rw [callees, List.mem_map]
  rfl

/-- What a recursion does from states of `I` at the procs of `D`: it fails unless `Good`, and otherwise adds `count`
calls, as an `unsigned`. -/
def RecSpec (recurse : XrefState n → Fin n → Option (Bool × XrefState n)) (I : XrefState n → Prop)
    (D Good : Fin n → Prop)
    (count : Fin n → Fin n → Nat) : Prop :=
  ∀ st p, I st → D p → ∃ b st', recurse st p = some (b, st') ∧ (b = false ↔ Good p) ∧
    (b = false → I st' ∧ st'.err = st.err ∧ ∀ q, st'.called q = st.called q + UInt32.ofNat (count p q))

lemma callLoop_spec {recurse : XrefState n → Fin n → Option (Bool × XrefState n)} {I : XrefState n → Prop}
    {D Good : Fin n → Prop} {count : Fin n → Fin n → Nat} (h : RecSpec recurse I D Good count) (name : String)
    (st : XrefState n) {calls : List (ProcCall n)} (hD : ∀ pc ∈ calls, D pc.p) (hI : I st) :
    ∃ b st', callLoop recurse name calls st = some (b, st') ∧ (b = false ↔ ∀ pc ∈ calls, Good pc.p) ∧
      (b = false → I st' ∧ st'.err = st.err ∧
        ∀ q, st'.called q = st.called q + UInt32.ofNat (calls.map fun pc => count pc.p q).sum) := by
  induction calls generalizing st with
  | nil => exact ⟨false, st, rfl, by simp, fun _ => ⟨hI, rfl, fun q => (UInt32.add_zero _).symm⟩⟩
  | cons pc calls ih =>
    obtain ⟨b, st1, hrec, hb, hpost⟩ := h st pc.p hI (hD pc List.mem_cons_self)
    cases b with
    | true =>
      have hbad : ¬ Good pc.p := fun hg => by simpa using hb.mpr hg
      refine ⟨true, _, by rw [callLoop, hrec], ?_, by simp⟩
      simp [hbad]
    | false =>
      obtain ⟨hI1, herr, hcalled⟩ := hpost rfl
      obtain ⟨b, st', hloop, hb', hpost'⟩ := ih st1 (fun x hx => hD x (List.mem_cons_of_mem pc hx)) hI1
      refine ⟨b, st', by rw [callLoop, hrec]; exact hloop, ?_, ?_⟩
      · rw [hb', List.forall_mem_cons]
        exact ⟨fun hall => ⟨hb.mp rfl, hall⟩, fun hall => hall.2⟩
      · intro hf
        obtain ⟨hI', herr', hcalled'⟩ := hpost' hf
        refine ⟨hI', herr'.trans herr, ?_⟩
        intro q
        rw [hcalled' q, hcalled q, UInt32.add_assoc, ← UInt32.ofNat_add, List.map_cons, List.sum_cons]

/-- What `vcc_CheckActionRecurse` wants of a proc. -/
def ActionOk (vcl : VclProgram n) (bitmap : BitVec 32) (p : Fin n) : Prop :=
  (vcl.proc p).defined = true ∧ (vcl.proc p).retBitmap &&& ~~~bitmap = 0

lemma reach_iff (p q : Fin n) : ReflTransGen (Calls vcl) p q ↔
    q = p ∨ ∃ pc ∈ (vcl.proc p).calls, ReflTransGen (Calls vcl) pc.p q := by
  rw [ReflTransGen.cases_head_iff]
  refine or_congr eq_comm ?_
  constructor
  · rintro ⟨r, ⟨pc, hpc, rfl⟩, hr⟩
    exact ⟨pc, hpc, hr⟩
  · rintro ⟨pc, hpc, hr⟩
    exact ⟨pc.p, ⟨pc, hpc, rfl⟩, hr⟩

/-- The procs that are not active. -/
def idle (A : Fin n → Bool) : Set (Fin n) := {q | A q = true}ᶜ

lemma setActive_set (A : Fin n → Bool) (p : Fin n) :
    {q | Function.update A p true q = true} = insert p {q | A q = true} := by
  ext q
  by_cases hq : q = p
  · subst hq
    simp
  · simp [hq]

lemma idle_lt {A : Fin n → Bool} {p : Fin n} (hp : A p = false) :
    (idle (Function.update A p true)).ncard < (idle A).ncard := by
  unfold idle
  rw [setActive_set]
  exact ncard_compl_insert_lt (by simp [hp])

lemma checkActionRecurse_spec (vcl : VclProgram n) (bitmap : BitVec 32) (fuel : Nat) (A : Fin n → Bool)
    (hfuel : (idle A).ncard < fuel) :
    RecSpec (vccCheckActionRecurse vcl bitmap fuel) (fun st => st.active = A) (fun _ => True)
      (WalkOk (Calls vcl) (ActionOk vcl bitmap) {q | A q = true}) (paths (callees vcl) fuel) := by
  induction fuel generalizing A with
  | zero => omega
  | succ fuel ih =>
    intro st p hA _
    rw [vccCheckActionRecurse]
    by_cases hdef : (vcl.proc p).defined = false
    · refine ⟨true, _, by rw [if_pos hdef], ?_, by simp⟩
      have hbad : ¬ WalkOk (Calls vcl) (ActionOk vcl bitmap) {q | A q = true} p := by
        intro h
        have hok := (CallGraph.walkOk_iff.mp h).2.1.1
        rw [hdef] at hok
        cases hok
      simp [hbad]
    rw [if_neg hdef]
    by_cases hact : st.active p = true
    · refine ⟨true, _, by rw [if_pos hact], ?_, by simp⟩
      have hbad : ¬ WalkOk (Calls vcl) (ActionOk vcl bitmap) {q | A q = true} p := by
        intro h
        exact (CallGraph.walkOk_iff.mp h).1 (by rw [← hA]; exact hact)
      simp [hbad]
    rw [if_neg hact]
    by_cases hret : (vcl.proc p).retBitmap &&& ~~~bitmap = 0
    · rw [if_neg (not_not.mpr hret)]
      have hidle : A p = false := by
        rw [← hA]
        simpa using hact
      have hrec := ih (Function.update A p true) (by have := idle_lt hidle; omega)
      obtain ⟨b, st', hloop, hb, hpost⟩ := callLoop_spec hrec (vcl.proc p).name (st.setActive p true)
        (fun _ _ => trivial) (by rw [XrefState.setActive, hA])
      rw [hloop]
      have hgood : WalkOk (Calls vcl) (ActionOk vcl bitmap) {q | A q = true} p ↔ b = false := by
        rw [hb, CallGraph.walkOk_iff, setActive_set]
        constructor
        · rintro ⟨-, -, hnext⟩ pc hpc
          exact hnext pc.p ⟨pc, hpc, rfl⟩
        · intro hall
          refine ⟨by simp [hidle], ⟨by simpa using hdef, hret⟩, ?_⟩
          rintro q ⟨pc, hpc, rfl⟩
          exact hall pc hpc
      cases b with
      | true => exact ⟨true, st', rfl, hgood.symm, by simp⟩
      | false =>
        refine ⟨false, _, rfl, hgood.symm, fun _ => ?_⟩
        obtain ⟨hact', herr, hcalled⟩ := hpost rfl
        refine ⟨?_, herr, ?_⟩
        · change Function.update st'.active p false = A
          rw [hact', Function.update_idem, ← hidle, Function.update_eq_self]
        · intro q
          have hsum : ((callees vcl p).map fun r => paths (callees vcl) fuel r q).sum =
              ((vcl.proc p).calls.map fun pc => paths (callees vcl) fuel pc.p q).sum := by
            rw [callees, List.map_map]
            rfl
          change Function.update st'.called p (st'.called p + 1) q = _
          rw [paths, hsum]
          have hq' : st'.called q = st.called q + _ := hcalled q
          by_cases hq : q = p
          · subst hq
            rw [Function.update_self, hq', if_pos rfl, UInt32.ofNat_add, UInt32.add_assoc, UInt32.add_comm _ 1]
            rfl
          · rw [Function.update_of_ne hq, hq', if_neg hq, Nat.zero_add]
    · refine ⟨true, _, by rw [if_pos hret], ?_, by simp⟩
      have hbad : ¬ WalkOk (Calls vcl) (ActionOk vcl bitmap) {q | A q = true} p := by
        intro h
        exact hret (CallGraph.walkOk_iff.mp h).2.1.2
      simp [hbad]

/-- A walk over symbols whose every step fails, or is good, keeps `I` and adds `count` calls. -/
lemma walkSymbols_spec {func : XrefState n → Fin n → Option (XrefState n)} {I : XrefState n → Prop} {Good : Fin n → Prop}
    {count : Fin n → Fin n → Nat} (syms : List (Fin n)) (st : XrefState n) (h : ∀ st i, I st → st.err = false → i ∈ syms →
      ∃ st', func st i = some st' ∧ (st'.err = false ↔ Good i) ∧
        (st'.err = false → I st' ∧ ∀ q, st'.called q = st.called q + UInt32.ofNat (count i q)))
    (hI : I st) (herr : st.err = false) :
    ∃ st', walkSymbols func syms st = some st' ∧ (st'.err = false ↔ ∀ i ∈ syms, Good i) ∧
      (st'.err = false → I st' ∧ ∀ q, st'.called q = st.called q + UInt32.ofNat (syms.map fun i => count i q).sum) := by
  induction syms generalizing st with
  | nil => exact ⟨st, rfl, by simp [herr], fun _ => ⟨hI, fun q => (UInt32.add_zero _).symm⟩⟩
  | cons i syms ih =>
    obtain ⟨st1, hfunc, hgood, hpost⟩ := h st i hI herr List.mem_cons_self
    rw [walkSymbols, hfunc]
    cases herr1 : st1.err with
    | true =>
      refine ⟨st1, by simp [herr1], ?_, fun hf => by rw [herr1] at hf; cases hf⟩
      rw [List.forall_mem_cons, ← hgood, herr1]
      simp
    | false =>
      obtain ⟨hI1, hcalled⟩ := hpost herr1
      obtain ⟨st', hwalk, hall, hpost'⟩ :=
        ih st1 (fun st j hst he hj => h st j hst he (List.mem_cons_of_mem i hj)) hI1 herr1
      refine ⟨st', by simpa [herr1] using hwalk, ?_, ?_⟩
      · rw [List.forall_mem_cons, hall, ← hgood]
        exact ⟨fun hrest => ⟨herr1, hrest⟩, fun hboth => hboth.2⟩
      · intro hf
        obtain ⟨hI', hcalled'⟩ := hpost' hf
        refine ⟨hI', ?_⟩
        intro q
        rw [hcalled' q, hcalled q, UInt32.add_assoc, ← UInt32.ofNat_add, List.map_cons, List.sum_cons]

/-- The methods that `p` is. -/
def MethodOf (vcl : VclProgram n) (p : Fin n) (m : VccMethod) : Prop := isMethod (vcl.proc p).name = some m

lemma idle_none : (idle (fun _ : Fin n => false)).ncard ≤ n := by
  have hle := Set.ncard_le_ncard (Set.subset_univ (idle (fun _ : Fin n => false))) (Set.toFinite _)
  rwa [Set.ncard_univ, Nat.card_fin] at hle

/-- The paths of calls from `i` to `q`, if `i` is a method. -/
def pathsFrom (vcl : VclProgram n) (i q : Fin n) : Nat :=
  if (isMethod (vcl.proc i).name).isSome then paths (callees vcl) (n + 1) i q else 0

/-- With the fuel for one more call than there are procs all paths are counted. -/
lemma paths_fuel {ok : Fin n → Prop} {i : Fin n} (h : Fine (Calls vcl) ok i) {fuel : Nat} (hfuel : n < fuel)
    (q : Fin n) :
    paths (callees vcl) fuel i q = paths (callees vcl) (n + 1) i q := by
  obtain ⟨j, rfl⟩ := Nat.exists_eq_add_of_lt hfuel
  have hcard : (∅ : Set (Fin n))ᶜ.ncard < n + 1 := by
    rw [Set.compl_empty, Set.ncard_univ, Nat.card_fin]
    exact Nat.lt_succ_self n
  rw [Nat.add_right_comm]
  exact (walkOk_empty_iff.mpr h).paths_stable calls_iff hcard j q

/-- `vcc_checkaction1` at one symbol. -/
lemma checkAction1_spec (vcl : VclProgram n) {fuel : Nat} (hfuel : n < fuel) (st : XrefState n) (i : Fin n)
    (hact : st.active = fun _ => false) (herr : st.err = false) :
    ∃ st', checkAction1 vcl fuel st i = some st' ∧
      (st'.err = false ↔ ∀ m, MethodOf vcl i m → Fine (Calls vcl) (ActionOk vcl m.retBitmap) i) ∧
      (st'.err = false → (st'.active = fun _ => false) ∧
        ∀ q, st'.called q = st.called q + UInt32.ofNat (pathsFrom vcl i q)) := by
  unfold checkAction1 pathsFrom
  cases hm : isMethod (vcl.proc i).name with
  | none => exact ⟨st, rfl, by simp [herr, MethodOf, hm], fun _ => ⟨hact, fun q => (UInt32.add_zero _).symm⟩⟩
  | some m =>
    obtain ⟨b, st', hrec, hb, hpost⟩ := checkActionRecurse_spec vcl m.retBitmap fuel (fun _ => false)
      (lt_of_le_of_lt idle_none hfuel) st i hact trivial
    have hempty : {q : Fin n | false = true} = ∅ := by simp
    rw [hempty, walkOk_empty_iff] at hb
    simp only [hrec]
    cases b with
    | true =>
      refine ⟨_, rfl, ?_, fun hf => by cases hf⟩
      have hbad : ¬ Fine (Calls vcl) (ActionOk vcl m.retBitmap) i := fun hf => by simpa using hb.mpr hf
      simp [MethodOf, hm, hbad]
    | false =>
      obtain ⟨hact', herr', hcalled⟩ := hpost rfl
      refine ⟨st', rfl, ?_, fun _ => ⟨hact', ?_⟩⟩
      · simp [MethodOf, hm, herr', herr, hb.mp rfl]
      · intro q
        rw [hcalled q, paths_fuel (hb.mp rfl) hfuel]
        rfl

/-- `vcc_checkaction2` at one symbol. -/
lemma checkAction2_err (vcl : VclProgram n) (errUnref : Bool) (i : Fin n) (herr : st.err = false) :
    ((checkAction2 vcl errUnref st i).err = false ↔ (errUnref = true → st.called i ≠ 0)) ∧
      (checkAction2 vcl errUnref st i).called = st.called := by
  unfold checkAction2
  by_cases hc : st.called i = 0
  · cases errUnref with
    | true => simp [hc, XrefState.errWhere, XrefState.print]
    | false => simp [hc, XrefState.errWhere, XrefState.print]
  · simp [hc, herr]

/-- A subroutine that some method reaches. -/
def Reached (vcl : VclProgram n) (q : Fin n) : Prop := ∃ i m, MethodOf vcl i m ∧ ReflTransGen (Calls vcl) i q

/-- How many paths of calls there are from the methods to `q`. -/
def methodPaths (vcl : VclProgram n) (q : Fin n) : Nat := (vcl.symbols.map fun i => pathsFrom vcl i q).sum

lemma methodPaths_pos {ok : VccMethod → Fin n → Prop} (h : ∀ i m, MethodOf vcl i m → Fine (Calls vcl) (ok m) i)
    (q : Fin n) : 0 < methodPaths vcl q ↔ Reached vcl q := by
  have hcard : (∅ : Set (Fin n))ᶜ.ncard < n + 1 := by
    rw [Set.compl_empty, Set.ncard_univ, Nat.card_fin]
    exact Nat.lt_succ_self n
  have hone : ∀ i, pathsFrom vcl i q ≠ 0 ↔ ∃ m, MethodOf vcl i m ∧ ReflTransGen (Calls vcl) i q := by
    intro i
    unfold pathsFrom
    cases hm : isMethod (vcl.proc i).name with
    | none => simp [MethodOf, hm]
    | some m =>
      rw [Option.isSome_some, if_pos rfl, ← Nat.pos_iff_ne_zero,
        (walkOk_empty_iff.mpr (h i m hm)).paths_pos calls_iff hcard]
      exact ⟨fun hreach => ⟨m, hm, hreach⟩, fun ⟨_, _, hreach⟩ => hreach⟩
  rw [methodPaths, Nat.pos_iff_ne_zero, Ne, List.sum_eq_zero_iff, List.forall_mem_map]
  simp only [not_forall, vcl.complete, exists_prop, true_and]
  exact exists_congr hone

lemma vccCheckAction_spec (vcl : VclProgram n) (errUnref : Bool) {fuel : Nat} (hfuel : n < fuel) :
    ∃ st', vccCheckAction vcl errUnref fuel .init = some st' ∧
      (st'.err = false ↔ (∀ i m, MethodOf vcl i m → Fine (Calls vcl) (ActionOk vcl m.retBitmap) i) ∧
        (errUnref = true → ∀ q, UInt32.ofNat (methodPaths vcl q) ≠ 0)) := by
  obtain ⟨st1, hwalk, herr, hpost⟩ := walkSymbols_spec vcl.symbols .init
    (fun st i hact he _ => checkAction1_spec vcl hfuel st i hact he) rfl rfl
  have hall : st1.err = false ↔ ∀ i m, MethodOf vcl i m → Fine (Calls vcl) (ActionOk vcl m.retBitmap) i := by
    rw [herr]
    exact ⟨fun h i => h i (vcl.complete i), fun h i _ => h i⟩
  unfold vccCheckAction
  rw [hwalk]
  cases he : st1.err with
  | true =>
    refine ⟨st1, by simp [he], ?_⟩
    rw [← hall, he]
    simp
  | false =>
    obtain ⟨-, hcalled⟩ := hpost he
    have hcount : ∀ q, st1.called q = UInt32.ofNat (methodPaths vcl q) := by
      intro q
      rw [hcalled q]
      exact UInt32.zero_add _
    have hstep : ∀ (st : XrefState n) (i : Fin n), st.called = st1.called → st.err = false → i ∈ vcl.symbols →
        ∃ st', some (checkAction2 vcl errUnref st i) = some st' ∧
          (st'.err = false ↔ (errUnref = true → st1.called i ≠ 0)) ∧
          (st'.err = false → st'.called = st1.called ∧ ∀ q, st'.called q = st.called q + UInt32.ofNat 0) := by
      intro st i hst he' _
      obtain ⟨hok, hsame⟩ := checkAction2_err vcl errUnref i he'
      refine ⟨_, rfl, by rw [hok, hst], fun _ => ⟨by rw [hsame, hst], fun q => ?_⟩⟩
      rw [hsame]
      exact (UInt32.add_zero _).symm
    obtain ⟨st2, hwalk2, herr2, -⟩ := walkSymbols_spec vcl.symbols st1 hstep rfl he
    refine ⟨st2, by simpa [he] using hwalk2, ?_⟩
    rw [herr2, ← hall, he]
    simp only [hcount, true_and]
    exact ⟨fun h hu q => h q (vcl.complete q) hu, fun h q _ hu => h hu q⟩

/-- What `vcc_CheckUses` wants of a proc. -/
def UsesOk (vcl : VclProgram n) (m : VccMethod) (p : Fin n) : Prop := ∀ pu ∈ (vcl.proc p).uses, pu.mask &&& m.bitval ≠ 0

def AllUsesOk (vcl : VclProgram n) (m : VccMethod) (p : Fin n) : Prop :=
  ∀ q, ReflTransGen (Calls vcl) p q → UsesOk vcl m q

lemma allUsesOk_iff {m : VccMethod} {p : Fin n} :
    AllUsesOk vcl m p ↔ UsesOk vcl m p ∧ ∀ pc ∈ (vcl.proc p).calls, AllUsesOk vcl m pc.p := by
  constructor
  · intro h
    exact ⟨h p ReflTransGen.refl, fun pc hpc q hq => h q ((reach_iff p q).mpr (Or.inr ⟨pc, hpc, hq⟩))⟩
  · rintro ⟨hp, hcalls⟩ q hq
    rcases (reach_iff p q).mp hq with rfl | ⟨pc, hpc, hq⟩
    · exact hp
    · exact hcalls pc hpc q hq

lemma findIllegalUse_none {m : VccMethod} {p : Fin n} :
    vccFindIllegalUse (vcl.proc p) m = none ↔ UsesOk vcl m p := by
  unfold vccFindIllegalUse UsesOk
  rw [List.find?_eq_none]
  simp

lemma callLoop_err {recurse : XrefState n → Fin n → Option (Bool × XrefState n)} {name : String}
    {calls : List (ProcCall n)} (h : callLoop recurse name calls st = some (true, st')) : st'.err = true := by
  induction calls generalizing st with
  | nil => cases h
  | cons pc calls ih =>
    rw [callLoop] at h
    split at h
    · cases h
    · cases h
      rfl
    · exact ih h

/-- The recursion ends where a walk that does remember its calls passes. -/
lemma checkUseRecurse_spec (vcl : VclProgram n) (m : VccMethod) (fuel : Nat) (A : Set (Fin n))
    (hfuel : Aᶜ.ncard < fuel) :
    RecSpec (vccCheckUseRecurse vcl m fuel) (fun _ => True) (WalkOk (Calls vcl) (fun _ => True) A)
      (AllUsesOk vcl m) (fun _ _ => 0) := by
  induction fuel generalizing A with
  | zero => omega
  | succ fuel ih =>
    intro st p _ hpass
    rw [vccCheckUseRecurse]
    obtain ⟨hout, -, hnext⟩ := CallGraph.walkOk_iff.mp hpass
    cases hfind : vccFindIllegalUse (vcl.proc p) m with
    | some pu =>
      refine ⟨true, _, rfl, ?_, by simp⟩
      have hbad : ¬ UsesOk vcl m p := by
        rw [← findIllegalUse_none, hfind]
        simp
      rw [allUsesOk_iff]
      simp [hbad]
    | none =>
      have hless := ncard_compl_insert_lt hout
      obtain ⟨b, st', hloop, hb, hpost⟩ := callLoop_spec (ih (insert p A) (by omega)) (vcl.proc p).name st
        (fun pc hpc => hnext pc.p ⟨pc, hpc, rfl⟩) trivial
      refine ⟨b, st', hloop, ?_, ?_⟩
      · rw [hb, allUsesOk_iff]
        exact ⟨fun h => ⟨findIllegalUse_none.mp hfind, h⟩, fun h => h.2⟩
      · intro hf
        obtain ⟨-, herr, hcalled⟩ := hpost hf
        refine ⟨trivial, herr, fun q => ?_⟩
        rw [hcalled q, List.map_const', List.sum_replicate, Nat.nsmul_eq_mul, Nat.mul_zero]

/-- `vcc_checkuses` at one symbol, a method of which can be walked through. -/
lemma checkUses_spec (vcl : VclProgram n) {fuel : Nat} (hfuel : n < fuel) (st : XrefState n) (i : Fin n)
    (hpass : ∀ m, MethodOf vcl i m → WalkOk (Calls vcl) (fun _ => True) ∅ i) (herr : st.err = false) :
    ∃ st', checkUses vcl fuel st i = some st' ∧ (st'.err = false ↔ ∀ m, MethodOf vcl i m → AllUsesOk vcl m i) ∧
      (st'.err = false → True ∧ ∀ q, st'.called q = st.called q + UInt32.ofNat 0) := by
  cases hm : isMethod (vcl.proc i).name with
  | none =>
    refine ⟨st, by simp only [checkUses, hm], by simp [MethodOf, hm, herr], fun _ => ⟨trivial, fun q => ?_⟩⟩
    exact (UInt32.add_zero _).symm
  | some m =>
    have hall : (∀ m', MethodOf vcl i m' → AllUsesOk vcl m' i) ↔ AllUsesOk vcl m i := by
      simp [MethodOf, hm]
    rw [hall]
    cases hfind : vccFindIllegalUse (vcl.proc i) m with
    | some pu =>
      refine ⟨(st.print (.useIn pu.t pu.use (vcl.proc i).name)).errWhere pu.t, by simp only [checkUses, hm, hfind], ?_,
        fun hf => by cases hf⟩
      have hbad : ¬ AllUsesOk vcl m i := by
        rw [allUsesOk_iff, ← findIllegalUse_none, hfind]
        simp
      simp [hbad, XrefState.errWhere]
    | none =>
      have hcard : (∅ : Set (Fin n))ᶜ.ncard < fuel := by
        rw [Set.compl_empty, Set.ncard_univ, Nat.card_fin]
        exact hfuel
      obtain ⟨b, st', hrec, hb, hpost⟩ := checkUseRecurse_spec vcl m fuel ∅ hcard st i trivial (hpass m hm)
      cases b with
      | true =>
        have herr' : st'.err = true := by
          obtain ⟨fuel, rfl⟩ := Nat.exists_eq_succ_of_ne_zero (Nat.ne_zero_of_lt hfuel)
          simp only [vccCheckUseRecurse, hfind] at hrec
          exact callLoop_err hrec
        refine ⟨st'.print (.whichIs m.name), by simp only [checkUses, hm, hfind, hrec], ?_, fun hf => ?_⟩
        · rw [← hb]
          simp [XrefState.print, herr']
        · simp [XrefState.print, herr'] at hf
      | false =>
        obtain ⟨-, hsame, hcalled⟩ := hpost rfl
        refine ⟨st', by simp only [checkUses, hm, hfind, hrec], ?_, fun _ => ⟨trivial, hcalled⟩⟩
        rw [hsame, herr]
        exact ⟨fun _ => hb.mp rfl, fun _ => rfl⟩

/-- Along every path of calls from a method, all is defined, nothing calls itself, and all returns and uses are legal in
that method. -/
def CallsOk (vcl : VclProgram n) : Prop :=
  ∀ i m, MethodOf vcl i m → ∀ q, ReflTransGen (Calls vcl) i q →
    (vcl.proc q).defined = true ∧ ¬ TransGen (Calls vcl) q q ∧
      (∀ r, (vcl.proc q).retBitmap.getLsbD r = true → m.retBitmap.getLsbD r = true) ∧
      ∀ pu ∈ (vcl.proc q).uses, pu.mask &&& m.bitval ≠ 0

lemma and_not_eq_zero {a b : BitVec 32} : a &&& ~~~b = 0 ↔ ∀ r, a.getLsbD r = true → b.getLsbD r = true := by
  rw [BitVec.eq_of_getLsbD_eq_iff]
  constructor
  · intro h r hr
    have hlt := BitVec.lt_of_getLsbD hr
    have hbit := h r hlt
    simpa [hr, hlt] using hbit
  · intro h r hlt
    cases hr : a.getLsbD r with
    | false => simp [hr]
    | true => simp [hr, h r hr]

lemma callsOk_iff : CallsOk vcl ↔ (∀ i m, MethodOf vcl i m → Fine (Calls vcl) (ActionOk vcl m.retBitmap) i) ∧
    ∀ i m, MethodOf vcl i m → AllUsesOk vcl m i := by
  constructor
  · intro h
    refine ⟨fun i m hm q hq => ?_, fun i m hm q hq => (h i m hm q hq).2.2.2⟩
    obtain ⟨hdef, hcycle, hret, -⟩ := h i m hm q hq
    exact ⟨⟨hdef, and_not_eq_zero.mpr hret⟩, hcycle⟩
  · rintro ⟨hfine, huses⟩ i m hm q hq
    obtain ⟨⟨hdef, hret⟩, hcycle⟩ := hfine i m hm q hq
    exact ⟨hdef, hcycle, and_not_eq_zero.mp hret, huses i m hm q hq⟩

/-- Both checks end, the second one if the first one passes. They pass only on programs whose calls are fine, and
with `err_unref` only if methods reach all subroutines; and they pass on all of these, with `err_unref` as long as
the number of paths to a subroutine is an `unsigned`. -/
theorem xref_exact (vcl : VclProgram n) (errUnref : Bool) (fuel : Nat) (hfuel : n < fuel) :
    ∃ st, vccCheckAction vcl errUnref fuel .init = some st ∧
      (st.err = false → ∃ st', vccCheckUses vcl fuel st = some st') ∧
      ((st.err = false ∧ ∃ st', vccCheckUses vcl fuel st = some st' ∧ st'.err = false) →
        CallsOk vcl ∧ (errUnref = true → ∀ q, Reached vcl q)) ∧
      (CallsOk vcl → (errUnref = true → ∀ q, Reached vcl q ∧ methodPaths vcl q < 2 ^ 32) →
        st.err = false ∧ ∃ st', vccCheckUses vcl fuel st = some st' ∧ st'.err = false) := by
  obtain ⟨st, haction, herr⟩ := vccCheckAction_spec vcl errUnref hfuel
  have huses : st.err = false → ∃ st', vccCheckUses vcl fuel st = some st' ∧
      (st'.err = false ↔ ∀ i m, MethodOf vcl i m → AllUsesOk vcl m i) := by
    intro hst
    have hfine := (herr.mp hst).1
    have hpass : ∀ i m, MethodOf vcl i m → WalkOk (Calls vcl) (fun _ => True) ∅ i := by
      intro i m hm
      rw [walkOk_empty_iff]
      exact fun q hq => ⟨trivial, (hfine i m hm q hq).2⟩
    obtain ⟨st', hwalk, hall, -⟩ := walkSymbols_spec vcl.symbols st
      (fun st i _ he _ => checkUses_spec vcl hfuel st i (hpass i) he) trivial hst
    refine ⟨st', hwalk, ?_⟩
    rw [hall]
    exact ⟨fun h i => h i (vcl.complete i), fun h i _ => h i⟩
  refine ⟨st, haction, fun hst => ?_, ?_, ?_⟩
  · obtain ⟨st', hwalk, -⟩ := huses hst
    exact ⟨st', hwalk⟩
  · rintro ⟨hst, st', hwalk, hst'⟩
    obtain ⟨st2, hwalk2, hiff⟩ := huses hst
    obtain rfl := Option.some.inj (hwalk.symm.trans hwalk2)
    obtain ⟨hfine, hcounted⟩ := herr.mp hst
    refine ⟨callsOk_iff.mpr ⟨hfine, hiff.mp hst'⟩, fun hu q => ?_⟩
    rw [← methodPaths_pos hfine q, Nat.pos_iff_ne_zero]
    intro hzero
    exact hcounted hu q (by rw [hzero]; rfl)
  · intro hcalls hreached
    obtain ⟨hfine, hall⟩ := callsOk_iff.mp hcalls
    have hst := herr.mpr ⟨hfine, fun hu q hzero => by
      obtain ⟨hreach, hlt⟩ := hreached hu q
      have hpos := (methodPaths_pos hfine q).mpr hreach
      have hnat := congrArg UInt32.toNat hzero
      rw [UInt32.toNat_ofNat_of_lt' hlt] at hnat
      exact absurd hnat hpos.ne'⟩
    obtain ⟨st', hwalk, hiff⟩ := huses hst
    exact ⟨hst, st', hwalk, hiff.mpr hall⟩

/-- A method that calls two subroutines, one of which calls the other. -/
def twoPathsVcl : VclProgram 3 :=
  { proc := fun i =>
      match i with
      | 0 =>
        { calls := [⟨1, "a"⟩, ⟨2, "b"⟩], uses := [⟨"req.url", 1#32, "read from"⟩], name := "vcl_recv"
          retBitmap := retBits [5], defined := true, returnTok := fun _ => "lookup" }
      | 1 =>
        { calls := [⟨2, "b"⟩], uses := [], name := "a", retBitmap := retBits [7], defined := true
          returnTok := fun _ => "pass" }
      | 2 =>
        { calls := [], uses := [⟨"req.url", 1#32, "set"⟩], name := "b", retBitmap := retBits [1], defined := true
          returnTok := fun _ => "error" }
    symbols := [1, 2, 0]
    complete := by decide }

lemma twoPathsVcl_lt {p q : Fin 3} (h : TransGen (Calls twoPathsVcl) p q) : p < q := by
  have hcall : ∀ {p q : Fin 3}, Calls twoPathsVcl p q → p < q := by
    intro p q hpq
    rw [calls_iff] at hpq
    revert p q
    decide
  induction h with
  | single h => exact hcall h
  | tail _ h ih => exact ih.trans (hcall h)

lemma twoPathsVcl_method {i : Fin 3} {m : VccMethod} (hm : MethodOf twoPathsVcl i m) :
    i = 0 ∧ m = ⟨"vcl_recv", retBits [1, 7, 8, 5], 1#32 <<< 0⟩ := by
  have hrecv : isMethod "vcl_recv" = some ⟨"vcl_recv", retBits [1, 7, 8, 5], 1#32 <<< 0⟩ := rfl
  have hnone : isMethod "a" = none ∧ isMethod "b" = none := ⟨rfl, rfl⟩
  match i, hm with
  | 0, hm => exact ⟨rfl, (Option.some.inj (hrecv.symm.trans hm)).symm⟩
  | 1, hm => cases hnone.1.symm.trans hm
  | 2, hm => cases hnone.2.symm.trans hm

lemma twoPathsVcl_ok : CallsOk twoPathsVcl := by
  intro i m hm q _
  obtain ⟨rfl, rfl⟩ := twoPathsVcl_method hm
  have hdefined : ∀ q, (twoPathsVcl.proc q).defined = true := by decide
  have hreturns : ∀ q, (twoPathsVcl.proc q).retBitmap &&& ~~~retBits [1, 7, 8, 5] = 0 := by decide
  have huses : ∀ q, ∀ pu ∈ (twoPathsVcl.proc q).uses, pu.mask &&& 1#32 <<< 0 ≠ 0 := by decide
  exact ⟨hdefined q, fun hcycle => lt_irrefl q (twoPathsVcl_lt hcycle), and_not_eq_zero.mp (hreturns q), huses q⟩

/-- It passes with `err_unref`, with two paths to the last one. -/
theorem xref_exact_two_paths : methodPaths twoPathsVcl 2 = 2 ∧
    ∃ st, vccCheckAction twoPathsVcl true 4 .init = some st ∧ st.err = false ∧
      ∃ st', vccCheckUses twoPathsVcl 4 st = some st' ∧ st'.err = false := by
  obtain ⟨st, haction, -, -, hpass⟩ := xref_exact twoPathsVcl true 4 (by decide)
  have hreached : ∀ q, Reached twoPathsVcl q := by
    intro q
    refine ⟨0, _, rfl, ?_⟩
    match q with
    | 0 => exact ReflTransGen.refl
    | 1 => exact ReflTransGen.single ((calls_iff 0 1).mpr (by decide))
    | 2 => exact ReflTransGen.single ((calls_iff 0 2).mpr (by decide))
  have hpaths : ∀ q, methodPaths twoPathsVcl q < 2 ^ 32 := by decide
  obtain ⟨hst, huses⟩ := hpass twoPathsVcl_ok (fun _ q => ⟨hreached q, hpaths q⟩)
  exact ⟨by decide, st, haction, hst, huses⟩

/-- A program of a method and of a subroutine that only calls itself. -/
def unusedVcl : VclProgram 2 :=
  { proc := fun i =>
      { calls := if i = 0 then [] else [⟨1, "sub"⟩], uses := [], name := if i = 0 then "vcl_recv" else "sub"
        retBitmap := 0, defined := true, returnTok := fun _ => "" }
    symbols := [1, 0]
    complete := by decide }

/-- The method does not get to it. -/
lemma unusedVcl_reach {i q : Fin 2} {m : VccMethod} (hm : MethodOf unusedVcl i m)
    (hq : ReflTransGen (Calls unusedVcl) i q) : q = 0 := by
  have hnone : isMethod "sub" = none := rfl
  have hi : i = 0 := by
    match i, hm with
    | 0, _ => rfl
    | 1, hm => cases hnone.symm.trans hm
  rcases ReflTransGen.cases_head_iff.mp hq with rfl | ⟨r, hr, -⟩
  · exact hi
  · rw [calls_iff, hi] at hr
    cases hr

/-- It is refused with `err_unref`, although all paths of calls from methods are fine. -/
theorem xref_unused_refused : CallsOk unusedVcl ∧ ∀ fuel, 2 < fuel → ∃ st,
    vccCheckAction unusedVcl true fuel .init = some st ∧ st.err = true := by
  have hok : CallsOk unusedVcl := by
    intro i m hm q hq
    obtain rfl := unusedVcl_reach hm hq
    refine ⟨rfl, fun hcycle => ?_, fun r hr => ?_, fun pu hpu => by cases hpu⟩
    · obtain ⟨r, hr, -⟩ := TransGen.head'_iff.mp hcycle
      rw [calls_iff] at hr
      cases hr
    · simp [unusedVcl] at hr
  refine ⟨hok, fun fuel hfuel => ?_⟩
  obtain ⟨st, haction, herr⟩ := vccCheckAction_spec unusedVcl true hfuel
  refine ⟨st, haction, ?_⟩
  rw [← Bool.not_eq_false, herr]
  rintro ⟨hfine, hcounted⟩
  have hpos := Nat.pos_of_ne_zero fun hzero => hcounted rfl 1 (congrArg UInt32.ofNat hzero)
  obtain ⟨i, m, hm, hreach⟩ := (methodPaths_pos hfine 1).mp hpos
  cases unusedVcl_reach hm hreach

end VarnishCache.Proofs
