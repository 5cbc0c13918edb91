import VarnishCache.HshLookup
import VarnishCache.Proofs.VaryMatch

/-!
# The object that `HSH_Lookup` returns

One invariant goes with the loop: what it remembers is right for the objcores that it has seen, whatever
`BAN_CheckObject` and `VRY_Match` have done to the objects and the predictive buffer meanwhile.
-/

namespace VarnishCache.Proofs

open LookupVars

variable {sp : LookupReq} {oh refcnt sess x y : Nat} {h : LookupHead} {cores cores' : Nat → Option LookupOc}
  {buf buf' : VaryBuf} {v v' : LookupVars} {seen xs : List Nat} {vary : Option (List UInt8)}

/-! ## What the objcores are to the request -/

/-- The request has the values that the vary string asks for. -/
def VaryAgrees (sp : LookupReq) (vary : Option (List UInt8)) : Prop :=
  ∀ s ∈ vary, ∃ es, HoldsEntries s es ∧ ∀ a ∈ es, a.Agrees sp.gzip sp.http

/-- An object is fresh up to the end of its own time to live, and of that of the request if it has one. -/
lemma le_expTtl_iff (sp : LookupReq) (o : ObjExp) (t : ℚ) :
    t ≤ sp.expTtl o ↔ t ≤ o.entered + o.ttl ∧ (0 < sp.ttl → t ≤ o.entered + sp.ttl) := by
  unfold LookupReq.expTtl
  split
  · next h => exact ⟨fun ht => ⟨ht.trans (by linarith [h.2]), fun _ => ht⟩, fun ht => ht.2 h.1⟩
  · next h =>
    refine ⟨fun ht => ⟨ht, fun hpos => ht.trans ?_⟩, fun ht => ht.1⟩
    have hle : o.ttl ≤ sp.ttl := not_lt.mp fun hlt => h ⟨hpos, hlt⟩
    linarith

/-- Grace starts there, with the grace of the object or the default one, and that of the request if it has one. -/
lemma le_expGrace_iff (sp : LookupReq) (o : ObjExp) (t : ℚ) :
    t ≤ sp.expGrace o ↔ t ≤ sp.expTtl o + (if 0 ≤ o.grace then o.grace else sp.defaultGrace) ∧
      (0 < sp.grace → t ≤ sp.expTtl o + sp.grace) := by
  unfold LookupReq.expGrace
  dsimp only
  generalize (if 0 ≤ o.grace then o.grace else sp.defaultGrace) = r
  split
  · next h => exact ⟨fun ht => ⟨ht.trans (by linarith [h.2]), fun _ => ht⟩, fun ht => ht.2 h.1⟩
  · next h =>
    refine ⟨fun ht => ⟨ht, fun hpos => ht.trans ?_⟩, fun ht => ht.1⟩
    have hle : r ≤ sp.grace := not_lt.mp fun hlt => h ⟨hpos, hlt⟩
    linarith


/-- An object that is not expired or banned, for this request. -/
def Usable (sp : LookupReq) (cores : Nat → Option LookupOc) (x : Nat) (o : LookupObj) : Prop :=
  ∃ oc, cores x = some oc ∧ oc.body = .obj o ∧ 0 < o.exp.ttl ∧ sp.banned x = false ∧ VaryAgrees sp o.vary

def FreshCore (sp : LookupReq) (cores : Nat → Option LookupOc) (x : Nat) : Prop :=
  ∃ o, Usable sp cores x o ∧ sp.tReq ≤ sp.expTtl o.exp

def InGrace (sp : LookupReq) (cores : Nat → Option LookupOc) (x : Nat) (o : LookupObj) : Prop :=
  Usable sp cores x o ∧ sp.tReq ≤ sp.expGrace o.exp

def BusyMatch (sp : LookupReq) (cores : Nat → Option LookupOc) (x : Nat) : Prop :=
  ∃ oc vary, cores x = some oc ∧ oc.body = .busy vary ∧ VaryAgrees sp vary

/-- Busy objcores count. -/
def Waits (sp : LookupReq) : Prop := sp.hashIgnoreBusy = false ∧ sp.hashAlwaysMiss = false

def BusySeen (sp : LookupReq) (cores : Nat → Option LookupOc) (xs : List Nat) : Prop :=
  Waits sp ∧ ∃ x ∈ xs, BusyMatch sp cores x

def expires (o : ObjExp) : ℚ := o.entered + o.ttl

lemma usable_unique {o o' : LookupObj} (ho : Usable sp cores x o) (ho' : Usable sp cores x o') : o = o' := by
  obtain ⟨oc, hoc, hbody, -⟩ := ho
  obtain ⟨oc', hoc', hbody', -⟩ := ho'
  rw [hoc, Option.some.injEq] at hoc'
  rw [hoc', hbody'] at hbody
  exact (OcBody.obj.inj hbody).symm

/-! ## Vary -/

def ocVary : OcBody → Option (List UInt8)
  | .busy vary => vary
  | .obj o => o.vary

/-- The vary strings are such as `VRY_Create` and `VRY_Match` make. -/
def VaryStrings (cores : Nat → Option LookupOc) (xs : List Nat) : Prop :=
  ∀ x ∈ xs, ∀ oc, cores x = some oc → ∀ s ∈ ocVary oc.body, ∃ es, HoldsEntries s es

/-- `VRY_Match` tells whether the request agrees, and leaves a buffer for the next call. -/
lemma varyOk_spec {m : Bool} (hrest : VaryRest sp.http buf.e buf.mem 0) (hstr : ∀ s ∈ vary, ∃ es, HoldsEntries s es)
    (hrun : sp.varyOk buf vary = some (m, buf')) :
    (m = true ↔ VaryAgrees sp vary) ∧ buf'.e = buf.e ∧ VaryRest sp.http buf'.e buf'.mem 0 := by
  cases vary with
  | none =>
    cases hrun
    exact ⟨iff_of_true rfl (fun s hs => absurd hs (Option.not_mem_none s)), rfl, hrest⟩
  | some s =>
    have hrun' : vryMatch sp.gzip sp.http buf s = some (m, buf') := hrun
    have hverdict : ∀ es, HoldsEntries s es →
        m = decide (∀ a ∈ es, a.Agrees sp.gzip sp.http) ∧ buf'.e = buf.e ∧ VaryRest sp.http buf'.e buf'.mem 0 := by
      intro es hes
      by_cases hfits : VaryFits sp.http buf.e 0 es
      · obtain ⟨buf1, hmatch, he, hrest1⟩ := vryMatch_fits sp.gzip hes hrest hfits
        rw [hrun', Option.some.injEq, Prod.mk.injEq] at hmatch
        obtain ⟨hm, rfl⟩ := hmatch
        exact ⟨hm, he, by rw [he]; exact hrest1⟩
      · rw [vryMatch_not_fits sp.gzip hes hrest hfits] at hrun'
        cases hrun'
    obtain ⟨es, hes⟩ := hstr s rfl
    refine ⟨?_, (hverdict es hes).2⟩
    constructor
    · intro hm s' hs'
      cases hs'
      exact ⟨es, hes, of_decide_eq_true ((hverdict es hes).1 ▸ hm)⟩
    · intro hagrees
      obtain ⟨es', hes', hall⟩ := hagrees s rfl
      rw [(hverdict es' hes').1]
      exact decide_eq_true hall

/-! ## The invariant of the loop -/

/-- Nothing but bans has changed the objects. -/
def Cleared (sp : LookupReq) (cores cores' : Nat → Option LookupOc) (x : Nat) : Prop :=
  cores' x = cores x ∨
    sp.banned x = true ∧ ∃ oc o, cores x = some oc ∧ oc.body = .obj o ∧
      cores' x = some { oc with body := .obj { o with exp := .clr } }

/-- The least expired object in grace. -/
def Best (sp : LookupReq) (cores : Nat → Option LookupOc) (seen : List Nat) : Option (Nat × ℚ) → Prop
  | none => ∀ y ∈ seen, ∀ o, ¬ InGrace sp cores y o
  | some (x, t) =>
    x ∈ seen ∧ ∃ o, InGrace sp cores x o ∧ t = expires o.exp ∧
      ∀ y ∈ seen, ∀ o', InGrace sp cores y o' → expires o'.exp ≤ t

structure Scanned (sp : LookupReq) (cores : Nat → Option LookupOc) (seen : List Nat) (v : LookupVars) : Prop where
  cleared : ∀ x, Cleared sp cores v.cores x
  rest : VaryRest sp.http v.buf.e v.buf.mem 0
  busy : v.busyOc.isSome = true ↔ BusySeen sp cores seen
  fresh : ∀ x ∈ seen, ¬ FreshCore sp cores x
  grace : Best sp cores seen v.graceOc

lemma best_skip {g : Option (Nat × ℚ)} (hbest : Best sp cores seen g) (hx : ∀ o, ¬ InGrace sp cores x o) :
    Best sp cores (seen ++ [x]) g := by
  have hlast : ∀ y ∈ seen ++ [x], ∀ o, InGrace sp cores y o → y ∈ seen := by
    intro y hy o ho
    rcases List.mem_append.mp hy with hy | hy
    · exact hy
    · rw [List.mem_singleton.mp hy] at ho
      exact absurd ho (hx o)
  cases g with
  | none => exact fun y hy o ho => hbest y (hlast y hy o ho) o ho
  | some g =>
    obtain ⟨hmem, o, ho, ht, hmax⟩ := hbest
    exact ⟨List.mem_append_left _ hmem, o, ho, ht, fun y hy o' ho' => hmax y (hlast y hy o' ho') o' ho'⟩

lemma best_remember {o : LookupObj} (hbest : Best sp cores seen v.graceOc) (ho : InGrace sp cores x o) :
    Best sp cores (seen ++ [x]) (v.remember x o.exp).graceOc := by
  have hmem : x ∈ seen ++ [x] := List.mem_append_right _ List.mem_cons_self
  have hlast : ∀ t, expires o.exp ≤ t → (∀ y ∈ seen, ∀ o', InGrace sp cores y o' → expires o'.exp ≤ t) →
      ∀ y ∈ seen ++ [x], ∀ o', InGrace sp cores y o' → expires o'.exp ≤ t := by
    intro t ht hmax y hy o' ho'
    rcases List.mem_append.mp hy with hy | hy
    · exact hmax y hy o' ho'
    · rw [List.mem_singleton.mp hy] at ho'
      rw [usable_unique ho'.1 ho.1]
      exact ht
  unfold remember
  cases hg : v.graceOc with
  | none =>
    rw [hg] at hbest
    exact ⟨hmem, o, ho, rfl, hlast _ le_rfl (fun y hy o' ho' => absurd ho' (hbest y hy o'))⟩
  | some g =>
    obtain ⟨z, t⟩ := g
    rw [hg] at hbest
    obtain ⟨hz, oz, hoz, ht, hmax⟩ := hbest
    by_cases hlt : t < o.exp.entered + o.exp.ttl
    · simp only [if_pos hlt]
      exact ⟨hmem, o, ho, rfl, hlast _ le_rfl (fun y hy o' ho' => (hmax y hy o' ho').trans hlt.le)⟩
    · simp only [if_neg hlt, hg]
      exact ⟨List.mem_append_left _ hz, oz, hoz, ht, hlast _ (not_lt.mp hlt) hmax⟩

lemma remember_rest (v : LookupVars) (x : Nat) (o : ObjExp) :
    (v.remember x o).cores = v.cores ∧ (v.remember x o).buf = v.buf ∧ (v.remember x o).busyOc = v.busyOc := by
  unfold remember
  split
  · exact ⟨rfl, rfl, rfl⟩
  · split
    · exact ⟨rfl, rfl, rfl⟩
    · exact ⟨rfl, rfl, rfl⟩

lemma busySeen_append : BusySeen sp cores (seen ++ [x]) ↔ BusySeen sp cores seen ∨ Waits sp ∧ BusyMatch sp cores x := by
  unfold BusySeen
  constructor
  · rintro ⟨hwaits, y, hy, hmatch⟩
    rcases List.mem_append.mp hy with hy | hy
    · exact Or.inl ⟨hwaits, y, hy, hmatch⟩
    · rw [List.mem_singleton.mp hy] at hmatch
      exact Or.inr ⟨hwaits, hmatch⟩
  · rintro (⟨hwaits, y, hy, hmatch⟩ | ⟨hwaits, hmatch⟩)
    · exact ⟨hwaits, y, List.mem_append_left _ hy, hmatch⟩
    · exact ⟨hwaits, x, List.mem_append_right _ List.mem_cons_self, hmatch⟩

/-- The invariant goes on to the next objcore. -/
lemma scanned_next (hscan : Scanned sp cores seen v) (hcleared : ∀ x, Cleared sp cores v'.cores x)
    (hrest : VaryRest sp.http v'.buf.e v'.buf.mem 0)
    (hbusy : v'.busyOc.isSome = true ↔ v.busyOc.isSome = true ∨ Waits sp ∧ BusyMatch sp cores x)
    (hfresh : ¬ FreshCore sp cores x) (hgrace : Best sp cores (seen ++ [x]) v'.graceOc) :
    Scanned sp cores (seen ++ [x]) v' := by
  refine ⟨hcleared, hrest, ?_, ?_, hgrace⟩
  · rw [hbusy, hscan.busy, busySeen_append]
  · intro y hy
    rcases List.mem_append.mp hy with hy | hy
    · exact hscan.fresh y hy
    · rw [List.mem_singleton.mp hy]
      exact hfresh

/-- An objcore that is passed over. -/
lemma scanned_skip (hscan : Scanned sp cores seen v) (hcleared : ∀ x, Cleared sp cores v'.cores x)
    (hrest : VaryRest sp.http v'.buf.e v'.buf.mem 0) (hsame : v'.busyOc = v.busyOc ∧ v'.graceOc = v.graceOc)
    (hbusy : Waits sp → ¬ BusyMatch sp cores x) (husable : ∀ o, ¬ Usable sp cores x o) :
    Scanned sp cores (seen ++ [x]) v' := by
  refine scanned_next hscan hcleared hrest ?_ ?_ ?_
  · rw [hsame.1, or_iff_left (fun hwaits => hbusy hwaits.1 hwaits.2)]
  · exact fun ⟨o, ho, _⟩ => husable o ho
  · rw [hsame.2]
    exact best_skip hscan.grace (fun o ho => husable o ho.1)

lemma scanned_start (hbuf : buf.mem 2 = 0) :
    Scanned sp cores [] { cores := cores, buf := buf, busyOc := none, graceOc := none } where
  cleared := fun _ => Or.inl rfl
  rest := ⟨[], 0, rfl, hbuf⟩
  busy := iff_of_false Bool.false_ne_true (fun ⟨_, _, hx, _⟩ => List.not_mem_nil hx)
  fresh := fun _ hx => absurd hx List.not_mem_nil
  grace := fun _ hx => absurd hx List.not_mem_nil

/-! ## A round -/

/-- The objcore that a round looks at, as it was before the loop. -/
lemma cleared_core {oc : LookupOc} (hcleared : ∀ x, Cleared sp cores v.cores x) (hoc : v.cores x = some oc) :
    cores x = some oc ∨ sp.banned x = true ∧ ∃ oc' o, cores x = some oc' ∧ oc'.body = .obj o ∧
      oc = { oc' with body := .obj { o with exp := .clr } } := by
  rcases hcleared x with hsame | ⟨hban, oc', o, hoc', hbody, hclr⟩
  · exact Or.inl (hsame.symm.trans hoc)
  · rw [hoc, Option.some.injEq] at hclr
    exact Or.inr ⟨hban, oc', o, hoc', hbody, hclr⟩

lemma not_busyMatch {oc : LookupOc} {o : LookupObj} (hoc : cores x = some oc) (hbody : oc.body = .obj o) :
    ¬ BusyMatch sp cores x := by
  rintro ⟨oc', vary, hoc', hbody', -⟩
  rw [hoc, Option.some.injEq] at hoc'
  rw [hoc', hbody'] at hbody
  cases hbody

lemma busyRound_spec {brk : Bool} {oc : LookupOc} (hscan : Scanned sp cores seen v) (hoc : cores x = some oc)
    (hbody : oc.body = .busy vary) (hstr : ∀ s ∈ vary, ∃ es, HoldsEntries s es)
    (hrun : v.busyRound sp x vary = some (brk, v')) : brk = false ∧ Scanned sp cores (seen ++ [x]) v' := by
  have husable : ∀ o, ¬ Usable sp cores x o := by
    rintro o ⟨oc', hoc', hbody', -⟩
    rw [hoc, Option.some.injEq] at hoc'
    rw [← hoc', hbody] at hbody'
    cases hbody'
  unfold busyRound at hrun
  by_cases hskip : (sp.hashIgnoreBusy || sp.hashAlwaysMiss) = true
  · rw [if_pos hskip, Option.some.injEq, Prod.mk.injEq] at hrun
    obtain ⟨rfl, rfl⟩ := hrun
    refine ⟨rfl, scanned_skip hscan hscan.cleared hscan.rest ⟨rfl, rfl⟩ ?_ husable⟩
    rintro ⟨hignore, hmiss⟩
    rw [hignore, hmiss] at hskip
    cases hskip
  · rw [if_neg hskip] at hrun
    obtain ⟨⟨m, buf⟩, hvary, heq⟩ := Option.map_eq_some_iff.mp hrun
    obtain ⟨rfl, rfl⟩ := Prod.mk.inj heq
    obtain ⟨hm, -, hrest⟩ := varyOk_spec hscan.rest hstr hvary
    have hwaits : Waits sp := by
      rw [Bool.or_eq_true, not_or, Bool.not_eq_true, Bool.not_eq_true] at hskip
      exact hskip
    have hmatch : BusyMatch sp cores x ↔ m = true := by
      rw [hm]
      constructor
      · rintro ⟨oc', vary', hoc', hbody', hagrees⟩
        rw [hoc, Option.some.injEq] at hoc'
        rw [← hoc', hbody] at hbody'
        cases hbody'
        exact hagrees
      · exact fun hagrees => ⟨oc, vary, hoc, hbody, hagrees⟩
    refine ⟨rfl, scanned_next hscan hscan.cleared hrest ?_ (fun ⟨o, ho, _⟩ => husable o ho)
      (best_skip hscan.grace (fun o ho => husable o ho.1))⟩
    rw [hmatch]
    cases m with
    | true => simp [hwaits]
    | false => simp

lemma objRound_spec {brk : Bool} {oc : LookupOc} {o : LookupObj} (hscan : Scanned sp cores seen v)
    (hoc : cores x = some oc) (hbody : oc.body = .obj o) (hstr : ∀ s ∈ o.vary, ∃ es, HoldsEntries s es)
    (hrun : v.objRound sp x oc o = some (brk, v')) :
    brk = true ∧ FreshCore sp cores x ∧ Scanned sp cores seen v' ∨ brk = false ∧ Scanned sp cores (seen ++ [x]) v' := by
  have hbusy : ¬ BusyMatch sp cores x := not_busyMatch hoc hbody
  have hown : ∀ o', Usable sp cores x o' → o' = o ∧ 0 < o.exp.ttl ∧ sp.banned x = false ∧ VaryAgrees sp o.vary := by
    rintro o' ⟨oc', hoc', hbody', httl, hban, hagrees⟩
    rw [hoc, Option.some.injEq] at hoc'
    rw [← hoc', hbody] at hbody'
    cases hbody'
    exact ⟨rfl, httl, hban, hagrees⟩
  unfold objRound at hrun
  by_cases httl : o.exp.ttl ≤ 0
  · rw [if_pos httl, Option.some.injEq, Prod.mk.injEq] at hrun
    obtain ⟨rfl, rfl⟩ := hrun
    refine Or.inr ⟨rfl, scanned_skip hscan hscan.cleared hscan.rest ⟨rfl, rfl⟩ (fun _ => hbusy) ?_⟩
    exact fun o' ho' => not_lt.mpr httl (hown o' ho').2.1
  · rw [if_neg httl] at hrun
    by_cases hban : sp.banned x = true
    · rw [if_pos hban, Option.some.injEq, Prod.mk.injEq] at hrun
      obtain ⟨rfl, rfl⟩ := hrun
      refine Or.inr ⟨rfl, scanned_skip hscan ?_ hscan.rest ⟨rfl, rfl⟩ (fun _ => hbusy) ?_⟩
      · intro y
        by_cases hy : y = x
        · rw [hy]
          exact Or.inr ⟨hban, oc, o, hoc, hbody, Function.update_self ..⟩
        · have hsame := hscan.cleared y
          unfold Cleared at hsame ⊢
          simp only [Function.update_of_ne hy]
          exact hsame
      · intro o' ho'
        rw [hban] at hown
        exact Bool.noConfusion (hown o' ho').2.2.1
    · rw [if_neg hban] at hrun
      obtain ⟨⟨m, buf⟩, hvary, heq⟩ := Option.map_eq_some_iff.mp hrun
      obtain ⟨hm, -, hrest⟩ := varyOk_spec hscan.rest hstr hvary
      cases m with
      | false =>
        obtain ⟨rfl, rfl⟩ := Prod.mk.inj heq
        refine Or.inr ⟨rfl, scanned_skip hscan hscan.cleared hrest ⟨rfl, rfl⟩ (fun _ => hbusy) ?_⟩
        exact fun o' ho' => Bool.noConfusion (hm.mpr (hown o' ho').2.2.2)
      | true =>
        have husable : Usable sp cores x o :=
          ⟨oc, hoc, hbody, not_le.mp httl, Bool.not_eq_true _ ▸ hban, hm.mp rfl⟩
        simp only [Bool.not_true, Bool.false_eq_true, if_false] at heq
        by_cases hfresh : sp.tReq ≤ sp.expTtl o.exp
        · rw [if_pos hfresh] at heq
          obtain ⟨rfl, rfl⟩ := Prod.mk.inj heq
          exact Or.inl ⟨rfl, ⟨o, husable, hfresh⟩, hscan.cleared, hrest, hscan.busy, hscan.fresh, hscan.grace⟩
        · rw [if_neg hfresh] at heq
          have hnot : ¬ FreshCore sp cores x := by
            rintro ⟨o', ho', hle⟩
            rw [(hown o' ho').1] at hle
            exact hfresh hle
          right
          by_cases hgrace : sp.tReq ≤ sp.expGrace o.exp
          · rw [if_pos hgrace] at heq
            obtain ⟨rfl, rfl⟩ := Prod.mk.inj heq
            obtain ⟨hcores, hbuf, hoc'⟩ := remember_rest { v with buf := buf } x o.exp
            refine ⟨rfl, scanned_next hscan ?_ ?_ ?_ hnot ?_⟩
            · rw [hcores]
              exact hscan.cleared
            · rw [hbuf]
              exact hrest
            · rw [hoc', or_iff_left (fun hwaits => hbusy hwaits.2)]
            · exact best_remember (v := { v with buf := buf }) hscan.grace ⟨husable, hgrace⟩
          · rw [if_neg hgrace] at heq
            obtain ⟨rfl, rfl⟩ := Prod.mk.inj heq
            refine ⟨rfl, scanned_next hscan hscan.cleared hrest ?_ hnot (best_skip hscan.grace ?_)⟩
            · rw [or_iff_left (fun hwaits => hbusy hwaits.2)]
            · rintro o' ⟨ho', hle⟩
              rw [(hown o' ho').1] at hle
              exact hgrace hle

lemma round_spec {brk : Bool} (hscan : Scanned sp cores seen v)
    (hstr : ∀ oc, cores x = some oc → ∀ s ∈ ocVary oc.body, ∃ es, HoldsEntries s es)
    (hrun : v.round sp oh refcnt x = some (brk, v')) :
    brk = true ∧ FreshCore sp cores x ∧ Scanned sp cores seen v' ∨ brk = false ∧ Scanned sp cores (seen ++ [x]) v' := by
  unfold LookupVars.round at hrun
  obtain ⟨oc, hoc, hrun⟩ := Option.bind_eq_some_iff.mp hrun
  split at hrun
  · cases hrun
  · rcases cleared_core hscan.cleared hoc with hcore | ⟨hban, oc', o, hoc', hbody, rfl⟩
    · cases hbody : oc.body with
      | busy vary =>
        simp only [hbody] at hrun
        refine Or.inr (busyRound_spec hscan hcore hbody ?_ hrun)
        have hvary := hstr oc hcore
        rw [hbody] at hvary
        exact hvary
      | obj o =>
        simp only [hbody] at hrun
        refine objRound_spec hscan hcore hbody ?_ hrun
        have hvary := hstr oc hcore
        rw [hbody] at hvary
        exact hvary
    · -- an object that a ban has cleared in an earlier round
      have httl : ObjExp.clr.ttl ≤ 0 := by decide
      simp only [objRound, if_pos httl, Option.some.injEq, Prod.mk.injEq] at hrun
      obtain ⟨rfl, rfl⟩ := hrun
      refine Or.inr ⟨rfl, scanned_skip hscan hscan.cleared hscan.rest ⟨rfl, rfl⟩
        (fun _ => not_busyMatch hoc' hbody) ?_⟩
      rintro o' ⟨_, _, _, _, hnot, _⟩
      rw [hban] at hnot
      cases hnot

/-- The loop up to the `break`, or to the end. -/
lemma scan_spec {r : Option Nat} (hscan : Scanned sp cores seen v) (hstr : VaryStrings cores xs)
    (hrun : scan sp oh refcnt xs v = some (r, v')) :
    match r with
    | none => Scanned sp cores (seen ++ xs) v'
    | some x => ∃ before after, xs = before ++ x :: after ∧ FreshCore sp cores x ∧
        Scanned sp cores (seen ++ before) v' := by
  induction xs generalizing seen v with
  | nil =>
    cases hrun
    simpa using hscan
  | cons x xs ih =>
    rw [scan] at hrun
    obtain ⟨⟨brk, v1⟩, hround, hrun⟩ := Option.bind_eq_some_iff.mp hrun
    have hstrx := hstr x List.mem_cons_self
    rcases round_spec hscan hstrx hround with ⟨rfl, hfresh, hscan1⟩ | ⟨rfl, hscan1⟩
    · cases hrun
      exact ⟨[], xs, rfl, hfresh, by rw [List.append_nil]; exact hscan1⟩
    · have hrest := ih hscan1 (fun y hy => hstr y (List.mem_cons_of_mem _ hy)) hrun
      cases r with
      | none =>
        rw [List.append_assoc] at hrest
        exact hrest
      | some z =>
        obtain ⟨before, after, rfl, hfresh, hscan2⟩ := hrest
        rw [List.append_assoc] at hscan2
        exact ⟨x :: before, after, rfl, hfresh, hscan2⟩

/-! ## What is returned -/

/-- The first fresh object of the list. -/
def FirstFresh (sp : LookupReq) (cores : Nat → Option LookupOc) (xs : List Nat) (x : Nat) : Prop :=
  ∃ before after, xs = before ++ x :: after ∧ FreshCore sp cores x ∧ ∀ y ∈ before, ¬ FreshCore sp cores y

/-- An object in grace that no other one in grace outlives, where none is fresh. -/
def LeastExpired (sp : LookupReq) (cores : Nat → Option LookupOc) (xs : List Nat) (x : Nat) : Prop :=
  (∀ y ∈ xs, ¬ FreshCore sp cores y) ∧ x ∈ xs ∧
    ∃ o, InGrace sp cores x o ∧ ∀ y ∈ xs, ∀ o', InGrace sp cores y o' → expires o'.exp ≤ expires o.exp

/-- An object that `HSH_Lookup` may return. -/
def Deliverable (sp : LookupReq) (cores : Nat → Option LookupOc) (xs : List Nat) (x : Nat) : Prop :=
  FirstFresh sp cores xs x ∨ LeastExpired sp cores xs x ∧ (BusySeen sp cores xs ∨ sp.healthy = false)

/-- The objcore of a hit has a reference and a hit more. -/
def Used (cores cores' : Nat → Option LookupOc) (x : Nat) : Prop :=
  ∃ oc o, cores x = some oc ∧ oc.body = .obj o ∧
    cores' x = some
      { oc with
        refcnt := oc.refcnt + 1
        body := .obj { o with hits := if o.hits < 2 ^ 31 - 1 then o.hits + 1 else o.hits } }

/-- What `HSH_Lookup` may do. -/
def Selected (sp : LookupReq) (sess oh : Nat) (h : LookupHead) (cores : Nat → Option LookupOc) (out : LookupOut) :
    Prop :=
  match out.ret with
  | .hit x =>
    sp.hashAlwaysMiss = false ∧ Deliverable sp cores h.objcs x ∧ out.head = { h with refcnt := h.refcnt - 1 } ∧
      Used cores out.cores x ∧ ∀ y, y ≠ x → Cleared sp cores out.cores y
  | .parked =>
    BusySeen sp cores h.objcs ∧ (∀ y ∈ h.objcs, ¬ FreshCore sp cores y ∧ ∀ o, ¬ InGrace sp cores y o) ∧
      out.head = (if sp.esiLevel = 0 then { h with waitinglist := some (h.waitinglist.getD [] ++ [sess]) } else h) ∧
      ∀ y, Cleared sp cores out.cores y
  | .miss x =>
    x = sp.nobjcore ∧ out.head = { h with objcs := h.objcs ++ [x] } ∧
      (∃ vary, out.cores x = some ⟨oh, 1, .busy vary⟩) ∧ (∀ y, y ≠ x → Cleared sp cores out.cores y) ∧
      (sp.hashAlwaysMiss = true ∨ ¬ BusySeen sp cores h.objcs ∧ ∀ y, ¬ Deliverable sp cores h.objcs y)

lemma deliverable_usable (hx : Deliverable sp cores xs x) : ∃ o, Usable sp cores x o := by
  rcases hx with ⟨-, -, -, ⟨o, ho, -⟩, -⟩ | ⟨⟨-, -, o, ho, -⟩, -⟩
  · exact ⟨o, ho⟩
  · exact ⟨o, ho.1⟩

lemma cleared_usable {o : LookupObj} (hcleared : Cleared sp cores cores' x) (ho : Usable sp cores x o) :
    cores' x = cores x := by
  obtain ⟨-, -, -, -, hban, -⟩ := ho
  rcases hcleared with hsame | ⟨hban', -⟩
  · exact hsame
  · rw [hban] at hban'
    cases hban'

lemma hit_spec {out : LookupOut} (hmiss : sp.hashAlwaysMiss = false) (hcleared : ∀ y, Cleared sp cores v.cores y)
    (hx : Deliverable sp cores h.objcs x) (hrun : v.hit oh h x = some out) : Selected sp sess oh h cores out := by
  obtain ⟨o, ho⟩ := deliverable_usable hx
  have hsame := cleared_usable (hcleared x) ho
  obtain ⟨oc, hoc, hbody, -⟩ := ho
  unfold LookupVars.hit at hrun
  rw [hsame, hoc, Option.bind_some] at hrun
  simp only [hbody] at hrun
  split at hrun
  · cases hrun
  · cases hrun
    refine ⟨hmiss, hx, rfl, ⟨oc, o, hoc, hbody, Function.update_self ..⟩, ?_⟩
    intro y hy
    have hkept := hcleared y
    unfold Cleared at hkept ⊢
    simp only [Function.update_of_ne hy]
    exact hkept

lemma lookup_insert_spec {out : LookupOut} (hcleared : ∀ y, Cleared sp cores v.cores y)
    (hnone : sp.hashAlwaysMiss = true ∨ ¬ BusySeen sp cores h.objcs ∧ ∀ y, ¬ Deliverable sp cores h.objcs y)
    (hrun : v.insert sp oh h = some out) : Selected sp sess oh h cores out := by
  unfold LookupVars.insert at hrun
  split at hrun
  · cases hrun
    refine ⟨rfl, rfl, ⟨_, Function.update_self ..⟩, ?_, hnone⟩
    intro y hy
    have hkept := hcleared y
    unfold Cleared at hkept ⊢
    simp only [Function.update_of_ne hy]
    exact hkept
  · cases hrun

lemma best_leastExpired {t : ℚ} (hfresh : ∀ y ∈ xs, ¬ FreshCore sp cores y) (hbest : Best sp cores xs (some (x, t))) :
    LeastExpired sp cores xs x := by
  obtain ⟨hmem, o, ho, rfl, hmax⟩ := hbest
  exact ⟨hfresh, hmem, o, ho, hmax⟩

lemma firstFresh_mem (hx : FirstFresh sp cores xs x) : x ∈ xs ∧ FreshCore sp cores x := by
  obtain ⟨before, after, rfl, hfresh, -⟩ := hx
  exact ⟨List.mem_append_right _ List.mem_cons_self, hfresh⟩

/-- What there is to do after the tests for grace. -/
def Chosen (sp : LookupReq) (cores : Nat → Option LookupOc) (xs : List Nat) (v : LookupVars) : Option Nat → Prop
  | some x => sp.hashAlwaysMiss = false ∧ Deliverable sp cores xs x
  | none =>
    if v.busyOc.isSome then BusySeen sp cores xs ∧ ∀ y ∈ xs, ¬ FreshCore sp cores y ∧ ∀ o, ¬ InGrace sp cores y o
    else sp.hashAlwaysMiss = true ∨ ¬ BusySeen sp cores xs ∧ ∀ y, ¬ Deliverable sp cores xs y

lemma always_miss_idle (hscan : Scanned sp cores seen v) (hmiss : sp.hashAlwaysMiss = true) :
    ¬ v.busyOc.isSome = true := by
  rw [hscan.busy]
  rintro ⟨⟨-, hno⟩, -⟩
  rw [hmiss] at hno
  cases hno

/-- The loop has come to the end. -/
lemma chosen_end (hscan : Scanned sp cores xs v) : Chosen sp cores xs v (v.chosen sp none) := by
  have hnofirst : ∀ y, ¬ FirstFresh sp cores xs y :=
    fun y hy => hscan.fresh y (firstFresh_mem hy).1 (firstFresh_mem hy).2
  cases hmiss : sp.hashAlwaysMiss with
  | true =>
    simp only [chosen, hmiss, if_true, Chosen, if_neg (always_miss_idle hscan hmiss)]
    exact Or.inl trivial
  | false =>
    have hgrace := hscan.grace
    have hbusy := hscan.busy
    cases hg : v.graceOc with
    | none =>
      rw [hg] at hgrace
      have hnone : ∀ y, ¬ Deliverable sp cores xs y := by
        rintro y (hy | ⟨⟨-, hy, o, ho, -⟩, -⟩)
        · exact hnofirst y hy
        · exact hgrace y hy o ho
      simp only [chosen, hmiss, hg, Option.isSome_none, Bool.and_false, Bool.false_and,
        Bool.false_eq_true, if_false, Chosen]
      by_cases hseen : v.busyOc.isSome = true
      · rw [if_pos hseen]
        exact ⟨hbusy.mp hseen, fun y hy => ⟨hscan.fresh y hy, hgrace y hy⟩⟩
      · rw [if_neg hseen]
        exact Or.inr ⟨fun hb => hseen (hbusy.mpr hb), hnone⟩
    | some g =>
      obtain ⟨x, t⟩ := g
      rw [hg] at hgrace
      have hleast := best_leastExpired hscan.fresh hgrace
      by_cases hseen : v.busyOc.isSome = true ∨ sp.healthy = false
      · have hcond : (v.busyOc.isSome || !sp.healthy) = true := by simpa using hseen
        simp only [chosen, hmiss, hg, hcond, Option.isNone_none, Option.isSome_some, Bool.and_self, if_true,
          Bool.false_eq_true, if_false, Option.map_some, Chosen]
        exact ⟨trivial, Or.inr ⟨hleast, hseen.imp_left hbusy.mp⟩⟩
      · obtain ⟨hidle, hhealthy⟩ := not_or.mp hseen
        have hwell : (!sp.healthy) = false := by simpa using hhealthy
        simp only [chosen, hmiss, hg, hwell, hidle, Bool.or_false, Bool.and_false, Bool.false_eq_true, if_false, Chosen]
        refine Or.inr ⟨fun hb => hidle (hbusy.mpr hb), ?_⟩
        rintro y (hy | ⟨-, hb | hsick⟩)
        · exact hnofirst y hy
        · exact hidle (hbusy.mpr hb)
        · exact hhealthy hsick

/-- The loop has found a fresh object. -/
lemma chosen_break {before after : List Nat} (hxs : xs = before ++ x :: after) (hfresh : FreshCore sp cores x)
    (hscan : Scanned sp cores before v) : Chosen sp cores xs v (v.chosen sp (some x)) := by
  cases hmiss : sp.hashAlwaysMiss with
  | true =>
    simp only [chosen, hmiss, if_true, Chosen, if_neg (always_miss_idle hscan hmiss)]
    exact Or.inl trivial
  | false =>
    simp only [chosen, hmiss, Option.isNone_some, Bool.false_and, Bool.false_eq_true, if_false, Chosen]
    exact ⟨trivial, Or.inl ⟨before, after, hxs, hfresh, hscan.fresh⟩⟩

/-- After the loop: what the bans and `VRY_Match` have left, and what there is to do. -/
lemma scan_chosen {r : Option Nat} (hbuf : buf.mem 2 = 0) (hstr : VaryStrings cores xs)
    (hrun : scan sp oh refcnt xs { cores := cores, buf := buf, busyOc := none, graceOc := none } = some (r, v)) :
    (∀ y, Cleared sp cores v.cores y) ∧ VaryRest sp.http v.buf.e v.buf.mem 0 ∧ Chosen sp cores xs v (v.chosen sp r) := by
  have hspec := scan_spec (scanned_start hbuf) hstr hrun
  cases r with
  | none => exact ⟨hspec.cleared, hspec.rest, chosen_end hspec⟩
  | some x =>
    obtain ⟨before, after, hxs, hfresh, hscan⟩ := hspec
    exact ⟨hscan.cleared, hscan.rest, chosen_break hxs hfresh hscan⟩

/-! ## When it returns -/

lemma strlenAt_encode {m : Nat → UInt8} {o : Nat} {a : VaryEntry} (ha : readAt m o a.encode.length = a.encode) :
    m (o + 2) ≠ 0 ∧ strlenAt m (o + 3) (m (o + 2)).toNat = true := by
  have hhead := readAt_header ha
  have hstr : hdrString a.name = [(1 + a.name.length).toUInt8] ++ ((a.name ++ [chColon]) ++ [0]) := by
    simp [hdrString]
  rw [← length_hdrString, hstr, readAt_append, readAt_append] at hhead
  obtain ⟨hlen, hname, hnul⟩ := hhead
  have hlen' : m (o + 2) = (1 + a.name.length).toUInt8 := (List.cons.inj hlen).1
  have hnum : (m (o + 2)).toNat = (a.name ++ [chColon]).length := by
    have h0 := hdrString_toNat a.name_len
    rw [hdrString, List.cons_append, List.getD_cons_zero] at h0
    rw [hlen', h0, List.length_append, List.length_singleton]
  refine ⟨?_, ?_⟩
  · intro hzero
    rw [hzero, List.length_append, List.length_singleton] at hnum
    exact absurd hnum (Nat.succ_ne_zero _).symm
  · rw [hnum, strlenAt, Bool.and_eq_true, decide_eq_true_iff]
    refine ⟨?_, (List.cons.inj hnul).1⟩
    have hname' : readAt m (o + 3) (a.name ++ [chColon]).length = a.name ++ [chColon] := hname
    rw [hname', List.all_eq_true]
    intro c hc
    rcases List.mem_append.mp hc with hc | hc
    · exact decide_eq_true (fun hzero => a.name_nul (hzero ▸ hc))
    · rw [List.mem_singleton.mp hc]
      decide

/-- The buffer that `VRY_Match` leaves passes `VRY_Validate`. -/
lemma vryValidate_chain {m : Nat → UInt8} {e o o' n : Nat} {ys : List VaryEntry}
    (hchain : VaryChain sp.http e m o ys o') (hend : m (o' + 2) = 0) (hn : ys.length < n) :
    vryValidate m n o = true := by
  induction ys generalizing o n with
  | nil =>
    obtain ⟨n, rfl⟩ := Nat.exists_eq_succ_of_ne_zero (Nat.ne_of_gt hn)
    rw [show o = o' from hchain, vryValidate, if_pos hend]
  | cons a ys ih =>
    obtain ⟨n, rfl⟩ := Nat.exists_eq_succ_of_ne_zero (Nat.ne_of_gt (Nat.zero_lt_of_lt hn))
    obtain ⟨hread, -, -, hrest⟩ := hchain
    obtain ⟨hne, hstr⟩ := strlenAt_encode hread
    rw [vryValidate, if_neg hne, hstr, vryLen_readAt hread, Bool.true_and]
    exact ih hrest (Nat.lt_of_succ_lt_succ hn)

lemma varyChain_length {m : Nat → UInt8} {e o o' : Nat} {ys : List VaryEntry}
    (hchain : VaryChain sp.http e m o ys o') : ys = [] ∨ o + ys.length ≤ e := by
  induction ys generalizing o with
  | nil => exact Or.inl rfl
  | cons a ys ih =>
    obtain ⟨-, -, hroom, hrest⟩ := hchain
    have hlen := length_encode a
    right
    rw [List.length_cons]
    rcases ih hrest with rfl | hle
    · rw [List.length_nil]
      omega
    · omega

lemma vryValidate_rest (hrest : VaryRest sp.http buf.e buf.mem 0) : vryValidate buf.mem (buf.e + 1) 0 = true := by
  obtain ⟨ys, o', hchain, hend⟩ := hrest
  refine vryValidate_chain hchain hend ?_
  rcases varyChain_length hchain with rfl | hle
  · exact Nat.succ_pos _
  · rw [Nat.zero_add] at hle
    exact Nat.lt_succ_of_le hle

/-- The vary strings meet the predictive buffer. -/
def VaryStringsFit (sp : LookupReq) (e : Nat) (vary : Option (List UInt8)) : Prop :=
  ∀ s ∈ vary, ∀ es, HoldsEntries s es → VaryFits sp.http e 0 es

lemma varyOk_runs (hrest : VaryRest sp.http buf.e buf.mem 0) (hstr : ∀ s ∈ vary, ∃ es, HoldsEntries s es)
    (hfit : VaryStringsFit sp buf.e vary) : ∃ m buf', sp.varyOk buf vary = some (m, buf') ∧ buf'.e = buf.e := by
  cases vary with
  | none => exact ⟨true, buf, rfl, rfl⟩
  | some s =>
    obtain ⟨es, hes⟩ := hstr s rfl
    obtain ⟨buf', hrun, he, -⟩ := vryMatch_fits sp.gzip hes hrest (hfit s rfl es hes)
    exact ⟨_, buf', hrun, he⟩

/-- The objcores of the list are those of the objhead, each has a reference to it, and so has the session. -/
structure LookupRuns (sp : LookupReq) (oh : Nat) (h : LookupHead) (cores : Nat → Option LookupOc) (e : Nat) : Prop where
  refcnt : h.objcs.length < h.refcnt
  owned : ∀ x ∈ h.objcs, ∃ oc, cores x = some oc ∧ oc.objhead = oh ∧ VaryStringsFit sp e (ocVary oc.body)

lemma objRound_runs {oc : LookupOc} {o : LookupObj} (hrest : VaryRest sp.http v.buf.e v.buf.mem 0)
    (hstr : ∀ s ∈ o.vary, ∃ es, HoldsEntries s es) (hfit : VaryStringsFit sp v.buf.e o.vary) :
    ∃ brk v', v.objRound sp x oc o = some (brk, v') ∧ v'.buf.e = v.buf.e := by
  obtain ⟨m, buf', hvary, he⟩ := varyOk_runs hrest hstr hfit
  unfold objRound
  split
  · exact ⟨_, _, rfl, rfl⟩
  · split
    · exact ⟨_, _, rfl, rfl⟩
    · rw [hvary, Option.map_some]
      cases m with
      | false => exact ⟨_, _, rfl, he⟩
      | true =>
        simp only [Bool.not_true, Bool.false_eq_true, if_false]
        split
        · exact ⟨_, _, rfl, he⟩
        · split
          · refine ⟨_, _, rfl, ?_⟩
            rw [(remember_rest _ _ _).2.1]
            exact he
          · exact ⟨_, _, rfl, he⟩

lemma busyRound_runs (hrest : VaryRest sp.http v.buf.e v.buf.mem 0) (hstr : ∀ s ∈ vary, ∃ es, HoldsEntries s es)
    (hfit : VaryStringsFit sp v.buf.e vary) :
    ∃ brk v', v.busyRound sp x vary = some (brk, v') ∧ v'.buf.e = v.buf.e := by
  obtain ⟨m, buf', hvary, he⟩ := varyOk_runs hrest hstr hfit
  unfold busyRound
  split
  · exact ⟨_, _, rfl, rfl⟩
  · rw [hvary, Option.map_some]
    exact ⟨_, _, rfl, he⟩

lemma round_runs (hscan : Scanned sp cores seen v) (hrefcnt : 1 < refcnt)
    (hstr : ∀ oc, cores x = some oc → ∀ s ∈ ocVary oc.body, ∃ es, HoldsEntries s es)
    (howned : ∃ oc, cores x = some oc ∧ oc.objhead = oh ∧ VaryStringsFit sp v.buf.e (ocVary oc.body)) :
    ∃ brk v', v.round sp oh refcnt x = some (brk, v') ∧ v'.buf.e = v.buf.e := by
  obtain ⟨oc, hoc, hown, hfit⟩ := howned
  have hvary := hstr oc hoc
  unfold LookupVars.round
  rcases hscan.cleared x with hsame | ⟨-, oc', o, hoc', hbody, hclr⟩
  · rw [hsame, hoc, Option.bind_some, if_neg (by omega)]
    cases hbody : oc.body with
    | busy vary =>
      rw [hbody] at hvary hfit
      exact busyRound_runs hscan.rest hvary hfit
    | obj o =>
      rw [hbody] at hvary hfit
      exact objRound_runs hscan.rest hvary hfit
  · rw [hoc, Option.some.injEq] at hoc'
    subst hoc'
    rw [hbody] at hvary hfit
    have hguard : ¬ (refcnt ≤ 1 ∨ oc.objhead ≠ oh) := by omega
    rw [hclr, Option.bind_some]
    simp only [if_neg hguard]
    exact objRound_runs (o := { o with exp := .clr }) hscan.rest hvary hfit

lemma scan_runs (hscan : Scanned sp cores seen v) (hstr : VaryStrings cores xs) (hrefcnt : xs ≠ [] → 1 < refcnt)
    (howned : ∀ x ∈ xs, ∃ oc, cores x = some oc ∧ oc.objhead = oh ∧ VaryStringsFit sp v.buf.e (ocVary oc.body)) :
    ∃ r v', scan sp oh refcnt xs v = some (r, v') := by
  induction xs generalizing seen v with
  | nil => exact ⟨none, v, rfl⟩
  | cons x xs ih =>
    have hone := hrefcnt (List.cons_ne_nil _ _)
    have hstrx := hstr x List.mem_cons_self
    obtain ⟨brk, v1, hround, he⟩ := round_runs hscan hone hstrx (howned x List.mem_cons_self)
    rw [scan, hround, Option.bind_some]
    cases brk with
    | true => exact ⟨some x, v1, rfl⟩
    | false =>
      rcases round_spec hscan hstrx hround with ⟨hbrk, -⟩ | ⟨-, hscan1⟩
      · cases hbrk
      · refine ih hscan1 (fun y hy => hstr y (List.mem_cons_of_mem _ hy)) (fun _ => hone) ?_
        rw [he]
        exact fun y hy => howned y (List.mem_cons_of_mem _ hy)

lemma hit_runs (hscan : ∀ y, Cleared sp cores v.cores y) (hrefcnt : 1 < h.refcnt)
    (howned : ∃ oc, cores x = some oc ∧ oc.objhead = oh) (hx : ∃ o, Usable sp cores x o) :
    ∃ out, v.hit oh h x = some out := by
  obtain ⟨o, ho⟩ := hx
  have hsame := cleared_usable (hscan x) ho
  obtain ⟨oc, hoc, hbody, -⟩ := ho
  obtain ⟨oc', hoc', hown⟩ := howned
  rw [hoc, Option.some.injEq] at hoc'
  rw [← hoc'] at hown
  unfold LookupVars.hit
  rw [hsame, hoc, Option.bind_some]
  simp only [hbody, hown]
  rw [if_neg (by omega)]
  exact ⟨_, rfl⟩

lemma deliverable_mem (hx : Deliverable sp cores xs x) : x ∈ xs := by
  rcases hx with hfirst | ⟨⟨-, hmem, -⟩, -⟩
  · exact (firstFresh_mem hfirst).1
  · exact hmem

/-- `HSH_Lookup` for a predictive buffer that `cnt_lookup` has made ready. -/
theorem hshLookup_selects (sess : Nat) (hbuf : buf.mem 2 = 0) (hstr : VaryStrings cores h.objcs) :
    (∀ out, hshLookup sp sess oh h cores buf = some out → Selected sp sess oh h cores out) ∧
      (LookupRuns sp oh h cores buf.e → ∃ out, hshLookup sp sess oh h cores buf = some out) := by
  unfold hshLookup
  constructor
  · intro out hrun
    split at hrun
    · cases hrun
    · obtain ⟨⟨r, v⟩, hloop, hrun⟩ := Option.bind_eq_some_iff.mp hrun
      obtain ⟨hcleared, -, hchosen⟩ := scan_chosen hbuf hstr hloop
      cases hr : v.chosen sp r with
      | some x =>
        rw [hr] at hchosen
        simp only [hr] at hrun
        exact hit_spec hchosen.1 hcleared hchosen.2 hrun
      | none =>
        rw [hr] at hchosen
        simp only [hr] at hrun
        unfold Chosen at hchosen
        by_cases hseen : v.busyOc.isSome = true
        · rw [if_pos hseen] at hrun hchosen
          cases hrun
          exact ⟨hchosen.1, hchosen.2, rfl, hcleared⟩
        · rw [if_neg hseen] at hrun hchosen
          exact lookup_insert_spec hcleared hchosen hrun
  · rintro ⟨hrefcnt, howned⟩
    have hone : ∀ x ∈ h.objcs, 1 < h.refcnt := by
      intro x hx
      have hlen := List.length_pos_of_mem hx
      omega
    obtain ⟨r, v, hloop⟩ := scan_runs (scanned_start hbuf) hstr (fun hne => hone _ (List.head_mem hne)) howned
    obtain ⟨hcleared, hrest, hchosen⟩ := scan_chosen hbuf hstr hloop
    rw [if_neg (Nat.ne_of_gt (Nat.zero_lt_of_lt hrefcnt)), hloop, Option.bind_some]
    cases hr : v.chosen sp r with
    | some x =>
      rw [hr] at hchosen
      have hmem := deliverable_mem hchosen.2
      obtain ⟨oc, hoc, hown, -⟩ := howned x hmem
      simp only [hr]
      exact hit_runs hcleared (hone x hmem) ⟨oc, hoc, hown⟩ (deliverable_usable hchosen.2)
    | none =>
      simp only [hr]
      split
      · exact ⟨_, rfl⟩
      · exact ⟨_, if_pos (vryValidate_rest hrest)⟩

def langEntry (value : List UInt8) (h : ∀ v, some value = some v → v.length < 0xffff) : VaryEntry :=
  ⟨bytes "Accept-Language", some value, by decide, by decide, h⟩

def langEn : VaryEntry := langEntry (bytes "en") (by rintro v ⟨⟩; decide)
def langDe : VaryEntry := langEntry (bytes "de") (by rintro v ⟨⟩; decide)

def graceReq : LookupReq where
  http := ⟨[bytes "Accept-Language: en"]⟩
  hashIgnoreBusy := false
  hashAlwaysMiss := false
  esiLevel := 0
  tReq := 15
  ttl := 0
  grace := 0
  gzip := true
  defaultGrace := 10
  nobjcore := 9
  banned := fun x => x = 3
  healthy := true

/-- An object that another session is fetching again, while it is in grace, behind one for another language and one
that is banned. -/
def graceCores : Nat → Option LookupOc
  | 1 => some ⟨7, 1, .busy none⟩
  | 2 => some ⟨7, 1, .obj ⟨⟨0, 10, -1⟩, some (varyString [langEn]), 0⟩⟩
  | 3 => some ⟨7, 1, .obj ⟨⟨10, 10, -1⟩, none, 0⟩⟩
  | 4 => some ⟨7, 1, .obj ⟨⟨10, 10, -1⟩, some (varyString [langDe]), 0⟩⟩
  | _ => none

theorem hshLookup_selects_grace :
    ∃ out, hshLookup graceReq 1 7 ⟨5, [4, 3, 2, 1], none⟩ graceCores ⟨fun _ => 0, 64, none⟩ = some out ∧ out.ret = .hit 2 ∧
      Selected graceReq 1 7 ⟨5, [4, 3, 2, 1], none⟩ graceCores out := by
  have hbuf : (⟨fun _ => 0, 64, none⟩ : VaryBuf).mem 2 = 0 := rfl
  have hstr : VaryStrings graceCores (⟨5, [4, 3, 2, 1], none⟩ : LookupHead).objcs := by
    intro x hx oc hoc s hs
    match x, hoc with
    | 1, rfl => cases hs
    | 2, rfl =>
      cases hs
      exact ⟨[langEn], holds_varyString _⟩
    | 3, rfl => cases hs
    | 4, rfl =>
      cases hs
      exact ⟨[langDe], holds_varyString _⟩
  have hrun : (hshLookup graceReq 1 7 ⟨5, [4, 3, 2, 1], none⟩ graceCores ⟨fun _ => 0, 64, none⟩).map LookupOut.ret =
      some (.hit 2) := by decide +kernel
  obtain ⟨out, hout, hret⟩ := Option.map_eq_some_iff.mp hrun
  exact ⟨out, hout, hret, (hshLookup_selects 1 hbuf hstr).1 out hout⟩

end VarnishCache.Proofs
