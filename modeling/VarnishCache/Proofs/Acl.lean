import VarnishCache.Proofs.AclOrder
import Mathlib.Data.List.TakeWhile

/-!
# The function for an ACL

The ifs that `vcc_acl_emit` leaves open are those of the entry before, so the generated function goes through the
entries in the order of the list, and the first one that matches has the longest mask.
-/

namespace VarnishCache.Proofs

open VarnishCache NestedIfs PrefixOrder

variable {anon : Bool} {acln : String} {st st' : AclEmit} {ae : AclE} {path : List AclTest} {p : AclAddr}

/-- All the tests for an entry. -/
def AclE.tests (ae : AclE) : List AclTest :=
  (List.range (ae.mask / 8)).map ae.wholeTest ++
    if 0 < ae.mask % 8 then [ae.fracTest (ae.mask % 8) (ae.mask / 8)] else []

lemma AclE.tests_drop (ae : AclE) {l : Nat} (hl : l ≤ ae.mask / 8) :
    (AclE.tests ae).drop l = (List.range' l (ae.mask / 8 - l)).map ae.wholeTest ++
      if 0 < ae.mask % 8 then [ae.fracTest (ae.mask % 8) (ae.mask / 8)] else [] := by
  have hrange : List.range (ae.mask / 8) = List.range l ++ List.range' l (ae.mask / 8 - l) := by
    rw [List.range_eq_range', List.range_eq_range']
    have happ := List.range'_append_1 (s := 0) (m := l) (n := ae.mask / 8 - l)
    rw [Nat.zero_add, Nat.add_sub_cancel' hl] at happ
    exact happ.symm
  rw [AclE.tests, hrange, List.map_append, List.append_assoc, List.drop_append_of_le_length (by simp)]
  rw [List.drop_of_length_le (by simp), List.nil_append]

/-- The test that `at` stands for at depth `i`. -/
def atTest (i : Nat) (v : UInt8) : AclTest := if i = 0 then .fam v else .byte (i - 1) v

/-- The ifs of `path` are open. -/
structure EmitAt (st : AclEmit) (path : List AclTest) : Prop where
  depth : st.depth = path.length
  at_ : ∀ i v, i < st.depth → st.at_ i = UInt8.toNat v → path[i]? = some (atTest i v)

lemma common_spec (st : AclEmit) (ae : AclE) : st.common ae ≤ st.depth ∧
    ∀ i < st.common ae, i * 8 < ae.mask - 7 ∧ (ae.data.getD i 0).toNat = st.at_ i := by
  set w := (List.range st.depth).takeWhile
    (fun l => l * 8 < ae.mask - 7 ∧ (ae.data.getD l 0).toNat = st.at_ l) with hw
  have hpre : w <+: List.range st.depth := List.takeWhile_prefix _
  have hlen : w.length ≤ st.depth := by
    have hle := hpre.length_le
    rwa [List.length_range] at hle
  have hrange : w = List.range w.length := by
    have htake := List.prefix_iff_eq_take.mp hpre
    rw [List.take_range, min_eq_left hlen] at htake
    exact htake
  refine ⟨hlen, ?_⟩
  intro i hi
  have hmem : i ∈ w := by
    rw [hrange]
    exact List.mem_range.mpr hi
  have hp := List.mem_takeWhile_imp hmem
  simpa using hp

/-- The open ifs that stay are the first ones for the entry. -/
lemma EmitAt.take (h : EmitAt st path) (ae : AclE) (hmask : 8 ≤ ae.mask) : st.common ae ≤ ae.mask / 8 ∧
    path.take (st.common ae) = (AclE.tests ae).take (st.common ae) := by
  obtain ⟨hle, hall⟩ := common_spec st ae
  have hbyte : ∀ i < st.common ae, i < ae.mask / 8 := by
    intro i hi
    have := (hall i hi).1
    omega
  have hcommon : st.common ae ≤ ae.mask / 8 := by
    by_contra hgt
    exact absurd (hbyte (ae.mask / 8) (by omega)) (lt_irrefl _)
  refine ⟨hcommon, List.ext_getElem? ?_⟩
  intro i
  rw [List.getElem?_take, List.getElem?_take]
  by_cases hi : i < st.common ae
  · have hib := hbyte i hi
    rw [if_pos hi, if_pos hi, h.at_ i (ae.data.getD i 0) (by omega) (hall i hi).2.symm, AclE.tests,
      List.getElem?_append_left (by simpa using hib), List.getElem?_map, List.getElem?_range hib]
    rfl
  · rw [if_neg hi, if_neg hi]

lemma foldl_open (ae : AclE) (n : Nat) {l : Nat} (hl : st.depth = l) :
    (List.range' l n).foldl (fun st i => st.open_ i (ae.wholeTest i) (ae.data.getD i 0).toNat) st =
      { depth := l + n, at_ := fun i => if l ≤ i ∧ i < l + n then (ae.data.getD i 0).toNat else st.at_ i,
        out := st.out ++ (List.range' l n).map (fun i => .ifOpen (ae.wholeTest i)) } := by
  induction n generalizing l st with
  | zero =>
    subst hl
    have hnone : ∀ i, ¬ (st.depth ≤ i ∧ i < st.depth) := by omega
    simp [hnone]
  | succ n ih =>
    rw [List.range'_succ, List.foldl_cons, ih (by rfl)]
    simp only [AclEmit.open_, List.map_cons, AclEmit.mk.injEq]
    refine ⟨by omega, ?_, by simp⟩
    funext i
    by_cases hi : i = l
    · subst hi
      rw [if_neg (by omega), if_pos (by omega), Function.update_self]
    · rw [Function.update_of_ne hi]
      by_cases hin : l + 1 ≤ i ∧ i < l + 1 + n
      · rw [if_pos hin, if_pos (by omega)]
      · rw [if_neg hin, if_neg (by omega)]

/-- The log of an entry. -/
def hitLog (anon : Bool) (acln : String) (ae : AclE) : List AclLog :=
  if anon then [] else [.hit ae.not acln ae.tAddr ae.tMask]

lemma tests_length (ae : AclE) : (AclE.tests ae).length = ae.mask / 8 + if 0 < ae.mask % 8 then 1 else 0 := by
  rw [AclE.tests, List.length_append, List.length_map, List.length_range]
  split <;> rfl

lemma tests_whole {i : Nat} (hi : i < ae.mask / 8) : (AclE.tests ae)[i]? = some (atTest i (ae.data.getD i 0)) := by
  rw [AclE.tests, List.getElem?_append_left (by simpa using hi), List.getElem?_map, List.getElem?_range hi]
  rfl

lemma entry_spec (anon : Bool) (acln : String) (h : EmitAt st path) (hmask : 8 ≤ ae.mask) :
    ∃ st', st.entry anon acln ae = some st' ∧
    EmitAt st' (AclE.tests ae) ∧ st'.out = st.out ++ (goTo path.length (AclE.tests ae) (st.common ae) ++
      (hitLog anon acln ae).map Line.stmt ++ [Line.ret (if ae.not then 0 else 1)]) := by
  obtain ⟨hcommon, -⟩ := h.take ae hmask
  obtain ⟨hle, hall⟩ := common_spec st ae
  set l := st.common ae with hl
  have hdiv : (ae.mask - l * 8) / 8 = ae.mask / 8 - l := by omega
  have hmod : (ae.mask - l * 8) % 8 = ae.mask % 8 := by omega
  have hsum : l + (ae.mask / 8 - l) = ae.mask / 8 := by omega
  have hlog : (hitLog anon acln ae).map Line.stmt =
      (if anon then [] else [.stmt (.hit ae.not acln ae.tAddr ae.tMask)] : List AclLine) := by
    unfold hitLog
    split <;> rfl
  -- what `at` has after the ifs for whole bytes
  have hat : ∀ (i : Nat) (v : UInt8), i < ae.mask / 8 →
      (if l ≤ i ∧ i < ae.mask / 8 then (ae.data.getD i 0).toNat else st.at_ i) = v.toNat →
      (AclE.tests ae)[i]? = some (atTest i v) := by
    intro i v hi hv
    rw [tests_whole hi]
    have hdata : (ae.data.getD i 0).toNat = v.toNat := by
      by_cases hin : l ≤ i ∧ i < ae.mask / 8
      · rw [if_pos hin] at hv
        exact hv
      · rw [if_neg hin] at hv
        rw [(hall i (by omega)).2, hv]
    rw [UInt8.toNat_inj.mp hdata]
  have hdrop := AclE.tests_drop ae hcommon
  have hlen := tests_length ae
  have hfold : (List.range' l (ae.mask / 8 - l)).foldl
      (fun st i => st.open_ i (ae.wholeTest i) (ae.data.getD i 0).toNat)
      { st with depth := l, out := st.out ++ List.replicate (st.depth - l) Line.close } = _ :=
    foldl_open ae (ae.mask / 8 - l) rfl
  unfold AclEmit.entry
  rw [← hl, if_neg (by omega)]
  simp only [hdiv, hmod, hfold, hsum, Option.some.injEq, exists_eq_left']
  by_cases hfrac : 0 < ae.mask % 8
  · rw [if_pos hfrac] at hlen hdrop
    simp only [if_pos hfrac, AclEmit.open_]
    refine ⟨⟨hlen.symm, ?_⟩, ?_⟩
    · intro i v hi hv
      have hne : i ≠ ae.mask / 8 := by
        rintro rfl
        simp only [Function.update_self] at hv
        have := v.toNat_lt
        omega
      simp only [Function.update_of_ne hne] at hv
      exact hat i v (by simp only at hi; omega) hv
    · rw [hlog, goTo, hdrop, ← h.depth]
      simp
  · rw [if_neg hfrac] at hlen hdrop
    simp only [if_neg hfrac]
    refine ⟨⟨hlen.symm, ?_⟩, ?_⟩
    · intro i v hi hv
      exact hat i v hi hv
    · rw [hlog, goTo, hdrop, ← h.depth]
      simp

/-- The tests for an entry all hold. -/
def passes (p : AclAddr) (ae : AclE) : Bool := (AclE.tests ae).all (AclTest.holds p)

lemma passes_iff : passes p ae = true ↔ ∀ t ∈ AclE.tests ae, AclTest.holds p t = true := List.all_eq_true

/-- What the code for a list of entries does, from inside of `path`. -/
def listRun (anon : Bool) (acln : String) (p : AclAddr) (acl : List AclE) (path : List AclTest) : Run AclLog Nat :=
  match acl.find? (passes p) with
  | some ae => .done (if ae.not then 0 else 1) (hitLog anon acln ae)
  | none => .going (skipped (AclTest.holds p) path) []

lemma emit_run (anon : Bool) (acln : String) (p : AclAddr) {acl : List AclE} (hmask : ∀ ae ∈ acl, 8 ≤ ae.mask)
    (h : EmitAt st path) :
    ∃ st' path', acl.foldlM (AclEmit.entry anon acln) st = some st' ∧ EmitAt st' path' ∧ ∃ lines,
      st'.out = st.out ++ lines ∧ exec (AclTest.holds p) (.going (skipped (AclTest.holds p) path) []) lines =
        listRun anon acln p acl path' := by
  induction acl generalizing st path with
  | nil => exact ⟨st, path, rfl, h, [], by simp, rfl⟩
  | cons ae acl ih =>
    obtain ⟨st1, hentry, hat, hout⟩ := entry_spec anon acln h (hmask ae List.mem_cons_self)
    obtain ⟨st', path', hfold, hat', lines, hout', hrun⟩ := ih (fun x hx => hmask x (List.mem_cons_of_mem ae hx)) hat
    refine ⟨st', path', ?_, hat', goTo path.length (AclE.tests ae) (st.common ae) ++
      (hitLog anon acln ae).map Line.stmt ++ [Line.ret (if ae.not then 0 else 1)] ++ lines, ?_, ?_⟩
    · rw [List.foldlM_cons, hentry]
      exact hfold
    · rw [hout', hout, List.append_assoc]
    · rw [exec_append, exec_case (h.take ae (hmask ae List.mem_cons_self)).2, listRun, List.find?_cons]
      cases hp : passes p ae with
      | true =>
        rw [if_pos (passes_iff.mp hp), exec_done]
        rfl
      | false =>
        rw [if_neg (by rw [← passes_iff, hp]; decide), hrun]
        rfl

/-- The function returns what the first entry says whose tests hold, and 0 if there is none. -/
lemma matchAcl_emit (anon : Bool) (acln : String) (p : AclAddr) {acl : List AclE} (hmask : ∀ ae ∈ acl, 8 ≤ ae.mask) :
    ∃ lines, vccAclEmit anon acln acl = some lines ∧
      (p.fam = AclFam.inet.pf.toNat ∨ p.fam = AclFam.inet6.pf.toNat → matchAcl acln lines p =
        some (match acl.find? (passes p) with
          | some ae => (if ae.not then 0 else 1, hitLog anon acln ae)
          | none => (0, if anon then [] else [.noMatch acln]))) := by
  have hstart : EmitAt { depth := 0, at_ := fun _ => 256, out := [] } [] := by
    refine ⟨rfl, ?_⟩
    intro i v hi
    cases hi
  obtain ⟨st, path, hfold, hat, lines, hout, hrun⟩ := emit_run anon acln p hmask hstart
  have hlines : st.out = lines := hout
  refine ⟨_, by rw [vccAclEmit, hfold]; rfl, ?_⟩
  intro hp
  unfold matchAcl
  rw [if_neg (by tauto), hlines, exec_append, exec_append, exec_append]
  have hinit : skipped (AclTest.holds p) [] = 0 := rfl
  rw [hinit] at hrun
  rw [hrun, listRun]
  cases acl.find? (passes p) with
  | some ae => simp [exec_done]
  | none =>
    have hclose : exec (AclTest.holds p) (.going (skipped (AclTest.holds p) ([] ++ path)) [])
        (List.replicate path.length Line.close) = (.going 0 [] : Run AclLog Nat) := exec_closes [] path
    rw [List.nil_append] at hclose
    simp only [hat.depth, hclose]
    cases anon <;> rfl

/-- The first bits of two addresses are equal when the whole bytes and the rest of them are. -/
lemma take_bits_eq {r : Nat} (hr : r < 8) {k : Nat} {x y : List UInt8} (hx : 8 * k + r ≤ 8 * x.length)
    (hy : 8 * k + r ≤ 8 * y.length) : (bits x).take (8 * k + r) = (bits y).take (8 * k + r) ↔
      (∀ i < k, x.getD i 0 = y.getD i 0) ∧ (0 < r → x.getD k 0 &&& fracMask r = y.getD k 0 &&& fracMask r) := by
  induction k generalizing x y with
  | zero =>
    by_cases h0 : r = 0
    · simp [h0]
    · obtain ⟨a, x, rfl⟩ := List.exists_cons_of_length_pos (l := x) (by omega)
      obtain ⟨b, y, rfl⟩ := List.exists_cons_of_length_pos (l := y) (by omega)
      rw [Nat.mul_zero, Nat.zero_add, bits_take_lt a x hr.le, bits_take_lt b y hr.le, byteBits_take_inj hr.le]
      simp [Nat.pos_of_ne_zero h0]
  | succ k ih =>
    obtain ⟨a, x, rfl⟩ := List.exists_cons_of_length_pos (l := x) (by omega)
    obtain ⟨b, y, rfl⟩ := List.exists_cons_of_length_pos (l := y) (by omega)
    rw [List.length_cons] at hx hy
    have hlen : 8 * (k + 1) + r = 8 + (8 * k + r) := by omega
    have happ : byteBits a ++ (bits x).take (8 * k + r) = byteBits b ++ (bits y).take (8 * k + r) ↔
        a = b ∧ (bits x).take (8 * k + r) = (bits y).take (8 * k + r) := by
      constructor
      · intro h
        obtain ⟨hbyte, hrest⟩ := List.append_inj h rfl
        exact ⟨byteBits_inj.mp hbyte, hrest⟩
      · rintro ⟨rfl, hrest⟩
        rw [hrest]
    rw [hlen, bits_take_cons, bits_take_cons, happ, ih (by omega) (by omega), Nat.forall_lt_succ_left]
    simp [and_assoc]

/-- The bits of the family and of the address. -/
def addrBits (p : AclAddr) : List Bool := byteBits p.fam.toUInt8 ++ bits p.a

lemma toE_key (e : AclEntry) : AclE.key e.toE = byteBits e.fam.pf ++ (bits e.u).take e.mask := by
  rw [AclE.key, AclEntry.toE, Nat.add_comm, bits_take_cons]

lemma fam_pf_inj {n : Nat} {f : AclFam} (hn : n < 256) : n = f.pf.toNat ↔ n.toUInt8 = f.pf := by
  constructor
  · rintro rfl
    exact UInt8.ofNat_toNat
  · intro h
    rw [← h]
    exact (Nat.mod_eq_of_lt hn).symm

lemma fits_wide {e : AclEntry} (hfits : AclE.Fits e.toE) : e.mask ≤ 8 * e.u.length := by
  have hle : e.mask + 8 ≤ 8 * (e.u.length + 1) := hfits
  omega

/-- An entry matches an address when its bits are the first ones of the address. -/
lemma matches_iff_isPre {e : AclEntry} (hfits : AclE.Fits e.toE) (hn : p.fam < 256) :
    e.Matches p ↔ AclE.key e.toE <+: addrBits p := by
  have hwide := fits_wide hfits
  rw [toE_key, addrBits, AclEntry.Matches, fam_pf_inj hn]
  constructor
  · rintro ⟨hfam, hbits⟩
    rw [hfam, List.prefix_append_right_inj, ← hbits]
    exact List.take_prefix _ _
  · intro h
    obtain ⟨t, ht⟩ := h
    rw [List.append_assoc] at ht
    obtain ⟨hfam, hrest⟩ := List.append_inj ht rfl
    refine ⟨(byteBits_inj.mp hfam).symm, ?_⟩
    have hlen : ((bits e.u).take e.mask).length = e.mask := by
      rw [List.length_take, bits_length, min_eq_left hwide]
    change (bits p.a).take e.mask = (bits e.u).take e.mask
    rw [← hrest, List.take_append_of_le_length hlen.ge, List.take_take, min_self]

/-- The tests for an entry say that it matches. -/
lemma passes_toE {e : AclEntry} (hfits : AclE.Fits e.toE) : passes p e.toE = true ↔ e.Matches p := by
  have hwide := fits_wide hfits
  have hdiv : (e.mask + 8) / 8 = e.mask / 8 + 1 := by omega
  have hmod : (e.mask + 8) % 8 = e.mask % 8 := by omega
  have hsum : 8 * (e.mask / 8) + e.mask % 8 = e.mask := Nat.div_add_mod e.mask 8
  have htests : passes p e.toE = true ↔ p.fam = e.fam.pf.toNat ∧ (∀ i < e.mask / 8, p.a.getD i 0 = e.u.getD i 0) ∧
      (0 < e.mask % 8 → p.a.getD (e.mask / 8) 0 &&& fracMask (e.mask % 8) =
        e.u.getD (e.mask / 8) 0 &&& fracMask (e.mask % 8)) := by
    rw [passes_iff, AclE.tests, List.forall_mem_append]
    simp only [AclEntry.toE, hdiv, hmod, List.forall_mem_map, List.mem_range, Nat.forall_lt_succ_left]
    have hwhole : ∀ i, (AclE.wholeTest e.toE (i + 1)).holds p = true ↔ p.a.getD i 0 = e.u.getD i 0 := by
      intro i
      simp [AclE.wholeTest, AclEntry.toE, AclTest.holds]
    have hfirst : (AclE.wholeTest e.toE 0).holds p = true ↔ p.fam = e.fam.pf.toNat := by
      simp [AclE.wholeTest, AclEntry.toE, AclTest.holds]
    have hfrac : (AclE.fracTest e.toE (e.mask % 8) (e.mask / 8 + 1)).holds p = true ↔
        p.a.getD (e.mask / 8) 0 &&& fracMask (e.mask % 8) = e.u.getD (e.mask / 8) 0 &&& fracMask (e.mask % 8) := by
      simp [AclE.fracTest, AclEntry.toE, AclTest.holds]
    change ((_ ∧ ∀ i < e.mask / 8, (AclE.wholeTest e.toE (i + 1)).holds p = true) ∧ _) ↔ _
    rw [and_assoc]
    refine and_congr hfirst (and_congr (forall₂_congr (fun i _ => hwhole i)) ?_)
    by_cases hr : 0 < e.mask % 8
    · rw [if_pos hr, List.forall_mem_singleton]
      simp only [hr, true_imp_iff]
      exact hfrac
    · simp [hr]
  rw [htests, AclEntry.Matches]
  refine and_congr_right ?_
  intro hfam
  have hlen := p.a_length e.fam hfam
  have hu := e.u_length
  rw [← take_bits_eq (Nat.mod_lt _ (by decide)) (by omega) (by omega), hsum]

/-- The first entry of the list that matches is one with the longest mask. -/
lemma find_longest {es : List AclEntry} {acl : List AclE} (hi : AclListOf es acl) (hn : p.fam < 256) {ae : AclE}
    (hfind : acl.find? (passes p) = some ae) {e : AclEntry} (he : e ∈ es) (hm : e.Matches p)
    (hlong : ∀ e' ∈ es, e'.Matches p → e'.mask ≤ e.mask) : ae.not = e.not := by
  obtain ⟨hpass, l1, l2, rfl, hbefore⟩ := List.find?_eq_some_iff_append.mp hfind
  obtain ⟨e0, he0, rfl⟩ := hi.origin ae (by simp)
  obtain ⟨x, hx, hkey, hnot⟩ := hi.kept e he
  obtain ⟨e1, he1, rfl⟩ := hi.origin x hx
  have hm0 : e0.Matches p := (passes_toE (hi.fits e0 he0)).mp hpass
  have hm1 : e1.Matches p := by
    rw [matches_iff_isPre (hi.fits e1 he1) hn, hkey, ← matches_iff_isPre (hi.fits e he) hn]
    exact hm
  rcases List.mem_append.mp hx with hx | hx
  · have hfail := hbefore _ hx
    rw [(passes_toE (hi.fits e1 he1)).mpr hm1] at hfail
    cases hfail
  rcases List.mem_cons.mp hx with hx | hx
  · rw [← hx, hnot]
  · have hpair := (List.pairwise_append.mp hi.sorted).2.1
    have hlt := (List.pairwise_cons.mp hpair).1 _ hx
    have hless := length_lt_of_prefixCmp ((matches_iff_isPre (hi.fits e0 he0) hn).mp hm0)
      ((matches_iff_isPre (hi.fits e1 he1) hn).mp hm1) hlt
    rw [hkey, AclE.key_length (hi.fits e he), AclE.key_length (hi.fits e0 he0)] at hless
    have hle := hlong e0 he0 hm0
    have hlt' : e.mask + 8 < e0.mask + 8 := hless
    omega

/-- The generated function returns what the entries with the longest mask that match say, and 0 if none matches. -/
theorem acl_longest_prefix (anon : Bool) (acln : String) (es : List AclEntry) (acl : List AclE)
    (h : vccAclAdd [] es = .ok acl) (p : AclAddr) :
    ∃ lines r log, vccAclEmit anon acln acl = some lines ∧ matchAcl acln lines p = some (r, log) ∧
      (∀ e ∈ es, e.Matches p → (∀ e' ∈ es, e'.Matches p → e'.mask ≤ e.mask) → r = if e.not then 0 else 1) ∧
      ((∀ e ∈ es, ¬ e.Matches p) → r = 0) := by
  have hi := vccAclAdd_listOf h
  have hmask : ∀ ae ∈ acl, 8 ≤ ae.mask := by
    intro ae hae
    obtain ⟨e, -, rfl⟩ := hi.origin ae hae
    exact Nat.le_add_left 8 e.mask
  obtain ⟨lines, hemit, hmatch⟩ := matchAcl_emit anon acln p hmask
  by_cases hp : p.fam = AclFam.inet.pf.toNat ∨ p.fam = AclFam.inet6.pf.toNat
  · have hn : p.fam < 256 := by
      rcases hp with hp | hp <;> rw [hp] <;> decide
    have hrun := hmatch hp
    cases hfind : acl.find? (passes p) with
    | some ae =>
      rw [hfind] at hrun
      refine ⟨lines, _, _, hemit, hrun, ?_, ?_⟩
      · intro e he hm hlong
        rw [find_longest hi hn hfind he hm hlong]
      · intro hnone
        obtain ⟨e0, he0, rfl⟩ := hi.origin ae (List.mem_of_find?_eq_some hfind)
        exact (hnone e0 he0 ((passes_toE (hi.fits e0 he0)).mp (List.find?_some hfind))).elim
    | none =>
      rw [hfind] at hrun
      refine ⟨lines, _, _, hemit, hrun, ?_, fun _ => rfl⟩
      intro e he hm _
      obtain ⟨x, hx, hkey, -⟩ := hi.kept e he
      obtain ⟨e1, he1, rfl⟩ := hi.origin x hx
      have hm1 : e1.Matches p := by
        rw [matches_iff_isPre (hi.fits e1 he1) hn, hkey, ← matches_iff_isPre (hi.fits e he) hn]
        exact hm
      exact (List.find?_eq_none.mp hfind _ hx ((passes_toE (hi.fits e1 he1)).mpr hm1)).elim
  · have hrun : matchAcl acln lines p = some (0, [.noFam acln]) := by
      rw [matchAcl, if_pos (by tauto)]
    refine ⟨lines, _, _, hemit, hrun, ?_, fun _ => rfl⟩
    intro e _ hm _
    have hfam := hm.1
    cases hf : e.fam with
    | inet => exact (hp (Or.inl (by rw [hfam, hf]))).elim
    | inet6 => exact (hp (Or.inr (by rw [hfam, hf]))).elim

/-- `"10.0.0.0"/8; ! "10.16.0.0"/12; "10.17.1.2";` and the address 10.17.1.3. -/
theorem acl_longest_prefix_negated :
    let es : List AclEntry :=
      [{ fam := .inet, u := [10, 0, 0, 0], u_length := rfl, mask := 8, not := false, tAddr := "10.0.0.0", tMask := "8" },
        { fam := .inet, u := [10, 16, 0, 0], u_length := rfl, mask := 12,
          not := true, tAddr := "10.16.0.0", tMask := "12" },
        { fam := .inet, u := [10, 17, 1, 2], u_length := rfl, mask := 32,
          not := false, tAddr := "10.17.1.2", tMask := none }]
    let p : AclAddr := { fam := 2, a := [10, 17, 1, 3], a_length := by rintro (_ | _) h <;> first | rfl | cases h }
    ∃ acl lines log, vccAclAdd [] es = .ok acl ∧ vccAclEmit false "net" acl = some lines ∧
      matchAcl "net" lines p = some (0, log) := by
  intro es p
  obtain ⟨acl, hacl⟩ : ∃ acl, vccAclAdd [] es = .ok acl := ⟨_, rfl⟩
  obtain ⟨lines, r, log, hemit, hmatch, hlong, -⟩ := acl_longest_prefix false "net" es acl hacl p
  have hr : r = 0 := by
    refine hlong (es.get ⟨1, by decide⟩) (List.get_mem _ _) ⟨by decide, by decide⟩ ?_
    intro e he hm
    simp only [es, List.mem_cons, List.not_mem_nil, or_false] at he
    rcases he with rfl | rfl | rfl
    · decide
    · decide
    · exact absurd hm.2 (by decide)
  rw [hr] at hmatch
  exact ⟨acl, lines, log, hacl, hemit, hmatch⟩

end VarnishCache.Proofs
