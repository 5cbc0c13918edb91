import VarnishCache.BanSpec
import VarnishCache.Lib.Fallible

/-!
# Reading a ban specification back

`BAN_AddTest` accepts a test exactly when there is a record for it, and appends that record; `ban_iter`
takes the record off again.
-/

namespace VarnishCache.Proofs

/-- The bytes of a record. -/
def banEncode (bt : BanTestSpec) : List UInt8 :=
  bt.arg1 :: (bt.arg1Spec.getD [] ++ banAddLump (bt.arg2 ++ [0]) ++
    bt.oper :: (bt.arg2Spec.map banAddLump).getD [])

/-- `PVAR_REQ` of a variable. -/
def banIsReq (arg1 : UInt8) : Bool := arg1 = banArgUrl || arg1 = banArgReqhttp

lemma length_vbe32enc (u : Nat) : (vbe32enc u).length = 4 := rfl

lemma vbe32dec_vbe32enc {u : Nat} (h : u < 2 ^ 32) (r : List UInt8) : vbe32dec (vbe32enc u ++ r) = u := by
  simp only [vbe32dec, vbe32enc, List.cons_append, List.nil_append, List.getD_cons_zero,
    List.getD_cons_succ, Nat.toUInt8, UInt8.toNat_ofNat']
  omega

lemma banGetLump_banAddLump {p : List UInt8} (h : p.length < 2 ^ 32) (r : List UInt8) :
    banGetLump (banAddLump p ++ r) = some (p, r) := by
  have hd : vbe32dec (banAddLump p ++ r) = p.length := by
    rw [banAddLump, List.append_assoc]
    exact vbe32dec_vbe32enc h _
  have hl : ¬ (banAddLump p ++ r).length < 4 + p.length := by
    simp only [banAddLump, List.length_append, length_vbe32enc]
    omega
  have h4 : (banAddLump p ++ r).drop 4 = p ++ r := by
    simp [banAddLump, vbe32enc]
  simp only [banGetLump, hd, if_neg hl, h4, List.take_left, Option.some.injEq, Prod.mk.injEq, true_and]
  rw [← List.drop_drop, h4, List.drop_left]

lemma cstr_append_zero {p : List UInt8} (h : 0 ∉ p) (r : List UInt8) : cstr (p ++ 0 :: r) = p := by
  have hp : ∀ c ∈ p, decide (c ≠ 0) = true := by
    intro c hc
    exact decide_eq_true (fun h0 => h (h0 ▸ hc))
  rw [cstr, List.takeWhile_append_of_pos hp]
  simp

lemma cstr_of_not_mem {p : List UInt8} (h : 0 ∉ p) : cstr p = p := by
  rw [cstr, List.takeWhile_eq_self_iff]
  intro c hc
  exact decide_eq_true (fun h0 => h (h0 ▸ hc))

/-- A record whose lengths fit and whose strings are C strings. -/
structure BanRecordWf (bt : BanTestSpec) : Prop where
  http : (bt.arg1 = banArgReqhttp ∨ bt.arg1 = banArgObjhttp) ↔ bt.arg1Spec.isSome
  spec : ∀ s, bt.arg1Spec = some s → s.length = (s.getD 0 0).toNat + 2
  nul : 0 ∉ bt.arg2
  regexp : (bt.oper = banOperMatch ∨ bt.oper = banOperNmatch) ↔ bt.arg2Spec.isSome
  size : (banEncode bt).length < 2 ^ 32

lemma banIterArg2_banEncode {bt : BanTestSpec} (h : BanRecordWf bt) (r : List UInt8) :
    banIterArg2 bt.arg1 bt.arg1Spec (banAddLump (bt.arg2 ++ [0]) ++
      bt.oper :: ((bt.arg2Spec.map banAddLump).getD [] ++ r)) = some (bt, r) := by
  obtain ⟨arg1, arg1Spec, oper, arg2, arg2Spec⟩ := bt
  have hsize := h.size
  simp only [banEncode, List.length_cons, List.length_append, banAddLump, length_vbe32enc] at hsize
  have hlump := banGetLump_banAddLump (p := arg2 ++ [0]) (by simp at hsize ⊢; omega)
  have hc : cstr (arg2 ++ [0]) = arg2 := cstr_append_zero h.nul []
  simp only [banIterArg2, hlump, Option.bind_eq_bind, Option.bind_some, hc]
  cases arg2Spec with
  | none =>
    have hn : ¬ (oper = banOperMatch ∨ oper = banOperNmatch) := fun ho => by simpa using h.regexp.mp ho
    rw [if_neg hn]
    simp
  | some blob =>
    have hy : oper = banOperMatch ∨ oper = banOperNmatch := h.regexp.mpr rfl
    have hb := banGetLump_banAddLump (p := blob)
      (by simp [banAddLump, length_vbe32enc] at hsize ⊢; omega) r
    rw [if_pos hy]
    simp [hb]

lemma banIter_banEncode {bt : BanTestSpec} (h : BanRecordWf bt) (r : List UInt8) :
    banIter (banEncode bt ++ r) = some (bt, r) := by
  have htail := banIterArg2_banEncode h r
  have hcons : banEncode bt ++ r = bt.arg1 :: (bt.arg1Spec.getD [] ++
      (banAddLump (bt.arg2 ++ [0]) ++ bt.oper :: ((bt.arg2Spec.map banAddLump).getD [] ++ r))) := by
    simp [banEncode]
  rw [hcons, banIter]
  cases hs : bt.arg1Spec with
  | none =>
    have hn : ¬ (bt.arg1 = banArgReqhttp ∨ bt.arg1 = banArgObjhttp) := fun ho => by
      simpa [hs] using h.http.mp ho
    rw [hs] at htail
    simp only [if_neg hn, Option.getD_none, List.nil_append, htail]
  | some s =>
    have hy : bt.arg1 = banArgReqhttp ∨ bt.arg1 = banArgObjhttp := h.http.mpr (by simp [hs])
    have hlen := h.spec s hs
    have hget : ((s ++ (banAddLump (bt.arg2 ++ [0]) ++
        bt.oper :: ((bt.arg2Spec.map banAddLump).getD [] ++ r))).getD 0 0).toNat + 2 = s.length := by
      cases s with
      | nil => simp at hlen
      | cons c s => simpa using hlen.symm
    rw [hs] at htail
    simp only [if_pos hy, Option.getD_some, hget]
    rw [if_neg (by simp), List.take_left, List.drop_left, htail]

/-! ## Adding tests -/

lemma pvars_unique {a1 : List UInt8} {pv pv' : Pvar} (h : pv ∈ pvars) (h' : pv' ∈ pvars)
    (hp : pv.name <+: a1) (hp' : pv'.name <+: a1) : pv = pv' := by
  have hall : ∀ p ∈ pvars, ∀ q ∈ pvars, p.name.isPrefixOf q.name = true → p = q := by decide
  rcases List.prefix_or_prefix_of_prefix hp hp' with hc | hc
  · exact hall pv h pv' h' (List.isPrefixOf_iff_prefix.mpr hc)
  · exact (hall pv' h' pv h (List.isPrefixOf_iff_prefix.mpr hc)).symm

lemma find_pvars {a1 : List UInt8} {pv : Pvar} :
    pvars.find? (fun pv => pv.name.isPrefixOf a1) = some pv ↔ pv ∈ pvars ∧ pv.name <+: a1 := by
  constructor
  · intro h
    have hp := List.find?_some (p := fun pv : Pvar => pv.name.isPrefixOf a1) h
    exact ⟨List.mem_of_find?_eq_some h, List.isPrefixOf_iff_prefix.mp hp⟩
  · rintro ⟨hm, hp⟩
    cases hf : pvars.find? (fun pv => pv.name.isPrefixOf a1) with
    | none =>
      have := List.find?_eq_none.mp hf pv hm
      exact absurd (List.isPrefixOf_iff_prefix.mpr hp) this
    | some pv' =>
      have hp' := List.isPrefixOf_iff_prefix.mp
        (List.find?_some (p := fun pv : Pvar => pv.name.isPrefixOf a1) hf)
      rw [pvars_unique (List.mem_of_find?_eq_some hf) hm hp' hp]

lemma banIsReq_pvars {pv : Pvar} (h : pv ∈ pvars) : banIsReq pv.tag = pv.req := by
  have hall : ∀ p ∈ pvars, banIsReq p.tag = p.req := by decide
  exact hall pv h

lemma banIsHttp_pvars {pv : Pvar} (h : pv ∈ pvars) :
    (pv.tag = banArgReqhttp ∨ pv.tag = banArgObjhttp) ↔ pv.http = true := by
  have hall : ∀ p ∈ pvars, (p.tag = banArgReqhttp ∨ p.tag = banArgObjhttp) ↔ p.http = true := by
    decide
  exact hall pv h

/-- The header name of a test is at most 126 bytes, and its string says so. -/
lemma banParseHttp_ok {a1 s : List UInt8} :
    banParseHttp a1 = .ok s ↔ a1.length ≤ 126 ∧ s = (a1.length + 1).toUInt8 :: a1 ++ [chColon, 0] := by
  simp only [banParseHttp]
  by_cases h : a1.length + 1 ≤ 127
  · rw [if_pos h]
    constructor
    · rintro ⟨⟩
      exact ⟨by omega, rfl⟩
    · rintro ⟨-, rfl⟩
      rfl
  · rw [if_neg h]
    constructor
    · rintro ⟨⟩
    · rintro ⟨h', -⟩
      omega

lemma banParseRegexp_ok {re : List UInt8 → Option (List UInt8)} {a3 s : List UInt8} :
    banParseRegexp re a3 = .ok s ↔ ∃ blob, re a3 = some blob ∧ s = banAddLump blob := by
  rw [banParseRegexp]
  cases re a3 with
  | none => simp
  | some blob => simp [eq_comm]

lemma banParseOper_ok {re : List UInt8 → Option (List UInt8)} {a2 a3 s : List UInt8} :
    banParseOper re a2 a3 = .ok s ↔ ∃ (o : UInt8) (spec : Option (List UInt8)),
      (a2, o) ∈ [(bytes "~", banOperMatch), (bytes "!~", banOperNmatch), (bytes "==", banOperEq),
        (bytes "!=", banOperNeq)] ∧
      (if o = banOperMatch ∨ o = banOperNmatch then spec.isSome ∧ spec = re a3 else spec = none) ∧
      s = o :: (spec.map banAddLump).getD [] := by
  have h12 : bytes "!~" ≠ bytes "~" := by decide
  have h13 : bytes "==" ≠ bytes "~" := by decide
  have h14 : bytes "!=" ≠ bytes "~" := by decide
  have h23 : bytes "==" ≠ bytes "!~" := by decide
  have h24 : bytes "!=" ≠ bytes "!~" := by decide
  have h34 : bytes "!=" ≠ bytes "==" := by decide
  have hre : ∀ o : UInt8, (do
      let blob ← banParseRegexp re a3
      Except.ok (o :: blob)) = .ok s ↔ ∃ blob, re a3 = some blob ∧ s = o :: banAddLump blob := by
    intro o
    rw [Fallible.bind_ok_iff]
    constructor
    · rintro ⟨t, ht, hs⟩
      obtain ⟨blob, hb, rfl⟩ := banParseRegexp_ok.mp ht
      exact ⟨blob, hb, (Except.ok.inj hs).symm⟩
    · rintro ⟨blob, hb, rfl⟩
      exact ⟨_, banParseRegexp_ok.mpr ⟨blob, hb, rfl⟩, rfl⟩
  have hn1 : ¬ (banOperEq = banOperMatch ∨ banOperEq = banOperNmatch) := by decide
  have hn2 : ¬ (banOperNeq = banOperMatch ∨ banOperNeq = banOperNmatch) := by decide
  constructor
  · intro h
    rw [banParseOper] at h
    by_cases h1 : a2 = bytes "~"
    · rw [if_pos h1] at h
      obtain ⟨blob, hb, rfl⟩ := (hre _).mp h
      exact ⟨banOperMatch, some blob, by simp [h1], by simp [hb], rfl⟩
    rw [if_neg h1] at h
    by_cases h2 : a2 = bytes "!~"
    · rw [if_pos h2] at h
      obtain ⟨blob, hb, rfl⟩ := (hre _).mp h
      exact ⟨banOperNmatch, some blob, by simp [h2], by simp [hb], rfl⟩
    rw [if_neg h2] at h
    by_cases h3 : a2 = bytes "=="
    · rw [if_pos h3] at h
      cases h
      exact ⟨banOperEq, none, by simp [h3], by rw [if_neg hn1], rfl⟩
    rw [if_neg h3] at h
    by_cases h4 : a2 = bytes "!="
    · rw [if_pos h4] at h
      cases h
      exact ⟨banOperNeq, none, by simp [h4], by rw [if_neg hn2], rfl⟩
    rw [if_neg h4] at h
    cases h
  · rintro ⟨o, spec, ho, hspec, rfl⟩
    simp only [List.mem_cons, Prod.mk.injEq, List.not_mem_nil, or_false] at ho
    rw [banParseOper]
    rcases ho with ⟨rfl, rfl⟩ | ⟨rfl, rfl⟩ | ⟨rfl, rfl⟩ | ⟨rfl, rfl⟩
    · rw [if_pos (Or.inl rfl)] at hspec
      obtain ⟨blob, rfl⟩ := Option.isSome_iff_exists.mp hspec.1
      rw [if_pos rfl]
      exact (hre _).mpr ⟨blob, hspec.2.symm, rfl⟩
    · rw [if_pos (Or.inr rfl)] at hspec
      obtain ⟨blob, rfl⟩ := Option.isSome_iff_exists.mp hspec.1
      rw [if_neg h12, if_pos rfl]
      exact (hre _).mpr ⟨blob, hspec.2.symm, rfl⟩
    · rw [if_neg hn1] at hspec
      rw [if_neg h13, if_neg h23, if_pos rfl, hspec]
      rfl
    · rw [if_neg hn2] at hspec
      rw [if_neg h14, if_neg h24, if_neg h34, if_pos rfl, hspec]
      rfl

/-- `BAN_AddTest` accepts a test exactly if it has a record, and appends that. -/
lemma banAddTest_ok {re : List UInt8 → Option (List UInt8)} {b b' : BanBuild} {a1 a2 a3 : List UInt8} :
    banAddTest re b a1 a2 a3 = .ok b' ↔
      ∃ bt, BanReads re (a1, a2, a3) bt ∧
        b' = ⟨b.vsb ++ banEncode bt, b.req || banIsReq bt.arg1⟩ := by
  constructor
  · intro h
    rw [banAddTest] at h
    split at h
    · cases h
    rename_i pv hpv
    obtain ⟨hm, hp⟩ := find_pvars.mp hpv
    obtain ⟨hdr, hhdr, h⟩ := Fallible.bind_ok_iff.mp h
    obtain ⟨oper, hoper, h⟩ := Fallible.bind_ok_iff.mp h
    cases h
    rw [banParseArg1] at hhdr
    obtain ⟨o, spec, ho, hspec, rfl⟩ := banParseOper_ok.mp hoper
    by_cases hh : pv.http = true
    · rw [if_pos hh] at hhdr
      obtain ⟨hl, rfl⟩ := banParseHttp_ok.mp hhdr
      refine ⟨⟨pv.tag, some (((a1.drop pv.name.length).length + 1).toUInt8 ::
        a1.drop pv.name.length ++ [chColon, 0]), o, a3, spec⟩, ⟨⟨pv, hm, hp, rfl, ?_⟩, ho, rfl, hspec⟩, ?_⟩
      · rw [if_pos hh]
        exact ⟨hl, rfl⟩
      · simp only [banEncode, Option.getD_some, banIsReq_pvars hm]
    · rw [if_neg hh] at hhdr
      cases hhdr
      refine ⟨⟨pv.tag, none, o, a3, spec⟩, ⟨⟨pv, hm, hp, rfl, ?_⟩, ho, rfl, hspec⟩, ?_⟩
      · rw [if_neg hh]
      · simp only [banEncode, Option.getD_none, banIsReq_pvars hm]
  · rintro ⟨bt, h, rfl⟩
    obtain ⟨pv, hm, hp, htag, hspec⟩ := h.arg1
    have hpv := find_pvars.mpr ⟨hm, hp⟩
    have hoper := banParseOper_ok.mpr ⟨bt.oper, bt.arg2Spec, h.oper, h.regexp, rfl⟩
    have harg2 : bt.arg2 = a3 := h.arg2
    by_cases hh : pv.http = true
    · rw [if_pos hh] at hspec
      have hhdr := banParseHttp_ok.mpr ⟨hspec.1, rfl⟩
      simp only [banAddTest, hpv, banParseArg1, if_pos hh, hhdr, hoper]
      simp only [banEncode, hspec.2, htag, banIsReq_pvars hm, harg2, Option.getD_some]
      rfl
    · rw [if_neg hh] at hspec
      simp only [banAddTest, hpv, banParseArg1, if_neg hh, hoper]
      simp only [banEncode, hspec, htag, banIsReq_pvars hm, harg2, Option.getD_none]
      rfl

/-! ## Lists of tests -/

section Tests

variable {re : List UInt8 → Option (List UInt8)}

lemma banAddTests_ok {ts : List (List UInt8 × List UInt8 × List UInt8)} {b b' : BanBuild} :
    banAddTests re b ts = .ok b' ↔ ∃ bts, List.Forall₂ (BanReads re) ts bts ∧
      b' = ⟨b.vsb ++ bts.flatMap banEncode, b.req || bts.any (fun bt => banIsReq bt.arg1)⟩ := by
  induction ts generalizing b with
  | nil =>
    constructor
    · intro h
      cases h
      exact ⟨[], List.Forall₂.nil, by simp⟩
    · rintro ⟨bts, h, rfl⟩
      cases h
      simp [banAddTests]
      rfl
  | cons t ts ih =>
    rw [banAddTests, List.foldlM_cons, Fallible.bind_ok_iff]
    constructor
    · rintro ⟨b1, h1, h2⟩
      obtain ⟨bt, hr, rfl⟩ := banAddTest_ok.mp h1
      obtain ⟨bts, hf, rfl⟩ := ih.mp h2
      exact ⟨bt :: bts, List.Forall₂.cons hr hf, by simp [Bool.or_assoc]⟩
    · rintro ⟨bts, h, rfl⟩
      cases h with
      | @cons _ bt _ bts hr hf =>
        refine ⟨_, banAddTest_ok.mpr ⟨bt, hr, rfl⟩, ih.mpr ⟨bts, hf, ?_⟩⟩
        simp [Bool.or_assoc]

lemma banRecordWf_of_reads {t : List UInt8 × List UInt8 × List UInt8} {bt : BanTestSpec}
    (h : BanReads re t bt) (h0 : 0 ∉ t.2.2) (hsize : (banEncode bt).length < 2 ^ 32) : BanRecordWf bt := by
  obtain ⟨pv, hm, hp, htag, hspec⟩ := h.arg1
  refine ⟨?_, ?_, ?_, ?_, hsize⟩
  · rw [htag, banIsHttp_pvars hm]
    by_cases hh : pv.http = true
    · rw [if_pos hh] at hspec
      simp [hh, hspec.2]
    · rw [if_neg hh] at hspec
      simp [hh, hspec]
  · intro s hs
    by_cases hh : pv.http = true
    · rw [if_pos hh, hs] at hspec
      obtain ⟨hl, hs⟩ := hspec
      rw [Option.some.inj hs]
      simp only [List.cons_append, List.length_cons, List.length_append, List.length_nil,
        List.getD_cons_zero, Nat.toUInt8, UInt8.toNat_ofNat']
      omega
    · rw [if_neg hh, hs] at hspec
      cases hspec
  · rw [h.arg2]
    exact h0
  · have hr := h.regexp
    by_cases ho : bt.oper = banOperMatch ∨ bt.oper = banOperNmatch
    · rw [if_pos ho] at hr
      simp [ho, hr.1]
    · rw [if_neg ho] at hr
      simp [ho, hr]

lemma length_banEncode_pos (bt : BanTestSpec) : 0 < (banEncode bt).length := by simp [banEncode]

lemma length_le_flatMap (bts : List BanTestSpec) : bts.length ≤ (bts.flatMap banEncode).length := by
  induction bts with
  | nil => simp
  | cons bt bts ih =>
    have := length_banEncode_pos bt
    simp only [List.flatMap_cons, List.length_append, List.length_cons]
    omega

lemma banIterLoop_flatMap {bts : List BanTestSpec} (h : ∀ bt ∈ bts, BanRecordWf bt) {fuel : Nat}
    (hf : bts.length ≤ fuel) : banIterLoop fuel (bts.flatMap banEncode) = some bts := by
  induction bts generalizing fuel with
  | nil => cases fuel <;> rfl
  | cons bt bts ih =>
    obtain ⟨fuel, rfl⟩ : ∃ n, fuel = n + 1 := ⟨fuel - 1, by simp at hf; omega⟩
    have hne : bt.arg1 :: (bt.arg1Spec.getD [] ++ banAddLump (bt.arg2 ++ [0]) ++
        bt.oper :: (bt.arg2Spec.map banAddLump).getD []) ++ bts.flatMap banEncode =
        banEncode bt ++ bts.flatMap banEncode := rfl
    rw [List.flatMap_cons, ← hne, List.cons_append, banIterLoop, ← List.cons_append, hne,
      banIter_banEncode (h bt List.mem_cons_self)]
    · simp only [Option.bind_eq_bind, Option.bind_some,
        ih (fun b hb => h b (List.mem_cons_of_mem _ hb)) (Nat.le_of_succ_le_succ hf)]
    · simp

/-- The body of a frozen specification is the string of the ban. -/
lemma banFreeze_body {t0 : List UInt8} {b : BanBuild} (h8 : t0.length = 8)
    (hlen : b.vsb.length + 13 < 2 ^ 32) :
    banLen (banFreeze t0 b) = (banFreeze t0 b).length ∧
      ((banFreeze t0 b).take (banLen (banFreeze t0 b))).drop 13 = b.vsb := by
  have hl : (banFreeze t0 b).length = b.vsb.length + 13 := by
    simp only [banFreeze, List.length_append, h8, length_vbe32enc, List.length_singleton]
    omega
  have hlen8 : banLen (banFreeze t0 b) = b.vsb.length + 13 := by
    rw [banLen, banFreeze, List.append_assoc, List.append_assoc, List.drop_left' h8]
    exact vbe32dec_vbe32enc hlen _
  refine ⟨by rw [hl, hlen8], ?_⟩
  rw [hlen8, ← hl, List.take_length, banFreeze]
  apply List.drop_left'
  simp only [List.length_append, h8, length_vbe32enc, List.length_singleton]

end Tests

lemma ccfBanTests_conj (a1 a2 a3 a4 : List UInt8) (av : List (List UInt8)) :
    ccfBanTests (a1 :: a2 :: a3 :: a4 :: av) = (a1, a2, a3) :: ccfBanTests av := rfl

lemma ccfBanAnds_conj (a1 a2 a3 a4 : List UInt8) (av : List (List UInt8)) :
    ccfBanAnds (a1 :: a2 :: a3 :: a4 :: av) = a4 :: ccfBanAnds av := rfl

end VarnishCache.Proofs
