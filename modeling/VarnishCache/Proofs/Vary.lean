import VarnishCache.Vary
import Mathlib.Data.List.GetD

/-!
# Entries of the predictive vary buffer

Reads and writes of the buffer, and what `vry_len`, `vry_cmp` and `http_GetHdr` say about an encoded
entry.
-/

namespace VarnishCache.Proofs

lemma length_readAt (m : Nat → UInt8) (o n : Nat) : (readAt m o n).length = n := by
  simp [readAt]

lemma readAt_congr {m m' : Nat → UInt8} {o n : Nat} (h : ∀ i, o ≤ i → i < o + n → m i = m' i) :
    readAt m o n = readAt m' o n := by
  apply List.map_congr_left
  intro i hi
  exact h (o + i) (by omega) (by have := List.mem_range.mp hi; omega)

lemma readAt_add (m : Nat → UInt8) (o a b : Nat) :
    readAt m o (a + b) = readAt m o a ++ readAt m (o + a) b := by
  simp [readAt, List.range_add, Nat.add_assoc]

lemma readAt_append {m : Nat → UInt8} {o : Nat} {a b : List UInt8} :
    readAt m o (a ++ b).length = a ++ b ↔
      readAt m o a.length = a ∧ readAt m (o + a.length) b.length = b := by
  rw [List.length_append, readAt_add]
  constructor
  · intro h
    exact List.append_inj h (length_readAt m o a.length)
  · rintro ⟨ha, hb⟩
    rw [ha, hb]

lemma writeAt_of_lt {m : Nat → UInt8} {o i : Nat} {b : List UInt8} (h : i < o) :
    writeAt m o b i = m i := by
  simp [writeAt, Nat.not_le.mpr h]

lemma writeAt_of_ge {m : Nat → UInt8} {o i : Nat} {b : List UInt8} (h : o + b.length ≤ i) :
    writeAt m o b i = m i := by
  simp [writeAt, Nat.not_lt.mpr h]

lemma readAt_writeAt (m : Nat → UInt8) (o : Nat) (b : List UInt8) :
    readAt (writeAt m o b) o b.length = b := by
  apply List.ext_getElem
  · simp [readAt]
  · intro i h1 h2
    simp [readAt, writeAt, h2]

/-- A write outside of the range that is read. -/
lemma readAt_writeAt_disjoint {m : Nat → UInt8} {o n w : Nat} {b : List UInt8}
    (h : o + n ≤ w ∨ w + b.length ≤ o) : readAt (writeAt m w b) o n = readAt m o n := by
  apply readAt_congr
  intro i h1 h2
  rcases h with h | h
  · exact writeAt_of_lt (by omega)
  · exact writeAt_of_ge (by omega)

lemma writeAt_append (m : Nat → UInt8) (o : Nat) (a b : List UInt8) :
    writeAt (writeAt m o a) (o + a.length) b = writeAt m o (a ++ b) := by
  funext i
  simp only [writeAt, List.length_append]
  by_cases h1 : o + a.length ≤ i
  · have ha : ¬ (o ≤ i ∧ i < o + a.length) := by omega
    by_cases h2 : i < o + a.length + b.length
    · rw [if_pos ⟨h1, h2⟩, if_pos (by omega), List.getD_append_right _ _ _ _ (by omega)]
      congr 1
      omega
    · rw [if_neg (by omega), if_neg ha, if_neg (by omega)]
  · rw [if_neg (by omega)]
    by_cases h3 : o ≤ i
    · rw [if_pos (by omega), if_pos (by omega), List.getD_append _ _ _ _ (by omega)]
    · rw [if_neg (by omega), if_neg (by omega)]

lemma length_hdrString (name : List UInt8) : (hdrString name).length = name.length + 3 := by
  simp [hdrString]

lemma length_vbe16enc (u : Nat) : (vbe16enc u).length = 2 := rfl

lemma vbe16dec_vbe16enc {u : Nat} (h : u < 2 ^ 16) (r : List UInt8) :
    vbe16dec (vbe16enc u ++ r) = u := by
  simp only [vbe16dec, vbe16enc, List.cons_append, List.nil_append, List.getD_cons_zero,
    List.getD_cons_succ]
  simp only [Nat.toUInt8, UInt8.toNat_ofNat']
  omega

lemma hdrString_toNat {name : List UInt8} (h : name.length < int8Max) :
    ((hdrString name).getD 0 0).toNat = name.length + 1 := by
  simp only [hdrString, List.cons_append, List.getD_cons_zero]
  simp only [Nat.toUInt8, UInt8.toNat_ofNat']
  unfold int8Max at h
  omega

/-- `http_GetHdr` with the header-matching string of a name. -/
lemma getHdr_hdrString (req : Http) {name : List UInt8} (h : name.length < int8Max)
    (r : List UInt8) :
    (req.getHdr (hdrString name ++ r)).map (Option.map trimTail) = some (req.value name) := by
  have h0 : ((hdrString name ++ r).getD 0 0).toNat = name.length + 1 := by
    rw [← hdrString_toNat h]
    rfl
  have hc : (hdrString name ++ r).getD (name.length + 1) 0 = chColon := by
    simp [hdrString]
  have h127 : ¬ 128 ≤ name.length + 1 := by
    unfold int8Max at h
    omega
  have hf : req.named name.length ((hdrString name ++ r).drop 1) = req.named name.length name := by
    have hn : isNamed name.length ((hdrString name ++ r).drop 1) = isNamed name.length name := by
      funext b
      simp [isNamed, strncaseEq, hdrString]
    rw [Http.named, hn, Http.named]
  simp only [Http.getHdr_eq, h0, hc, h127, if_false, ne_eq, not_true_eq_false, Nat.add_sub_cancel, hf,
    Option.map_some, Option.map_map]
  rfl

section Entries

variable (x y : VaryEntry)

lemma vryLenField_lt : vryLenField x.value < 2 ^ 16 := by
  cases hv : x.value with
  | none => simp [vryLenField]
  | some v =>
    have := x.value_len v hv
    simp only [vryLenField]
    omega

lemma length_encode : x.encode.length = x.name.length + 5 + (x.value.getD []).length := by
  simp only [VaryEntry.encode, List.length_append, length_vbe16enc, length_hdrString]
  omega

lemma drop_two_encode (r : List UInt8) :
    (x.encode ++ r).drop 2 = hdrString x.name ++ (x.value.getD [] ++ r) := by
  simp [VaryEntry.encode, vbe16enc]

lemma getD_two_encode (r : List UInt8) : ((x.encode ++ r).getD 2 0).toNat = x.name.length + 1 := by
  rw [← hdrString_toNat x.name_len]
  simp [VaryEntry.encode, vbe16enc, hdrString]

lemma getD_two_encode_ne (r : List UInt8) : (x.encode ++ r).getD 2 0 ≠ 0 := by
  intro h
  have := getD_two_encode x r
  rw [h] at this
  simp at this

lemma vryLen_eq_length (r : List UInt8) : vryLen (x.encode ++ r) = x.encode.length := by
  have hd : vbe16dec (x.encode ++ r) = vryLenField x.value := by
    rw [VaryEntry.encode, List.append_assoc, List.append_assoc]
    exact vbe16dec_vbe16enc (vryLenField_lt x) _
  rw [vryLen, getD_two_encode, hd, length_encode]
  cases hv : x.value with
  | none => simp [vryLenField]; omega
  | some v =>
    have := x.value_len v hv
    have hne : ¬ vryLenField (some v) = 0xffff := by
      simp only [vryLenField]
      omega
    rw [if_neg hne]
    simp only [vryLenField, Option.getD_some]
    omega

lemma take_header (r : List UInt8) :
    ((x.encode ++ r).drop 2).take (((x.encode ++ r).getD 2 0).toNat + 2) = hdrString x.name := by
  rw [drop_two_encode, getD_two_encode]
  exact List.take_left' (length_hdrString x.name)

variable {x y}

/-- The header of an entry is in the buffer only if that entry is. -/
lemma header_eq_of_readAt {m : Nat → UInt8} {o : Nat}
    (hy : readAt m o y.encode.length = y.encode)
    (h : readAt m (o + 2) (x.name.length + 3) = hdrString x.name) : x.name = y.name := by
  have hy2 : readAt m (o + 2) (hdrString y.name).length = hdrString y.name := by
    rw [VaryEntry.encode, List.append_assoc, readAt_append, readAt_append] at hy
    exact hy.2.1
  have hbyte : ∀ {name : List UInt8} {n : Nat}, readAt m (o + 2) (n + 1) = hdrString name →
      m (o + 2) = (hdrString name).getD 0 0 := by
    intro name n hr
    rw [← hr]
    simp [readAt, List.range_succ_eq_map]
  have hx0 := hbyte h
  rw [length_hdrString] at hy2
  have hy0 := hbyte hy2
  have hlen : x.name.length = y.name.length := by
    have h1 := hdrString_toNat x.name_len
    have h2 := hdrString_toNat y.name_len
    rw [← hx0] at h1
    rw [← hy0] at h2
    omega
  rw [hlen, hy2] at h
  have := congrArg (fun l => l.drop 1) h
  simp only [hdrString, List.cons_append, List.drop_succ_cons, List.drop_zero] at this
  exact (List.append_inj this hlen.symm).1.symm

lemma readAt_header {m : Nat → UInt8} {o : Nat} (h : readAt m o x.encode.length = x.encode) :
    readAt m (o + 2) (x.name.length + 3) = hdrString x.name := by
  rw [VaryEntry.encode, List.append_assoc, readAt_append, readAt_append] at h
  rw [← length_hdrString]
  exact h.2.1

lemma value_eq_of_readAt {m : Nat → UInt8} {o : Nat} (hn : x.name = y.name)
    (hy : readAt m o y.encode.length = y.encode) (hx : readAt m o x.encode.length = x.encode) :
    x.value = y.value := by
  have hlf : vryLenField x.value = vryLenField y.value := by
    have h1 := hx
    have h2 := hy
    rw [VaryEntry.encode, List.append_assoc, readAt_append, length_vbe16enc] at h1 h2
    have h3 : vbe16enc (vryLenField x.value) = vbe16enc (vryLenField y.value) := h1.1.symm.trans h2.1
    have := congrArg vbe16dec h3
    rwa [← List.append_nil (vbe16enc (vryLenField x.value)),
      ← List.append_nil (vbe16enc (vryLenField y.value)),
      vbe16dec_vbe16enc (vryLenField_lt x), vbe16dec_vbe16enc (vryLenField_lt y)] at this
  cases hxv : x.value with
  | none =>
    cases hyv : y.value with
    | none => rfl
    | some w =>
      have := y.value_len w hyv
      rw [hxv, hyv] at hlf
      simp only [vryLenField] at hlf
      omega
  | some v =>
    cases hyv : y.value with
    | none =>
      have := x.value_len v hxv
      rw [hxv, hyv] at hlf
      simp only [vryLenField] at hlf
      omega
    | some w =>
      rw [hxv, hyv] at hlf
      simp only [vryLenField] at hlf
      have hl : x.encode.length = y.encode.length := by
        rw [length_encode, length_encode, hn, hxv, hyv]
        simp [hlf]
      have he : x.encode = y.encode := by rw [← hx, ← hy, hl]
      have := List.append_inj' he (by simp [hxv, hyv, hlf])
      simpa [hxv, hyv] using this.2

/-- The stored entry is compared with the entry of the request for the same header. -/
lemma vryCmp_same (gzip : Bool) {m : Nat → UInt8} {o : Nat} (r : List UInt8) (hn : x.name = y.name)
    (hy : readAt m o y.encode.length = y.encode) :
    vryCmp gzip (x.encode ++ r) m o = if x.value = y.value ∨
      (gzip ∧ strcaseEq hAcceptEncoding (hdrString x.name ++ (x.value.getD [] ++ r))) then 0 else 2 := by
  have hh := readAt_header hy
  have hfirst : x.encode = readAt m o x.encode.length ↔ x.value = y.value := by
    constructor
    · intro h
      exact value_eq_of_readAt hn hy h.symm
    · intro h
      have he : x.encode = y.encode := by rw [VaryEntry.encode, VaryEntry.encode, hn, h]
      rw [he, hy]
  rw [vryCmp, take_header, getD_two_encode, vryLen_eq_length, List.take_left, drop_two_encode]
  rw [← hn] at hh
  by_cases hv : x.value = y.value
  · rw [if_pos (hfirst.mpr hv), if_pos (Or.inl hv)]
  · rw [if_neg (fun h => hv (hfirst.mp h)), if_neg (not_not.mpr hh.symm)]
    simp only [hv, false_or]

lemma vryCmp_differs (gzip : Bool) {m : Nat → UInt8} {o : Nat} (r : List UInt8)
    (h : readAt m (o + 2) (x.name.length + 3) ≠ hdrString x.name) :
    vryCmp gzip (x.encode ++ r) m o = 1 := by
  rw [vryCmp, take_header, getD_two_encode, vryLen_eq_length, List.take_left]
  rw [if_neg (fun he => h (readAt_header he.symm)), if_pos (Ne.symm h)]

lemma vryCmp_end (gzip : Bool) {m : Nat → UInt8} {o : Nat} (r : List UInt8) (h : m (o + 2) = 0) :
    vryCmp gzip (x.encode ++ r) m o = 1 := by
  apply vryCmp_differs
  intro he
  have h0 := hdrString_toNat x.name_len
  rw [← he, show x.name.length + 3 = (x.name.length + 2) + 1 from rfl] at h0
  simp [readAt, List.range_succ_eq_map, h] at h0

lemma cstr_hdrString (r : List UInt8) :
    cstr (hdrString x.name ++ r) = (1 + x.name.length).toUInt8 :: (x.name ++ [chColon]) := by
  have h0 : (1 + x.name.length).toUInt8 ≠ 0 := by
    intro h
    have := hdrString_toNat x.name_len
    simp [hdrString, h] at this
  have hname : ∀ c ∈ x.name ++ [chColon], (decide (c ≠ 0)) = true := by
    intro c hc
    rcases List.mem_append.mp hc with hc | hc
    · exact decide_eq_true (fun h => x.name_nul (h ▸ hc))
    · rw [List.mem_singleton.mp hc]
      decide
  have hsplit : hdrString x.name ++ r =
      (1 + x.name.length).toUInt8 :: ((x.name ++ [chColon]) ++ (0 :: r)) := by
    simp [hdrString]
  rw [cstr, hsplit, List.takeWhile_cons, if_pos (by simpa using h0),
    List.takeWhile_append_of_pos hname]
  simp

/-- The comparison with `H_Accept_Encoding` looks at the name alone. -/
lemma strcaseEq_acceptEncoding (r : List UInt8) :
    strcaseEq hAcceptEncoding (hdrString x.name ++ r) = true ↔
      x.name.map toLower = (bytes "Accept-Encoding").map toLower := by
  have hae : cstr hAcceptEncoding = 16 :: (bytes "Accept-Encoding" ++ [chColon]) := by decide
  rw [strcaseEq, cstr_hdrString, hae, decide_eq_true_iff]
  simp only [List.map_cons, List.map_append, List.map_nil]
  constructor
  · intro h
    have := (List.cons.inj h).2
    exact (List.append_inj_left' this rfl).symm
  · intro h
    have hl : x.name.length = 15 := by
      have := congrArg List.length h
      simpa [bytes] using this
    rw [h, hl]
    decide

end Entries

end VarnishCache.Proofs
