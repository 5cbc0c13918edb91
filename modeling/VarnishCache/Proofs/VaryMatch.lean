import VarnishCache.Proofs.Vary

/-!
# `VRY_Match` over a sequence of vary strings

Between two calls the predictive buffer holds entries of the request, each with room for the end
marker behind it, up to an end marker. A round of the loop keeps this, steps over one entry and
compares the stored value with the one of the request.
-/

namespace VarnishCache.Proofs

/-- From `o` to `o'` the buffer holds the request's entries for the names of `ys`. -/
def VaryChain (req : Http) (e : Nat) (m : Nat → UInt8) : Nat → List VaryEntry → Nat → Prop
  | o, [], o' => o = o'
  | o, y :: ys, o' =>
    readAt m o y.encode.length = y.encode ∧ y.value = req.value y.name ∧
      o + y.encode.length + 2 < e ∧ VaryChain req e m (o + y.encode.length) ys o'

/-- The buffer from `o` on: entries of the request up to an end marker. -/
def VaryRest (req : Http) (e : Nat) (m : Nat → UInt8) (o : Nat) : Prop :=
  ∃ ys o', VaryChain req e m o ys o' ∧ m (o' + 2) = 0

/-- Where the loop stands: entries of the request before the cursor and behind it. -/
structure VaryReady (req : Http) (e : Nat) (m : Nat → UInt8) (o : Nat) : Prop where
  before : ∃ ys, VaryChain req e m 0 ys o
  behind : VaryRest req e m o

section Chain

variable {req : Http} {e : Nat} {m m' : Nat → UInt8}

lemma varyChain_le {o o' : Nat} {ys : List VaryEntry} (h : VaryChain req e m o ys o') : o ≤ o' := by
  induction ys generalizing o with
  | nil => exact le_of_eq h
  | cons y ys ih => exact le_trans (Nat.le_add_right _ _) (ih h.2.2.2)

lemma varyChain_append {o o' o'' : Nat} {ys zs : List VaryEntry} (h : VaryChain req e m o ys o')
    (hz : VaryChain req e m o' zs o'') : VaryChain req e m o (ys ++ zs) o'' := by
  induction ys generalizing o with
  | nil =>
    obtain rfl : o = o' := h
    exact hz
  | cons y ys ih => exact ⟨h.1, h.2.1, h.2.2.1, ih h.2.2.2⟩

lemma varyChain_congr {o o' : Nat} {ys : List VaryEntry} (h : VaryChain req e m o ys o')
    (hm : ∀ i, i < o' → m' i = m i) : VaryChain req e m' o ys o' := by
  induction ys generalizing o with
  | nil => exact h
  | cons y ys ih =>
    have hle := varyChain_le h.2.2.2
    refine ⟨?_, h.2.1, h.2.2.1, ih h.2.2.2⟩
    have hr : readAt m' o y.encode.length = readAt m o y.encode.length :=
      readAt_congr (fun i _ hi => hm i (by omega))
    rw [hr, h.1]

end Chain

/-- The request's own entry for the header of a stored entry. -/
def ownEntry (req : Http) (x : VaryEntry)
    (h : ∀ v, req.value x.name = some v → v.length < 0xffff) : VaryEntry :=
  ⟨x.name, req.value x.name, x.name_len, x.name_nul, h⟩

/-- What a rebuilt entry leaves in the buffer: the entry and an end marker two bytes behind it. -/
def rebuilt (m : Nat → UInt8) (o : Nat) (y : VaryEntry) : Nat → UInt8 :=
  writeAt (writeAt m o y.encode) (o + y.encode.length + 2) [0]

section Build

variable {req : Http} {e : Nat} {x : VaryEntry} {st : VryLoop} {r : List UInt8}

lemma length_ownEntry (h : ∀ v, req.value x.name = some v → v.length < 0xffff) :
    (ownEntry req x h).encode.length = x.room req := by
  rw [length_encode]
  rfl

/-- The offset at which a new entry goes: behind the others if it fits there. -/
def buildAt (e o ln : Nat) : Nat := if e ≤ o + ln then 0 else o

lemma getHdr_drop_two (req : Http) (x : VaryEntry) (r : List UInt8) :
    ∃ h, req.getHdr ((x.encode ++ r).drop 2) = some h ∧ h.map trimTail = req.value x.name := by
  have hg := getHdr_hdrString req x.name_len (x.value.getD [] ++ r)
  rw [← drop_two_encode x r] at hg
  cases hh : req.getHdr ((x.encode ++ r).drop 2) with
  | none => simp [hh] at hg
  | some h => exact ⟨h, rfl, by simpa [hh] using hg⟩

lemma rebuilt_eq (m : Nat → UInt8) (o : Nat)
    (h : ∀ v, req.value x.name = some v → v.length < 0xffff) :
    writeAt (writeAt (writeAt (writeAt m o (vbe16enc (vryLenField (req.value x.name)))) (o + 2)
      (hdrString x.name)) (o + 2 + (x.name.length + 1) + 2) ((req.value x.name).getD []))
      (o + 2 + (x.name.length + 1) + 2 + ((req.value x.name).getD []).length + 2) [0] =
      rebuilt m o (ownEntry req x h) := by
  have h1 : o + 2 = o + (vbe16enc (vryLenField (req.value x.name))).length := rfl
  have h2 : o + 2 + (x.name.length + 1) + 2 =
      o + (vbe16enc (vryLenField (req.value x.name)) ++ hdrString x.name).length := by
    rw [List.length_append, length_vbe16enc, length_hdrString]
    omega
  have h3 : o + 2 + (x.name.length + 1) + 2 + ((req.value x.name).getD []).length + 2 =
      o + (ownEntry req x h).encode.length + 2 := by
    rw [length_ownEntry, VaryEntry.room]
    omega
  rw [h3, h2, h1, writeAt_append, writeAt_append]
  rfl

lemma vryBuild_some (h : ∀ v, req.value x.name = some v → v.length < 0xffff)
    (hfit : buildAt e st.vsp (x.room req) + x.room req + 2 < e) :
    vryBuild req e (x.encode ++ r) st = some
      { st with
        mem := rebuilt st.mem (buildAt e st.vsp (x.room req)) (ownEntry req x h)
        vsp := buildAt e st.vsp (x.room req)
        oflo := st.oflo || decide (e ≤ st.vsp + x.room req) } := by
  obtain ⟨hd, hget, hv⟩ := getHdr_drop_two req x r
  have hlen : ¬ ((req.value x.name).isSome ∧ 0xffff ≤ vryLenField (req.value x.name)) := by
    rintro ⟨hs, hl⟩
    obtain ⟨v, hv⟩ := Option.isSome_iff_exists.mp hs
    have := h v hv
    simp only [hv, vryLenField] at hl
    omega
  have hroom : 2 + (x.name.length + 1) + 2 + ((req.value x.name).getD []).length = x.room req := by
    rw [VaryEntry.room]
    omega
  have htake := take_header x r
  rw [getD_two_encode] at htake
  simp only [vryBuild, hget, Option.bind_eq_bind, Option.bind_some, hv, if_neg hlen, getD_two_encode,
    hroom, htake]
  by_cases ho : e ≤ st.vsp + x.room req
  · have hb : buildAt e st.vsp (x.room req) = 0 := if_pos ho
    rw [hb] at hfit
    simp only [ho, if_true, decide_true, Bool.or_true, hb, if_neg (Nat.not_le.mpr hfit)]
    rw [rebuilt_eq _ _ h]
  · have hb : buildAt e st.vsp (x.room req) = st.vsp := if_neg ho
    rw [hb] at hfit
    simp only [ho, if_false, decide_false, Bool.or_false, hb, if_neg (Nat.not_le.mpr hfit)]
    rw [rebuilt_eq _ _ h]

lemma vryBuild_none
    (h : ¬ (∀ v, req.value x.name = some v → v.length < 0xffff) ∨
      e ≤ buildAt e st.vsp (x.room req) + x.room req + 2) :
    vryBuild req e (x.encode ++ r) st = none := by
  obtain ⟨hd, hget, hv⟩ := getHdr_drop_two req x r
  have hroom : 2 + (x.name.length + 1) + 2 + ((req.value x.name).getD []).length = x.room req := by
    rw [VaryEntry.room]
    omega
  simp only [vryBuild, hget, Option.bind_eq_bind, Option.bind_some, hv, getD_two_encode, hroom]
  by_cases hl : (req.value x.name).isSome ∧ 0xffff ≤ vryLenField (req.value x.name)
  · rw [if_pos hl]
  · have hall : ∀ v, req.value x.name = some v → v.length < 0xffff := by
      intro v hv
      by_contra hc
      exact hl ⟨by simp [hv], by simp only [hv, vryLenField]; omega⟩
    have hfit : e ≤ buildAt e st.vsp (x.room req) + x.room req + 2 := h.resolve_left (not_not.mpr hall)
    rw [if_neg hl]
    by_cases ho : e ≤ st.vsp + x.room req
    · have hb : buildAt e st.vsp (x.room req) = 0 := if_pos ho
      rw [hb] at hfit
      simp only [ho, if_true, if_pos hfit]
    · have hb : buildAt e st.vsp (x.room req) = st.vsp := if_neg ho
      rw [hb] at hfit
      simp only [ho, if_false, if_pos hfit]

lemma readAt_rebuilt (m : Nat → UInt8) (o : Nat) (y : VaryEntry) :
    readAt (rebuilt m o y) o y.encode.length = y.encode := by
  rw [rebuilt, readAt_writeAt_disjoint (Or.inl (by omega)), readAt_writeAt]

lemma rebuilt_end (m : Nat → UInt8) (o : Nat) (y : VaryEntry) :
    rebuilt m o y (o + y.encode.length + 2) = 0 := by
  simp [rebuilt, writeAt]

lemma rebuilt_of_lt {m : Nat → UInt8} {o i : Nat} {y : VaryEntry} (h : i < o) :
    rebuilt m o y i = m i := by
  rw [rebuilt, writeAt_of_lt (by omega), writeAt_of_lt h]

end Build

lemma vryLen_readAt {m : Nat → UInt8} {o : Nat} {y : VaryEntry}
    (h : readAt m o y.encode.length = y.encode) : vryLen (readAt m o 3) = y.encode.length := by
  have hget : ∀ i, i < 3 → (readAt m o 3).getD i 0 = (y.encode ++ []).getD i 0 := by
    intro i hi
    have hl : i < y.encode.length := by
      rw [length_encode]
      omega
    have h2 : y.encode.getD i 0 = m (o + i) := by
      rw [← h]
      simp [readAt, hl]
    rw [List.append_nil, h2]
    simp [readAt, hi]
  have hd : vbe16dec (readAt m o 3) = vbe16dec (y.encode ++ []) := by
    simp only [vbe16dec, hget 0 (by omega), hget 1 (by omega)]
  rw [← vryLen_eq_length y [], vryLen, vryLen, hd, hget 2 (by omega)]

lemma varyFits_cons {req : Http} {e o : Nat} {x : VaryEntry} {es : List VaryEntry} :
    VaryFits req e o (x :: es) ↔ (∀ v, req.value x.name = some v → v.length < 0xffff) ∧
      buildAt e o (x.room req) + x.room req + 2 < e ∧
      VaryFits req e (buildAt e o (x.room req) + x.room req) es := by
  rw [VaryFits]
  by_cases ho : e ≤ o + x.room req
  · have hb : buildAt e o (x.room req) = 0 := if_pos ho
    have hn : ¬ o + x.room req + 2 < e := by omega
    simp only [hb, Nat.zero_add, ho, hn, false_and, true_and, false_or]
  · have hb : buildAt e o (x.room req) = o := if_neg ho
    simp only [hb, ho, false_and, or_false]

section Round

variable {gzip : Bool} {req : Http} {e : Nat} {x : VaryEntry} {st : VryLoop} {r : List UInt8}

/-- The two branches of a round: the request's entry is already under the cursor, or it is not. -/
lemma varyReady_cases (h : VaryReady req e st.mem st.vsp) (x : VaryEntry) (r : List UInt8) :
    (∃ ho : ∀ v, req.value x.name = some v → v.length < 0xffff,
      readAt st.mem st.vsp (ownEntry req x ho).encode.length = (ownEntry req x ho).encode ∧
        st.vsp + x.room req + 2 < e ∧ VaryRest req e st.mem (st.vsp + x.room req)) ∨
      ∀ gzip, vryCmp gzip (x.encode ++ r) st.mem st.vsp = 1 := by
  obtain ⟨ys, o', hc, hend⟩ := h.behind
  cases ys with
  | nil =>
    right
    intro gzip
    apply vryCmp_end
    rw [show st.vsp = o' from hc]
    exact hend
  | cons y ys =>
    by_cases hn : x.name = y.name
    · left
      have ho : ∀ v, req.value x.name = some v → v.length < 0xffff := by
        intro v hv
        rw [hn, ← hc.2.1] at hv
        exact y.value_len v hv
      have hy : (ownEntry req x ho).encode = y.encode := by
        rw [VaryEntry.encode, VaryEntry.encode, hc.2.1, ← hn]
        rfl
      have hroom : x.room req = y.encode.length := by rw [← length_ownEntry ho, hy]
      refine ⟨ho, ?_⟩
      rw [hy, hroom]
      exact ⟨hc.1, hc.2.2.1, ys, o', hc.2.2.2, hend⟩
    · right
      intro gzip
      apply vryCmp_differs
      intro hh
      exact hn (header_eq_of_readAt hc.1 hh)

lemma vryCmp_own (ho : ∀ v, req.value x.name = some v → v.length < 0xffff) {m : Nat → UInt8} {o : Nat}
    (hm : readAt m o (ownEntry req x ho).encode.length = (ownEntry req x ho).encode) :
    vryCmp gzip (x.encode ++ r) m o = if x.Agrees gzip req then 0 else 2 := by
  rw [vryCmp_same (x := x) (y := ownEntry req x ho) gzip r rfl hm]
  congr 1
  rw [VaryEntry.Agrees, strcaseEq_acceptEncoding, eq_iff_iff, or_comm, eq_comm (a := x.value)]
  rfl

/-- A round that does not fail: the cursor steps over the request's entry. -/
lemma vryEntry_some (gzip : Bool) (h : VaryReady req e st.mem st.vsp)
    (ho : ∀ v, req.value x.name = some v → v.length < 0xffff)
    (hfit : buildAt e st.vsp (x.room req) + x.room req + 2 < e) :
    ∃ st', vryEntry gzip req e (x.encode ++ r) st = some st' ∧
      st'.vsp = buildAt e st.vsp (x.room req) + x.room req ∧
      st'.retval = (st.retval && decide (x.Agrees gzip req)) ∧
      VaryReady req e st'.mem st'.vsp := by
  have hval : ∀ b : Bool, (if (if x.Agrees gzip req then 0 else 2) ≠ 0 then false else b) =
      (b && decide (x.Agrees gzip req)) := by
    intro b
    by_cases ha : x.Agrees gzip req <;> simp [ha]
  have hne : (if x.Agrees gzip req then 0 else 2) ≠ 1 := by
    split <;> omega
  rcases varyReady_cases h x r with ⟨ho', hm, hroom, hrest⟩ | hcmp
  · have hb : buildAt e st.vsp (x.room req) = st.vsp := if_neg (by omega)
    have hlen := vryLen_readAt hm
    rw [length_ownEntry] at hlen
    refine ⟨{ st with
      retval := st.retval && decide (x.Agrees gzip req)
      vsp := st.vsp + x.room req }, ?_, by rw [hb], rfl, ?_, hrest⟩
    · simp only [vryEntry, vryCmp_own ho' hm, if_neg hne, Option.bind_eq_bind, Option.bind_some, hlen,
        hval]
    · obtain ⟨ys, hys⟩ := h.before
      refine ⟨ys ++ [ownEntry req x ho'], varyChain_append hys ⟨hm, rfl, ?_, ?_⟩⟩
      · rw [length_ownEntry]
        exact hroom
      · rw [length_ownEntry]
        rfl
  · have hm := readAt_rebuilt st.mem (buildAt e st.vsp (x.room req)) (ownEntry req x ho)
    have hlen := vryLen_readAt hm
    rw [length_ownEntry] at hlen
    refine ⟨{ st with
      mem := rebuilt st.mem (buildAt e st.vsp (x.room req)) (ownEntry req x ho)
      vsp := buildAt e st.vsp (x.room req) + x.room req
      oflo := st.oflo || decide (e ≤ st.vsp + x.room req)
      retval := st.retval && decide (x.Agrees gzip req) }, ?_, rfl, rfl, ?_, ?_⟩
    · simp only [vryEntry, hcmp gzip, if_true, vryBuild_some ho hfit, Option.bind_eq_bind,
        Option.bind_some, vryCmp_own ho hm, if_neg hne, hlen, hval]
    · have hown : VaryChain req e (rebuilt st.mem (buildAt e st.vsp (x.room req)) (ownEntry req x ho))
          (buildAt e st.vsp (x.room req)) [ownEntry req x ho]
          (buildAt e st.vsp (x.room req) + x.room req) := by
        refine ⟨hm, rfl, ?_, ?_⟩
        · rw [length_ownEntry]
          exact hfit
        · rw [length_ownEntry]
          rfl
      by_cases hov : e ≤ st.vsp + x.room req
      · have hb : buildAt e st.vsp (x.room req) = 0 := if_pos hov
        rw [hb] at hown ⊢
        exact ⟨_, hown⟩
      · have hb : buildAt e st.vsp (x.room req) = st.vsp := if_neg hov
        obtain ⟨ys, hys⟩ := h.before
        rw [hb] at hown ⊢
        exact ⟨_, varyChain_append (varyChain_congr hys (fun i hi => rebuilt_of_lt hi)) hown⟩
    · refine ⟨[], _, rfl, ?_⟩
      have hend := rebuilt_end st.mem (buildAt e st.vsp (x.room req)) (ownEntry req x ho)
      rwa [length_ownEntry] at hend

/-- A round that fails an assertion. -/
lemma vryEntry_none (h : VaryReady req e st.mem st.vsp)
    (hbad : ¬ (∀ v, req.value x.name = some v → v.length < 0xffff) ∨
      e ≤ buildAt e st.vsp (x.room req) + x.room req + 2) :
    vryEntry gzip req e (x.encode ++ r) st = none := by
  rcases varyReady_cases h x r with ⟨ho', hm, hroom, hrest⟩ | hcmp
  · have hb : buildAt e st.vsp (x.room req) = st.vsp := if_neg (by omega)
    rw [hb] at hbad
    rcases hbad with hbad | hbad
    · exact absurd ho' hbad
    · omega
  · simp only [vryEntry, hcmp gzip, if_true, vryBuild_none hbad, Option.bind_eq_bind, Option.bind_none]

end Round

section Match

variable {gzip : Bool} {req : Http} {e : Nat}

/-- The string holds the entries, and a zero where the name of another one would be. -/
def HoldsEntries (s : List UInt8) (es : List VaryEntry) : Prop :=
  ∃ r, s = es.flatMap VaryEntry.encode ++ r ∧ r.getD 2 0 = 0

lemma holds_varyString (es : List VaryEntry) : HoldsEntries (varyString es) es := ⟨[0xff, 0xff, 0], rfl, rfl⟩

lemma holds_cons {s : List UInt8} {x : VaryEntry} {es : List VaryEntry} (h : HoldsEntries s (x :: es)) :
    ∃ r, s = x.encode ++ r ∧ HoldsEntries r es := by
  obtain ⟨r, rfl, hr⟩ := h
  exact ⟨es.flatMap VaryEntry.encode ++ r, by rw [List.flatMap_cons, List.append_assoc], r, rfl, hr⟩

lemma vryLoop_fits (gzip : Bool) {es : List VaryEntry} {s : List UInt8} {st : VryLoop} {fuel : Nat}
    (hs : HoldsEntries s es) (hf : es.length ≤ fuel) (h : VaryReady req e st.mem st.vsp)
    (hfits : VaryFits req e st.vsp es) :
    ∃ st', vryLoop gzip req e fuel s st = some st' ∧
      st'.retval = (st.retval && decide (∀ x ∈ es, x.Agrees gzip req)) ∧
      VaryReady req e st'.mem st'.vsp := by
  induction es generalizing s st fuel with
  | nil =>
    obtain ⟨r, rfl, hr⟩ := hs
    refine ⟨st, ?_, by simp, h⟩
    cases fuel with
    | zero => rfl
    | succ fuel => exact if_pos hr
  | cons x es ih =>
    obtain ⟨fuel, rfl⟩ : ∃ n, fuel = n + 1 := ⟨fuel - 1, by simp at hf; omega⟩
    rw [varyFits_cons] at hfits
    obtain ⟨r, rfl, hr⟩ := holds_cons hs
    obtain ⟨st1, h1, hvsp, hret, hready⟩ := vryEntry_some gzip (r := r) h hfits.1 hfits.2.1
    rw [← hvsp] at hfits
    obtain ⟨st2, h2, hret2, hready2⟩ := ih hr (Nat.le_of_succ_le_succ hf) hready hfits.2.2
    refine ⟨st2, ?_, ?_, hready2⟩
    · rw [vryLoop, if_neg (getD_two_encode_ne x _), h1, vryLen_eq_length, List.drop_left]
      exact h2
    · rw [hret2, hret]
      simp only [List.forall_mem_cons, Bool.decide_and, Bool.and_assoc]

lemma vryLoop_not_fits (gzip : Bool) {es : List VaryEntry} {s : List UInt8} {st : VryLoop} {fuel : Nat}
    (hs : HoldsEntries s es) (hf : es.length ≤ fuel) (h : VaryReady req e st.mem st.vsp)
    (hfits : ¬ VaryFits req e st.vsp es) : vryLoop gzip req e fuel s st = none := by
  induction es generalizing s st fuel with
  | nil => exact absurd trivial hfits
  | cons x es ih =>
    obtain ⟨fuel, rfl⟩ : ∃ n, fuel = n + 1 := ⟨fuel - 1, by simp at hf; omega⟩
    obtain ⟨r, rfl, hr⟩ := holds_cons hs
    rw [varyFits_cons] at hfits
    rw [vryLoop, if_neg (getD_two_encode_ne x _), vryLen_eq_length, List.drop_left]
    by_cases ho : ∀ v, req.value x.name = some v → v.length < 0xffff
    · by_cases hfit : buildAt e st.vsp (x.room req) + x.room req + 2 < e
      · obtain ⟨st1, h1, hvsp, hret, hready⟩ :=
          vryEntry_some gzip (r := r) h ho hfit
        rw [h1]
        apply ih hr (by simpa using hf) hready
        rw [hvsp]
        exact fun hc => hfits ⟨ho, hfit, hc⟩
      · rw [vryEntry_none h (Or.inr (Nat.not_lt.mp hfit))]
        rfl
    · rw [vryEntry_none h (Or.inl ho)]
      rfl

lemma holds_length {s : List UInt8} {es : List VaryEntry} (h : HoldsEntries s es) : es.length ≤ s.length := by
  induction es generalizing s with
  | nil => exact Nat.zero_le _
  | cons x es ih =>
    obtain ⟨r, rfl, hr⟩ := holds_cons h
    have hlen := ih hr
    have henc := length_encode x
    rw [List.length_append, List.length_cons]
    omega

lemma varyReady_zero {m : Nat → UInt8} (h : VaryRest req e m 0) : VaryReady req e m 0 :=
  ⟨⟨[], rfl⟩, h⟩

/-- `VRY_Match` with a buffer from an earlier call: the verdict, and a buffer for the next call. -/
lemma vryMatch_fits (gzip : Bool) {buf : VaryBuf} {s : List UInt8} {es : List VaryEntry}
    (hs : HoldsEntries s es) (h : VaryRest req buf.e buf.mem 0) (hfits : VaryFits req buf.e 0 es) :
    ∃ buf', vryMatch gzip req buf s =
        some (decide (∀ x ∈ es, x.Agrees gzip req), buf') ∧
      buf'.e = buf.e ∧ VaryRest req buf.e buf'.mem 0 := by
  have hready0 : VaryReady req buf.e (VryLoop.mk buf.mem 0 true false).mem 0 := varyReady_zero h
  obtain ⟨st, hst, hret, hready⟩ := vryLoop_fits gzip hs (holds_length hs) hready0 hfits
  let oflo := st.oflo || decide (buf.e < st.vsp + 3)
  let vsp := if oflo then 0 else st.vsp
  refine ⟨⟨writeAt st.mem vsp [0xff, 0xff, 0], buf.e, if oflo then none else some (vsp + 3)⟩, ?_, rfl, ?_⟩
  · simp only [vryMatch, hst, Option.bind_eq_bind, Option.bind_some, hret, Bool.true_and, vsp, oflo]
  dsimp only [vsp]
  split
  · exact ⟨[], 0, rfl, by simp [writeAt]⟩
  · obtain ⟨ys, hys⟩ := hready.before
    refine ⟨ys, st.vsp, varyChain_congr hys (fun i hi => writeAt_of_lt hi), by simp [writeAt]⟩

lemma vryMatch_not_fits (gzip : Bool) {buf : VaryBuf} {s : List UInt8} {es : List VaryEntry}
    (hs : HoldsEntries s es) (h : VaryRest req buf.e buf.mem 0) (hfits : ¬ VaryFits req buf.e 0 es) :
    vryMatch gzip req buf s = none := by
  have hready0 : VaryReady req buf.e (VryLoop.mk buf.mem 0 true false).mem 0 := varyReady_zero h
  have hloop := vryLoop_not_fits gzip hs (holds_length hs) hready0 hfits
  simp only [vryMatch, hloop, Option.bind_eq_bind, Option.bind_none]

lemma vryMatchAll_fits {buf : VaryBuf} {vs : List (List VaryEntry)} (h : VaryRest req buf.e buf.mem 0)
    (hfits : ∀ es ∈ vs, VaryFits req buf.e 0 es) :
    ∃ buf', vryMatchAll gzip req buf (vs.map varyString) =
      some (vs.map (fun es => decide (∀ x ∈ es, x.Agrees gzip req)), buf') := by
  induction vs generalizing buf with
  | nil => exact ⟨buf, rfl⟩
  | cons es vs ih =>
    obtain ⟨buf1, h1, he, hrest⟩ := vryMatch_fits gzip (holds_varyString es) h (hfits es List.mem_cons_self)
    rw [← he] at hrest hfits
    obtain ⟨buf2, h2⟩ := ih hrest (fun es' hm => hfits es' (List.mem_cons_of_mem _ hm))
    refine ⟨buf2, ?_⟩
    simp only [List.map_cons, vryMatchAll, h1, h2, Option.bind_eq_bind, Option.bind_some]

lemma fits_of_vryMatchAll {buf buf' : VaryBuf} {vs : List (List VaryEntry)} {rs : List Bool}
    (h : VaryRest req buf.e buf.mem 0)
    (hrun : vryMatchAll gzip req buf (vs.map varyString) = some (rs, buf')) :
    ∀ es ∈ vs, VaryFits req buf.e 0 es := by
  induction vs generalizing buf rs with
  | nil => simp
  | cons es vs ih =>
    by_cases hfits : VaryFits req buf.e 0 es
    · obtain ⟨buf1, h1, he, hrest⟩ := vryMatch_fits gzip (holds_varyString es) h hfits
      simp only [List.map_cons, vryMatchAll, h1, Option.bind_eq_bind, Option.bind_some] at hrun
      obtain ⟨p, hp, hend⟩ := Option.bind_eq_some_iff.mp hrun
      simp only [Option.some.injEq, Prod.mk.injEq] at hend
      obtain ⟨rs1, buf2⟩ := p
      obtain rfl : buf2 = buf' := hend.2
      rw [← he] at hrest hfits ⊢
      exact List.forall_mem_cons.mpr ⟨hfits, ih hrest hp⟩
    · simp only [List.map_cons, vryMatchAll, vryMatch_not_fits gzip (holds_varyString es) h hfits,
        Option.bind_eq_bind, Option.bind_none] at hrun
      exact absurd hrun (by simp)

end Match

section Create

/-- The strings of `VRY_Create` are vary strings, and hold the values of the request. -/
lemma vryCreateLoop_string (req : Http) {fuel : Nat} {v sb s : List UInt8} (hv : 0 ∉ v)
    (h : vryCreateLoop req fuel v sb = some (.string s)) :
    ∃ es : List VaryEntry, s = sb ++ varyString es ∧ ∀ x ∈ es, req.value x.name = x.value := by
  induction fuel generalizing v sb with
  | zero =>
    cases v with
    | nil =>
      simp only [vryCreateLoop, Option.some.injEq, VryCreate.string.injEq] at h
      exact ⟨[], by simp [← h, varyString], by simp⟩
    | cons c r => simp [vryCreateLoop] at h
  | succ fuel ih =>
    cases v with
    | nil =>
      simp only [vryCreateLoop, Option.some.injEq, VryCreate.string.injEq] at h
      exact ⟨[], by simp [← h, varyString], by simp⟩
    | cons c r =>
      rw [vryCreateLoop] at h
      by_cases hsp : vctIssp c = true
      · rw [if_pos hsp] at h
        exact ih (fun hm => hv (List.mem_cons_of_mem _ hm)) h
      rw [if_neg hsp] at h
      dsimp only at h
      set name := (c :: r).takeWhile (fun c => !vctIssp c && decide (c ≠ chComma)) with hname
      by_cases hmax : int8Max < name.length
      · simp [hmax] at h
      rw [if_neg hmax] at h
      obtain ⟨hd, hget, h⟩ := Option.bind_eq_some_iff.mp h
      have hlt : name.length < int8Max := by
        by_contra hc
        have h127 : name.length = 127 := by
          unfold int8Max at hmax hc
          omega
        simp [Http.getHdr_eq, hdrString, h127] at hget
      have hval : hd.map trimTail = req.value name := by
        have := getHdr_hdrString req hlt []
        rw [List.append_nil, hget] at this
        simpa using this
      rw [hval] at h
      split at h
      · exact absurd h (by simp)
      rename_i hlen
      let x : VaryEntry := ⟨name, req.value name, hlt,
        fun h0 => hv ((List.takeWhile_sublist _).subset h0), by
          intro w hw
          by_contra hc
          exact hlen ⟨by simp [hw], by simp only [hw, vryLenField]; omega⟩⟩
      have hx : sb ++ vbe16enc (vryLenField (req.value name)) ++ hdrString name ++
          (req.value name).getD [] = sb ++ x.encode := by
        simp only [VaryEntry.encode, List.append_assoc, x]
      rw [hx] at h
      split at h
      · simp only [Option.some.injEq, VryCreate.string.injEq] at h
        exact ⟨[x], by simp [← h, varyString], by simp [x]⟩
      · rename_i d q hq
        split at h
        · exact absurd h (by simp)
        have hq0 : 0 ∉ q := by
          intro hm
          have h1 : (0 : UInt8) ∈ ((c :: r).drop name.length).dropWhile vctIssp := by
            rw [hq]
            exact List.mem_cons_of_mem _ hm
          exact hv ((List.drop_sublist _ _).subset ((List.dropWhile_sublist _).subset h1))
        obtain ⟨es, hes, hall⟩ := ih hq0 h
        refine ⟨x :: es, ?_, ?_⟩
        · rw [hes]
          simp [varyString]
        · exact List.forall_mem_cons.mpr ⟨rfl, hall⟩

lemma vryCreate_string {req beresp : Http} {s : List UInt8}
    (h : vryCreate req beresp = some (.string s)) :
    ∃ es : List VaryEntry, s = varyString es ∧ ∀ x ∈ es, req.value x.name = x.value := by
  rw [vryCreate, Option.bind_eq_bind] at h
  obtain ⟨v, hv, h⟩ := Option.bind_eq_some_iff.mp h
  cases v with
  | none => simp at h
  | some v =>
    have h0 : 0 ∉ v := by
      simp only [Http.getHdr_eq] at hv
      split at hv
      · exact absurd hv (by simp)
      split at hv
      · exact absurd hv (by simp)
      simp only [Option.some.injEq, Option.map_eq_some_iff] at hv
      obtain ⟨b, -, rfl⟩ := hv
      exact cstr_nul _
    obtain ⟨es, hes, hall⟩ := vryCreateLoop_string req h0 h
    exact ⟨es, by simpa using hes, hall⟩

end Create

/-- `VRY_Match` over any sequence of vary strings, from a fresh predictive buffer: every call returns
whether the request agrees with each entry of its string, whatever the calls before it left in the
buffer, exactly if every string meets the buffer's size. The string that `VRY_Create` builds for the
request agrees with it. -/
theorem vry_match_exact (gzip : Bool) (req : Http) (buf : VaryBuf) (hb : buf.mem 2 = 0)
    (vs : List (List VaryEntry)) :
    ((∃ buf', vryMatchAll gzip req buf (vs.map varyString) =
        some (vs.map (fun es => decide (∀ x ∈ es, x.Agrees gzip req)), buf')) ↔
      ∀ es ∈ vs, VaryFits req buf.e 0 es) ∧
    ∀ beresp s, vryCreate req beresp = some (.string s) →
      ∃ es, s = varyString es ∧
        ((∀ es' ∈ vs, VaryFits req buf.e 0 es') → VaryFits req buf.e 0 es →
          ∃ rs buf', vryMatchAll gzip req buf (vs.map varyString ++ [s]) = some (rs ++ [true], buf')) := by
  have hrest : VaryRest req buf.e buf.mem 0 := ⟨[], 0, rfl, hb⟩
  constructor
  · constructor
    · rintro ⟨buf', hrun⟩
      exact fits_of_vryMatchAll hrest hrun
    · exact vryMatchAll_fits hrest
  · intro beresp s hs
    obtain ⟨es, rfl, hall⟩ := vryCreate_string hs
    refine ⟨es, rfl, ?_⟩
    intro hvs hes
    have hfits : ∀ es' ∈ vs ++ [es], VaryFits req buf.e 0 es' := by
      intro es' hm
      rcases List.mem_append.mp hm with hm | hm
      · exact hvs es' hm
      · rw [List.mem_singleton.mp hm]
        exact hes
    obtain ⟨buf', hrun⟩ := vryMatchAll_fits hrest hfits
    have hagree : decide (∀ x ∈ es, x.Agrees gzip req) = true := by
      rw [decide_eq_true_iff]
      exact fun x hx => Or.inr (hall x hx)
    rw [List.map_append, List.map_append, List.map_singleton, List.map_singleton, hagree] at hrun
    exact ⟨_, buf', hrun⟩

/-- Two headers of one byte each. -/
def twoHeaders : Http := ⟨[bytes "A: x", bytes "B: y"]⟩

lemma twoHeaders_value {name v : List UInt8} (h : twoHeaders.value name = some v) : v.length < 0xffff := by
  simp only [Http.value, Option.map_eq_some_iff] at h
  obtain ⟨b, hb, rfl⟩ := h
  have hm : b ∈ twoHeaders.hd := List.mem_of_find?_eq_some hb
  have hall : ∀ b ∈ twoHeaders.hd, b.length ≤ 4 := by decide
  have hlen := hall b hm
  have h1 := (List.rdropWhile_prefix vctIssp
    (cstr ((b.drop (name.length + 1)).dropWhile vctIssp))).length_le
  have h2 := (List.takeWhile_sublist (fun c : UInt8 => decide (c ≠ 0))
    (l := (b.drop (name.length + 1)).dropWhile vctIssp)).length_le
  have h3 := (List.dropWhile_sublist vctIssp (l := b.drop (name.length + 1))).length_le
  have h4 := (List.drop_sublist (name.length + 1) b).length_le
  simp only [cstr, trimTail] at h1 h2 ⊢
  omega

def entryA : VaryEntry := ⟨bytes "A", some (bytes "x"), by decide, by decide, by
  intro v hv
  obtain rfl := Option.some.inj hv
  decide⟩

def entryB : VaryEntry := ⟨bytes "B", some (bytes "z"), by decide, by decide, by
  intro v hv
  obtain rfl := Option.some.inj hv
  decide⟩

theorem vry_match_exact_two : (fun _ : Nat => (0 : UInt8)) 2 = 0 ∧
    ∃ buf', vryMatchAll false twoHeaders ⟨fun _ => 0, 64, none⟩
      ([[entryA, entryB], [entryA]].map varyString) = some ([false, true], buf') := by
  have hv : ∀ name v, twoHeaders.value name = some v → v.length < 0xffff := fun _ _ => twoHeaders_value
  refine ⟨rfl, ((vry_match_exact false twoHeaders ⟨fun _ => 0, 64, none⟩ rfl
    [[entryA, entryB], [entryA]]).1.mpr ?_)⟩
  intro es hes
  rcases List.mem_cons.mp hes with rfl | hes
  · exact ⟨hv _, Or.inl ⟨by decide, hv _, Or.inl ⟨by decide, trivial⟩⟩⟩
  · rw [List.mem_singleton.mp hes]
    exact ⟨hv _, Or.inl ⟨by decide, trivial⟩⟩

/-- A buffer of 16 bytes takes the first entry, but only two bytes are left behind the second: the
assertion fails. A buffer of 12 bytes starts over at the front and answers. -/
theorem vry_match_edge :
    (¬ ∃ buf', vryMatchAll false twoHeaders ⟨fun _ => 0, 16, none⟩ [varyString [entryA, entryB]] =
      some ([decide (∀ x ∈ [entryA, entryB], x.Agrees false twoHeaders)], buf')) ∧
    ∃ buf', vryMatchAll false twoHeaders ⟨fun _ => 0, 12, none⟩ [varyString [entryA, entryB]] =
      some ([decide (∀ x ∈ [entryA, entryB], x.Agrees false twoHeaders)], buf') := by
  have h16 : (vryMatchAll false twoHeaders ⟨fun _ => 0, 16, none⟩
      [varyString [entryA, entryB]]).isNone = true := by decide
  have h12 : (vryMatchAll false twoHeaders ⟨fun _ => 0, 12, none⟩
      [varyString [entryA, entryB]]).map Prod.fst = some [false] := by decide
  constructor
  · rintro ⟨buf', h⟩
    rw [h] at h16
    exact absurd h16 (by simp)
  · obtain ⟨⟨rs, buf'⟩, h, hrs⟩ := Option.map_eq_some_iff.mp h12
    have hd : decide (∀ x ∈ [entryA, entryB], x.Agrees false twoHeaders) = false := by decide
    refine ⟨buf', ?_⟩
    rw [h, hd]
    simpa using hrs

end VarnishCache.Proofs
