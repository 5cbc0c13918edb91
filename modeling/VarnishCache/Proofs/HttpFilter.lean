import VarnishCache.HttpHdr
import VarnishCache.Proofs.BanSpec
import VarnishCache.Proofs.Workspace

/-!
# Hop-by-hop headers

What `http_DoConnection` marks, and what `http_FilterFields` then copies. Each token marks the first header of its
name, and the tokens are those of the first `Connection` header.
-/

namespace VarnishCache.Proofs

open HttpMsg

variable {fm hp : HttpMsg} {how : FilterHow} {ls : List Txt} {u : Nat} {b : Txt}

/-! ## What is copied -/

/-- Where an element of a filtered list comes from, if it is among the first `k`. -/
lemma mem_take_filter {α : Type} (p : α → Bool) (l : List α) (k : Nat) (x : α) :
    x ∈ (l.filter p).take k ↔ ∃ u, l[u]? = some x ∧ p x = true ∧ ((l.take u).filter p).length < k := by
  induction l generalizing k with
  | nil => simp
  | cons y l ih =>
    by_cases hy : p y = true
    · rw [List.filter_cons_of_pos hy]
      cases k with
      | zero => simp
      | succ k =>
        rw [List.take_succ_cons, List.mem_cons, ih]
        constructor
        · rintro (rfl | ⟨u, hu, hx, hlt⟩)
          · exact ⟨0, rfl, hy, Nat.succ_pos k⟩
          · refine ⟨u + 1, hu, hx, ?_⟩
            rw [List.take_succ_cons, List.filter_cons_of_pos hy]
            exact Nat.succ_lt_succ hlt
        · rintro ⟨u, hu, hx, hlt⟩
          cases u with
          | zero => exact Or.inl (Option.some.inj hu).symm
          | succ u =>
            rw [List.take_succ_cons, List.filter_cons_of_pos hy] at hlt
            exact Or.inr ⟨u, hu, hx, Nat.lt_of_succ_lt_succ hlt⟩
    · rw [List.filter_cons_of_neg hy, ih]
      constructor
      · rintro ⟨u, hu, hx, hlt⟩
        refine ⟨u + 1, hu, hx, ?_⟩
        rw [List.take_succ_cons, List.filter_cons_of_neg hy]
        exact hlt
      · rintro ⟨u, hu, hx, hlt⟩
        cases u with
        | zero =>
          rw [Option.some.inj hu] at hy
          exact absurd hx hy
        | succ u =>
          rw [List.take_succ_cons, List.filter_cons_of_neg hy] at hlt
          exact ⟨u, hu, hx, hlt⟩

/-- The slots that a filter leaves. -/
def passing (how : FilterHow) (l : List (Option Txt × Bool)) : List (Option Txt × Bool) :=
  l.filter fun h => !filtered how h

lemma foldl_copyheader (how : FilterHow) (l : List (Option Txt × Bool)) (to' : HttpMsg) :
    (l.foldl (fun to' h => if filtered how h then to' else to'.copyheader h.1) to').hd =
      to'.hd ++ ((passing how l).map Prod.fst).take (to'.shd - to'.nhd) := by
  induction l generalizing to' with
  | nil => simp [passing]
  | cons h l ih =>
    rw [List.foldl_cons]
    by_cases hf : filtered how h = true
    · rw [if_pos hf, ih, passing, passing, List.filter_cons_of_neg (by simp [hf])]
    · rw [if_neg hf, ih, passing, passing, List.filter_cons_of_pos (by simpa using hf)]
      unfold copyheader
      by_cases hroom : to'.nhd < to'.shd
      · rw [if_pos hroom]
        have hsucc : to'.shd - to'.nhd = to'.shd - (to'.nhd + 1) + 1 := by omega
        rw [List.map_cons, hsucc, List.take_succ_cons]
        simp [nhd, Nat.add_assoc]
      · rw [if_neg hroom]
        have hzero : to'.shd - to'.nhd = 0 := by omega
        rw [hzero, List.take_zero, List.take_zero]

lemma filterFields_hd (to' fm : HttpMsg) (how : FilterHow) :
    (to'.filterFields fm how).hd = ((passing how (fm.hd.zip fm.hdf)).map Prod.fst).take (to'.shd - 5) := by
  have h := (foldl_copyheader how (fm.hd.zip fm.hdf) { to' with hd := [] })
  rw [List.nil_append] at h
  exact h

/-! ## What is marked -/

/-- `hp->hdf[u] & HDF_FILTER`. -/
def flagAt (hp : HttpMsg) (u : Nat) : Bool := hp.hdf.getD u false

/-- The first header that has the token up to a colon is marked. -/
lemma markHdr_eq (hls : hp.hd = ls.map some) (t : Txt) : ∃ hp', hp.markHdr t = some hp' ∧ hp'.hd = hp.hd ∧
    hp'.hdf.length = hp.hdf.length ∧ ∀ u < hp.hdf.length,
      flagAt hp' u = (flagAt hp u || ls.findIdx? (isNamed t.length t) == some u) := by
  unfold markHdr
  rw [hls, findhdr_map]
  cases ls.findIdx? (isNamed t.length t) with
  | none => exact ⟨hp, rfl, hls, rfl, fun u _ => by simp⟩
  | some v =>
    refine ⟨{ hp with hdf := hp.hdf.set v true, hd := ls.map some }, rfl, rfl, by simp, fun u hu => ?_⟩
    unfold flagAt
    rw [List.getD_eq_getElem?_getD, List.getElem?_set, List.getD_eq_getElem?_getD]
    by_cases hvu : v = u
    · subst hvu
      simp [hu]
    · simp [hvu]

lemma foldlM_markHdr (ts : List Txt) (hls : hp.hd = ls.map some) : ∃ hp', ts.foldlM markHdr hp = some hp' ∧
    hp'.hd = hp.hd ∧ hp'.hdf.length = hp.hdf.length ∧ ∀ u < hp.hdf.length,
      flagAt hp' u = (flagAt hp u || ts.any fun t => ls.findIdx? (isNamed t.length t) == some u) := by
  induction ts generalizing hp with
  | nil => exact ⟨hp, rfl, rfl, rfl, fun u _ => by simp⟩
  | cons t ts ih =>
    obtain ⟨hp1, h1, hhd1, hlen1, hflag1⟩ := markHdr_eq hls t
    obtain ⟨hp2, h2, hhd2, hlen2, hflag2⟩ := ih (hhd1.trans hls)
    refine ⟨hp2, by rw [List.foldlM_cons, h1]; exact h2, hhd2.trans hhd1, hlen2.trans hlen1, fun u hu => ?_⟩
    rw [hflag2 u (hlen1.symm ▸ hu), hflag1 u hu, List.any_cons, Bool.or_assoc]

/-! ## Tokens -/

/-- What stands between tokens. -/
def isSeparator (c : UInt8) : Bool := vctIssp c || c == chComma

lemma connectionTokens_eq (t p : Txt) :
    connectionTokens t p = ((cstr p).splitOnPPrepend isSeparator t.reverse).filter fun t => t ≠ [] := by
  induction p generalizing t with
  | nil =>
    rw [connectionTokens]
    by_cases ht : t = []
    · simp [cstr, ht]
    · simp [cstr, ht]
  | cons c p ih =>
    rw [connectionTokens]
    by_cases hc : c = 0
    · subst hc
      rw [if_pos rfl]
      by_cases ht : t = []
      · simp [cstr, ht]
      · simp [cstr, ht]
    · have hcstr : cstr (c :: p) = c :: cstr p := by simp [cstr, hc]
      rw [if_neg hc, hcstr]
      by_cases hsep : (vctIssp c || c == chComma) = true
      · rw [if_pos hsep, ih, List.splitOnPPrepend_cons_pos (p := isSeparator) hsep]
        by_cases ht : t = []
        · simp [ht]
        · simp [ht]
      · rw [if_neg hsep, ih, List.splitOnPPrepend_cons_neg (p := isSeparator) (by simpa [isSeparator] using hsep)]
        simp

/-- The tokens of a header value. -/
def tokens (p : Txt) : List Txt := ((cstr p).splitOnP isSeparator).filter fun t => t ≠ []

lemma connectionTokens_tokens (p : Txt) : connectionTokens [] p = tokens p := connectionTokens_eq [] p

/-! ## What is left -/

/-- The header has the token as its name. -/
def HdrNamed (t b : Txt) : Prop := ∃ n v, b = n ++ chColon :: v ∧ chColon ∉ n ∧ n.map toLower = t.map toLower

/-- The header is listed in a `Connection` header of the message. -/
def ListedIn (fm : HttpMsg) (b : Txt) : Prop :=
  ∃ c, some c ∈ fm.hd ∧ isHdr hConnection c = true ∧ ∃ t ∈ tokens (c.drop hConnection.len), HdrNamed t b

/-- No assertion fails, and no header that is listed is copied. -/
def HopGone (to' fm : HttpMsg) (how : FilterHow) : Prop :=
  ∃ fm', fm.doConnection = some fm' ∧ ∀ b, some b ∈ (to'.filterFields fm' how).hd → ¬ ListedIn fm b

/-- The header has the text of the token up to a colon. -/
def hasName (t b : Txt) : Bool := (b.take t.length).map toLower == t.map toLower && b[t.length]? == some chColon

def slotNamed (fm : HttpMsg) (t : Txt) (u : Nat) : Bool := (fm.hd.getD u none).any (hasName t)

/-- The tokens of the first `Connection` header. -/
def firstConnection (fm : HttpMsg) : List Txt :=
  (((fm.hd.filterMap id).find? (isHdr hConnection)).map fun c => tokens (c.drop hConnection.len)).getD []

/-- The header in slot `u` is the first one of its name, and the first `Connection` header names it. -/
def firstNamed (fm : HttpMsg) (u : Nat) : Bool :=
  (firstConnection fm).any fun t => slotNamed fm t u && (List.range u).all fun v => !slotNamed fm t v

/-- A byte that is no lower-case letter is only its own lower case. -/
lemma eq_of_toLower {c d : UInt8} (h : toLower c = d) (hd : d.toNat < 0x61) : c = d := by
  unfold toLower at h
  split at h
  · next hupper =>
    have h1 : 0x41 ≤ c.toNat := UInt8.le_iff_toNat_le.mp hupper.1
    have h2 : c.toNat ≤ 0x5a := UInt8.le_iff_toNat_le.mp hupper.2
    have hsum : (c.toNat + 0x20) % 256 = d.toNat := by rw [← h]; rfl
    omega
  · exact h

/-- The comparison with a name, which has no NUL. -/
lemma strncaseEq_iff {a : Txt} (ha : 0 ∉ a) (b : Txt) :
    strncaseEq a.length a b = true ↔ (b.take a.length).map toLower = a.map toLower := by
  unfold strncaseEq
  rw [List.take_length, cstr_of_not_mem ha, decide_eq_true_eq]
  constructor
  · intro h
    have hsub : cstr (b.take a.length) <+: b.take a.length := List.takeWhile_prefix _
    have hlen := congrArg List.length h
    rw [List.length_map, List.length_map] at hlen
    have heq : cstr (b.take a.length) = b.take a.length :=
      hsub.eq_of_length_le (by rw [← hlen]; exact List.length_take_le _ _)
    rw [h, heq]
  · intro h
    have h0 : 0 ∉ b.take a.length := by
      intro hmem
      have hl : toLower 0 ∈ a.map toLower := h ▸ List.mem_map_of_mem hmem
      obtain ⟨c, hc, h0⟩ := List.mem_map.mp hl
      rw [eq_of_toLower h0 (by decide)] at hc
      exact ha hc
    rw [cstr_of_not_mem h0, h]

lemma isNamed_eq {t : Txt} (ht : 0 ∉ t) (b : Txt) : isNamed t.length t b = hasName t b := by
  rw [Bool.eq_iff_iff]
  unfold isNamed hasName
  simp only [Bool.and_eq_true, decide_eq_true_eq, strncaseEq_iff ht, beq_iff_eq]
  constructor
  · rintro ⟨⟨hlen, hcolon⟩, hname⟩
    rw [List.getD_eq_getElem?_getD, List.getElem?_eq_getElem hlen] at hcolon
    exact ⟨hname, by rw [List.getElem?_eq_getElem hlen]; exact congrArg some hcolon⟩
  · rintro ⟨hname, hcolon⟩
    obtain ⟨hlen, -⟩ := List.getElem?_eq_some_iff.mp hcolon
    exact ⟨⟨hlen, by rw [List.getD_eq_getElem?_getD, hcolon]; rfl⟩, hname⟩

lemma isHdr_eq (hdr : HdrName) (b : Txt) : isHdr hdr b = hasName hdr.name b := by
  have hkey : 0 ∉ hdr.key := by
    intro h
    rcases List.mem_append.mp h with h | h
    · exact hdr.nonul h
    · cases List.mem_singleton.mp h
  have hlen : hdr.len = hdr.key.length := by simp [HdrName.len, HdrName.key]
  rw [Bool.eq_iff_iff, isHdr, hlen, strncaseEq_iff hkey, ← hlen]
  unfold hasName HdrName.len HdrName.key
  rw [List.take_add_one, List.map_append, List.map_append, Bool.and_eq_true, beq_iff_eq, beq_iff_eq]
  constructor
  · intro h
    have hl := congrArg List.length h
    cases hc : b[hdr.name.length]? with
    | none =>
      simp only [hc, Option.toList_none, List.map_nil, List.length_append, List.length_map, List.length_nil] at hl
      have := List.length_take_le hdr.name.length b
      simp at hl
      omega
    | some c =>
      rw [hc] at h
      obtain ⟨h1, h2⟩ := List.append_inj' h rfl
      exact ⟨h1, congrArg some (eq_of_toLower (List.cons.inj h2).1 (by decide))⟩
  · rintro ⟨h1, h2⟩
    rw [h1, h2]
    rfl

lemma connectionTokens_dropWhile (p : Txt) : connectionTokens [] (p.dropWhile vctIssp) = connectionTokens [] p := by
  induction p with
  | nil => rfl
  | cons c p ih =>
    by_cases hc : vctIssp c = true
    · have h0 : c ≠ 0 := by
        rintro rfl
        cases hc
      rw [List.dropWhile_cons_of_pos hc, ih, connectionTokens, if_neg h0, if_pos (by rw [hc]; rfl),
        if_pos rfl, List.nil_append]
    · rw [List.dropWhile_cons_of_neg hc]

lemma connectionTokens_nonul {t p x : Txt} (ht : 0 ∉ t) (hx : x ∈ connectionTokens t p) : 0 ∉ x := by
  have hone {t : Txt} (ht : 0 ∉ t) (h : x ∈ if t = [] then [] else [t]) : 0 ∉ x := by
    split at h
    · cases h
    · rw [List.mem_singleton.mp h]
      exact ht
  induction p generalizing t with
  | nil => exact hone ht hx
  | cons c p ih =>
    rw [connectionTokens] at hx
    split at hx
    · exact hone ht hx
    · next hc =>
      split at hx
      · rcases List.mem_append.mp hx with hx | hx
        · exact hone ht hx
        · exact ih (by simp) hx
      · exact ih (by simp [ht, Ne.symm hc]) hx

/-- The tokens that `http_DoConnection` goes through. -/
lemma getHdr_connection (hls : fm.hd = ls.map some) : getHdr fm.hd hConnection.str =
    some ((ls.find? (isHdr hConnection)).map fun c => cstr ((c.drop hConnection.len).dropWhile vctIssp)) := by
  have hkey : ∀ c, isNamed hConnection.name.length (hConnection.str.drop 1) c = isHdr hConnection c := by
    intro c
    rw [isHdr_eq, ← isNamed_eq hConnection.nonul]
    rfl
  have hget : getHdr fm.hd hConnection.str = Http.getHdr ⟨ls⟩ hConnection.str := by rw [hls]; rfl
  rw [hget, Http.getHdr_eq]
  change some ((ls.find? (isNamed hConnection.name.length (hConnection.str.drop 1))).map _) = _
  rw [funext hkey]
  rfl

lemma find_slotNamed (hls : fm.hd = ls.map some) {t : Txt} (ht : 0 ∉ t) (u : Nat) :
    (ls.findIdx? (isNamed t.length t) == some u) =
      (slotNamed fm t u && (List.range u).all fun v => !slotNamed fm t v) := by
  have hslot : ∀ v, slotNamed fm t v = true ↔ ∃ h : v < ls.length, hasName t ls[v] = true := by
    intro v
    rw [slotNamed, hls, List.getD_eq_getElem?_getD, List.getElem?_map]
    by_cases hv : v < ls.length
    · simp [hv]
    · simp [hv]
  rw [Bool.eq_iff_iff, funext (isNamed_eq ht), beq_iff_eq, List.findIdx?_eq_some_iff_getElem, Bool.and_eq_true, hslot,
    List.all_eq_true]
  constructor
  · rintro ⟨hu, hname, hbefore⟩
    refine ⟨⟨hu, hname⟩, fun v hv => ?_⟩
    have hlt := List.mem_range.mp hv
    rw [Bool.not_eq_true', ← Bool.not_eq_true, hslot]
    rintro ⟨hvl, hv⟩
    exact hbefore v hlt hv
  · rintro ⟨⟨hu, hname⟩, hbefore⟩
    refine ⟨hu, hname, fun v hlt hv => ?_⟩
    have hnot := hbefore v (List.mem_range.mpr hlt)
    rw [Bool.not_eq_true', ← Bool.not_eq_true, hslot] at hnot
    exact hnot ⟨hlt.trans hu, hv⟩

lemma doConnection_eq (hls : fm.hd = ls.map some) : ∃ fm', fm.doConnection = some fm' ∧ fm'.hd = fm.hd ∧
    fm'.hdf.length = fm.hdf.length ∧ ∀ u < fm.hdf.length, flagAt fm' u = (flagAt fm u || firstNamed fm u) := by
  have hlines : fm.hd.filterMap id = ls := by simp [hls]
  unfold doConnection firstNamed firstConnection
  rw [getHdr_connection hls, hlines]
  cases ls.find? (isHdr hConnection) with
  | none => exact ⟨fm, rfl, rfl, rfl, fun u _ => by simp⟩
  | some c =>
    have htokens : connectionTokens [] (cstr ((c.drop hConnection.len).dropWhile vctIssp)) =
        tokens (c.drop hConnection.len) := by
      rw [connectionTokens_tokens, tokens, cstr_of_not_mem (cstr_nul _), ← tokens, ← connectionTokens_tokens,
        connectionTokens_dropWhile, connectionTokens_tokens]
    obtain ⟨fm', h1, h2, h3, h4⟩ := foldlM_markHdr (tokens (c.drop hConnection.len)) hls
    refine ⟨fm', ?_, h2, h3, fun u hu => ?_⟩
    · exact (congrArg (fun ts => ts.foldlM markHdr fm) htokens).trans h1
    · rw [h4 u hu]
      refine congrArg (flagAt fm u || ·) ?_
      rw [Bool.eq_iff_iff, List.any_eq_true, Option.map_some, Option.getD_some, List.any_eq_true]
      refine exists_congr fun t => and_congr_right fun ht => ?_
      rw [← connectionTokens_tokens] at ht
      rw [find_slotNamed hls (connectionTokens_nonul (by simp) ht)]

/-- A header that is neither marked, nor was it, nor suppressed. -/
def filterPasses (fm : HttpMsg) (how : FilterHow) (u : Nat) : Bool :=
  (fm.hd.getD u none).any fun b => !(flagAt fm u || firstNamed fm u || suppressed how b)

/-- How many headers are copied before the one in slot `u`. -/
def copiedBefore (fm : HttpMsg) (how : FilterHow) (u : Nat) : Nat := ((List.range u).filter (filterPasses fm how)).length

/-- A slot, with its flag after `http_DoConnection`. -/
lemma zip_marked (hok : fm.Ok) {hdf : List Bool} (hlen : hdf.length = fm.hdf.length)
    (hflag : ∀ u < fm.hdf.length, hdf.getD u false = (flagAt fm u || firstNamed fm u)) {h : Option Txt}
    (hu : fm.hd[u]? = some h) : (fm.hd.zip hdf)[u]? = some (h, flagAt fm u || firstNamed fm u) := by
  have hroom := hok.room
  have hflags := hok.flags
  unfold nhd at hroom
  obtain ⟨hlt, -⟩ := List.getElem?_eq_some_iff.mp hu
  have hget : hdf[u]? = some (flagAt fm u || firstNamed fm u) := by
    rw [← hflag u (by omega), List.getD_eq_getElem?_getD, List.getElem?_eq_getElem (by omega), Option.getD_some]
  exact List.getElem?_zip_eq_some.mpr ⟨hu, hget⟩

lemma passing_take (how : FilterHow) {hdf : List Bool} (hzip : ∀ u h, fm.hd[u]? = some h →
    (fm.hd.zip hdf)[u]? = some (h, flagAt fm u || firstNamed fm u)) (hu : u ≤ fm.hd.length) :
    (((fm.hd.zip hdf).take u).filter fun h => !filtered how h).length = copiedBefore fm how u := by
  induction u with
  | zero => simp [copiedBefore]
  | succ u ih =>
    have hget : fm.hd[u]? = some fm.hd[u] := List.getElem?_eq_getElem (by omega)
    have hpass : filterPasses fm how u = !filtered how (fm.hd[u], flagAt fm u || firstNamed fm u) := by
      unfold filterPasses filtered
      rw [List.getD_eq_getElem?_getD, hget, Option.getD_some]
      cases fm.hd[u] with
      | none => rfl
      | some b => rfl
    have hrange : copiedBefore fm how (u + 1) = copiedBefore fm how u + if filterPasses fm how u then 1 else 0 := by
      unfold copiedBefore
      rw [List.range_succ, List.filter_append, List.length_append]
      cases h : filterPasses fm how u <;> simp [h]
    rw [List.take_add_one, hzip u _ hget, List.filter_append, List.length_append, ih (by omega), hrange, hpass]
    cases h : filtered how (fm.hd[u], flagAt fm u || firstNamed fm u) <;> simp [h]

lemma lines_of_set {hd : List (Option Txt)} (h : none ∉ hd) : ∃ ls : List Txt, hd = ls.map some := by
  induction hd with
  | nil => exact ⟨[], rfl⟩
  | cons x hd ih =>
    obtain ⟨ls, rfl⟩ := ih fun hm => h (List.mem_cons_of_mem x hm)
    cases x with
    | none => exact absurd List.mem_cons_self h
    | some b => exact ⟨b :: ls, rfl⟩

/-- No header that a `Connection` header lists is copied exactly if each of them is the first one of its name and
the first `Connection` header lists it, or something else keeps it back. The slots of a message that was read are
all in use. -/
theorem hop_by_hop (hok : fm.Ok) (hset : none ∉ fm.hd) (to' : HttpMsg) (how : FilterHow) :
    HopGone to' fm how ↔
      ∀ u b, fm.hd[u]? = some (some b) → ListedIn fm b →
        flagAt fm u = true ∨ suppressed how b = true ∨ firstNamed fm u = true ∨ to'.shd - 5 ≤ copiedBefore fm how u := by
  obtain ⟨ls, hls⟩ := lines_of_set hset
  obtain ⟨fm', hfm', hhd, hlen, hflag⟩ := doConnection_eq hls
  have hzip : ∀ u h, fm.hd[u]? = some h → (fm.hd.zip fm'.hdf)[u]? = some (h, flagAt fm u || firstNamed fm u) :=
    fun u h hu => zip_marked hok hlen hflag hu
  have hgone : HopGone to' fm how ↔ ∀ b, some b ∈ (to'.filterFields fm' how).hd → ¬ ListedIn fm b := by
    unfold HopGone
    rw [hfm']
    simp
  rw [hgone, filterFields_hd, hhd, passing, ← List.map_take]
  constructor
  · intro hgone u b hu hlisted
    by_contra hcond
    simp only [not_or, not_le, Bool.not_eq_true] at hcond
    obtain ⟨hflag, hsup, hmark, hlt⟩ := hcond
    refine hgone b (List.mem_map.mpr ⟨(some b, false), ?_, rfl⟩) hlisted
    refine (mem_take_filter _ _ _ _).mpr ⟨u, ?_, ?_, ?_⟩
    · rw [hzip u _ hu, hflag, hmark]
      rfl
    · simp [filtered, hsup]
    · rw [passing_take how hzip (Nat.le_of_lt (List.getElem?_eq_some_iff.mp hu).1)]
      exact hlt
  · intro hcond b hmem hlisted
    obtain ⟨⟨h, fl⟩, hpair, hb⟩ := List.mem_map.mp hmem
    cases hb
    obtain ⟨u, hu, hpass, hlt⟩ := (mem_take_filter _ _ _ _).mp hpair
    have hhd : fm.hd[u]? = some (some b) := (List.getElem?_zip_eq_some.mp hu).1
    rw [hzip u _ hhd] at hu
    rw [passing_take how hzip (Nat.le_of_lt (List.getElem?_eq_some_iff.mp hhd).1)] at hlt
    obtain ⟨-, hfl⟩ := Prod.mk.inj (Option.some.inj hu)
    simp only [filtered, Bool.not_eq_true', Bool.or_eq_false_iff] at hpass
    rw [hpass.1, Bool.or_eq_false_iff] at hfl
    rcases hcond u b hhd hlisted with h | h | h | h
    · rw [hfl.1] at h
      cases h
    · rw [hpass.2] at h
      cases h
    · rw [hfl.2] at h
      cases h
    · omega

lemma HdrNamed.hasName {t : Txt} (h : HdrNamed t b) : hasName t b = true := by
  obtain ⟨n, v, rfl, -, hn⟩ := h
  have hlen : n.length = t.length := by simpa using congrArg List.length hn
  simp [Proofs.hasName, ← hlen, hn]

/-- A request with a header that is to be dropped, and one that is not. -/
def hopMsg : HttpMsg where
  ws := emptyWs 7
  shd := 9
  line := [none, none, none, none, none]
  hd := [some (bytes "Host: a"), some (bytes "Connection: X-Token, close"), some (bytes "X-Token: 1")]
  hdf := [false, false, false, false]

lemma hopMsg_tokens : tokens (bytes " X-Token, close") = [bytes "X-Token", bytes "close"] :=
  (connectionTokens_tokens _).symm.trans rfl

theorem hop_by_hop_token : HopGone hopMsg hopMsg .hop ∧
    (hopMsg.doConnection.map fun fm' => (hopMsg.filterFields fm' .hop).hd) = some [some (bytes "Host: a")] := by
  refine ⟨(hop_by_hop ⟨by decide, by decide, by decide⟩ (by decide) hopMsg .hop).mpr fun u b hu hlisted => ?_, by decide⟩
  match u, hu with
  | 0, rfl =>
    obtain ⟨c, hc, hconn, t, ht, hnamed⟩ := hlisted
    obtain rfl : c = bytes "Connection: X-Token, close" := by
      rcases List.mem_cons.mp hc with hc | hc
      · rw [Option.some.inj hc] at hconn
        exact absurd hconn (by decide)
      · rcases List.mem_cons.mp hc with hc | hc
        · exact Option.some.inj hc
        · rw [Option.some.inj (List.mem_singleton.mp hc)] at hconn
          exact absurd hconn (by decide)
    have htokens : t ∈ [bytes "X-Token", bytes "close"] := hopMsg_tokens ▸ ht
    have hno : ∀ t ∈ [bytes "X-Token", bytes "close"], hasName t (bytes "Host: a") = false := by decide
    exact absurd hnamed.hasName (by rw [hno t htokens]; decide)
  | 1, rfl => exact .inr (.inl (by decide))
  | 2, rfl =>
    have htokens : firstConnection hopMsg = [bytes "X-Token", bytes "close"] := hopMsg_tokens
    refine .inr (.inr (.inl ?_))
    rw [firstNamed, htokens]
    decide

/-- A request with a header that is to be dropped, twice. -/
def twiceMsg : HttpMsg where
  ws := emptyWs 7
  shd := 9
  line := [none, none, none, none, none]
  hd := [some (bytes "Connection: X-Token"), some (bytes "X-Token: 1"), some (bytes "X-Token: 2")]
  hdf := [false, false, false, false]

lemma twiceMsg_copied : ∃ fm', twiceMsg.doConnection = some fm' ∧
    some (bytes "X-Token: 2") ∈ (twiceMsg.filterFields fm' .hop).hd :=
  ⟨{ twiceMsg with hdf := [false, true, false, false] }, rfl, by decide⟩

/-- The second one goes to the backend. -/
theorem hop_by_hop_leak : ¬ HopGone twiceMsg twiceMsg .hop := by
  rintro ⟨fm', hfm', hgone⟩
  obtain ⟨fm, hfm, hmem⟩ := twiceMsg_copied
  obtain rfl := Option.some.inj (hfm'.symm.trans hfm)
  refine hgone (bytes "X-Token: 2") hmem ⟨bytes "Connection: X-Token", by decide, by decide, bytes "X-Token", ?_, ?_⟩
  · rw [← connectionTokens_tokens]
    decide
  · exact ⟨bytes "X-Token", bytes " 2", by decide, by decide, rfl⟩

end VarnishCache.Proofs
