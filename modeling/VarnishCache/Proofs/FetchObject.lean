import VarnishCache.FetchObject
import VarnishCache.Proofs.HttpFilter
import VarnishCache.Proofs.Vrt

/-!
# No header is lost

What goes into the workspace of an object adds up to what `http_EstimateWS` has counted, but for the first line: of
this the estimate leaves out what the filter would suppress in a header, and `http_CopyResp` copies it all the same.
-/

namespace VarnishCache.Proofs

open HttpMsg

variable {fm hp : HttpMsg} {how : FilterHow} {ws ws' : Ws} {vary : Txt} {hs hs' : List (Option Txt)}

/-! ## Copies -/

/-- The room that `http_CopyHome` takes for a field. -/
def homeRoom : Option Txt → Nat
  | none => 0
  | some b => prndup (b.length + 1)

lemma alloc_some {n : Nat} (hr : ws.r = none) (h : prndup n ≤ ws.free) :
    ∃ ws', ws.alloc n = some (some ws.f, ws') ∧ ws'.e = ws.e ∧ ws'.f = ws.f + prndup n ∧ ws'.r = none := by
  have hle := ws.le
  unfold Ws.free at h
  unfold Ws.alloc
  rw [if_neg (by simp [hr]), dif_pos (by omega)]
  exact ⟨_, rfl, rfl, rfl, rfl⟩

lemma alloc_null {n : Nat} (hr : ws.r = none) (h : ws.free < prndup n) : ws.alloc n = some (none, ws) := by
  unfold Ws.free at h
  unfold Ws.alloc
  rw [if_neg (by simp [hr]), dif_neg (by omega)]

lemma copySlots_none (hs : List (Option Txt)) (ws : Ws) :
    copySlots (none :: hs) ws = (copySlots hs ws).map fun x => (none :: x.1, x.2) := rfl

lemma copySlots_some (b : Txt) (hs : List (Option Txt)) (ws : Ws) : copySlots (some b :: hs) ws =
    (ws.alloc (b.length + 1)).bind fun r =>
    (copySlots hs r.2).map fun x => ((if r.1.isSome then some b else none) :: x.1, x.2) := rfl

/-- Where the room is enough, all fields are copied. -/
lemma copySlots_fit (hs : List (Option Txt)) (hr : ws.r = none) (h : (hs.map homeRoom).sum ≤ ws.free) :
    ∃ ws', copySlots hs ws = some (hs, ws') ∧ ws'.e = ws.e ∧ ws'.f = ws.f + (hs.map homeRoom).sum ∧ ws'.r = none := by
  induction hs generalizing ws with
  | nil => exact ⟨ws, rfl, rfl, rfl, hr⟩
  | cons b hs ih =>
    rw [List.map_cons, List.sum_cons] at h ⊢
    cases b with
    | none =>
      have hzero : homeRoom none = 0 := rfl
      rw [hzero, Nat.zero_add] at h ⊢
      obtain ⟨ws', hcopy, hws'⟩ := ih hr h
      exact ⟨ws', by rw [copySlots_none, hcopy]; rfl, hws'⟩
    | some b =>
      have hroom : homeRoom (some b) = prndup (b.length + 1) := rfl
      rw [hroom] at h ⊢
      obtain ⟨ws1, halloc, he1, hf1, hr1⟩ := alloc_some hr (Nat.le_trans (Nat.le_add_right _ _) h)
      have hfree : (hs.map homeRoom).sum ≤ ws1.free := by
        unfold Ws.free at h ⊢
        rw [he1, hf1]
        omega
      obtain ⟨ws', hcopy, he, hf, hr'⟩ := ih hr1 hfree
      refine ⟨ws', ?_, he.trans he1, ?_, hr'⟩
      · rw [copySlots_some, halloc, Option.bind_some, hcopy]
        rfl
      · rw [hf, hf1, Nat.add_assoc]

lemma copySlots_length (hcopy : copySlots hs ws = some (hs', ws')) : hs'.length = hs.length := by
  induction hs generalizing ws hs' ws' with
  | nil =>
    cases hcopy
    rfl
  | cons b hs ih =>
    cases b with
    | none =>
      rw [copySlots_none] at hcopy
      obtain ⟨x, hx, heq⟩ := Option.map_eq_some_iff.mp hcopy
      cases heq
      rw [List.length_cons, List.length_cons, ih hx]
    | some b =>
      rw [copySlots_some] at hcopy
      obtain ⟨r, -, hmap⟩ := Option.bind_eq_some_iff.mp hcopy
      obtain ⟨x, hx, heq⟩ := Option.map_eq_some_iff.mp hmap
      cases heq
      rw [List.length_cons, List.length_cons, ih hx]

/-- Where the room is not enough, some field is lost. -/
lemma copySlots_short (hs : List (Option Txt)) (hr : ws.r = none) (h : ws.free < (hs.map homeRoom).sum) :
    copySlots hs ws ≠ some (hs, ws') := by
  induction hs generalizing ws with
  | nil => exact absurd h (Nat.not_lt_zero _)
  | cons b hs ih =>
    rw [List.map_cons, List.sum_cons] at h
    intro hcopy
    cases b with
    | none =>
      have hzero : homeRoom none = 0 := rfl
      rw [hzero, Nat.zero_add] at h
      rw [copySlots_none] at hcopy
      obtain ⟨x, hx, heq⟩ := Option.map_eq_some_iff.mp hcopy
      obtain ⟨hfst, hsnd⟩ := Prod.mk.inj heq
      refine ih hr h ?_
      rw [hx, ← (List.cons.inj hfst).2, ← hsnd]
    | some b =>
      have hroom : homeRoom (some b) = prndup (b.length + 1) := rfl
      rw [hroom] at h
      rw [copySlots_some] at hcopy
      by_cases hfit : prndup (b.length + 1) ≤ ws.free
      · obtain ⟨ws1, halloc, he1, hf1, hr1⟩ := alloc_some hr hfit
        rw [halloc, Option.bind_some] at hcopy
        obtain ⟨x, hx, heq⟩ := Option.map_eq_some_iff.mp hcopy
        obtain ⟨hfst, hsnd⟩ := Prod.mk.inj heq
        refine ih hr1 ?_ ?_
        · unfold Ws.free at h hfit ⊢
          rw [he1, hf1]
          omega
        · rw [hx, ← (List.cons.inj hfst).2, ← hsnd]
      · rw [alloc_null hr (Nat.lt_of_not_le hfit), Option.bind_some] at hcopy
        obtain ⟨x, hx, heq⟩ := Option.map_eq_some_iff.mp hcopy
        have hfst := (List.cons.inj (Prod.mk.inj heq).1).1
        cases hfst

/-! ## The sizes -/

/-- The headers that the filter leaves. -/
def keptHdrs (fm : HttpMsg) (how : FilterHow) : List (Option Txt) :=
  (passing how (fm.hd.zip fm.hdf)).map Prod.fst

/-- The fields of the first line that the estimate counts. -/
def countedLine (fm : HttpMsg) (how : FilterHow) : List (Option Txt) :=
  (passing how (fm.line.map fun h => (h, false))).map Prod.fst

lemma room_passing (how : FilterHow) (l : List (Option Txt × Bool)) :
    ((passing how l).map Prod.fst).map room = ((passing how l).map Prod.fst).map homeRoom := by
  rw [List.map_map, List.map_map]
  refine List.map_congr_left ?_
  intro h hh
  have hpass := (List.mem_filter.mp hh).2
  cases hb : h.1 with
  | none =>
    unfold filtered at hpass
    rw [hb] at hpass
    cases hpass
  | some b =>
    change room h.1 = homeRoom h.1
    rw [hb]
    rfl

lemma homeRoom_mod (l : List (Option Txt)) : (l.map homeRoom).sum % 8 = 0 := by
  induction l with
  | nil => rfl
  | cons h l ih =>
    have hh : homeRoom h % 8 = 0 := by
      cases h with
      | none => rfl
      | some b => exact prndup_mod _
    rw [List.map_cons, List.sum_cons]
    omega

lemma prndup_add {n k : Nat} (hn : n % 8 = 0) : prndup (n + k) = n + prndup k := by
  unfold prndup
  omega

lemma estimateWS_eq (fm : HttpMsg) (how : FilterHow) :
    fm.estimateWS how =
      (((countedLine fm how).map homeRoom).sum + ((keptHdrs fm how).map homeRoom).sum,
        (5 + ((countedLine fm how).length + (keptHdrs fm how).length)) % 2 ^ 16) := by
  have hest : fm.estimated how = countedLine fm how ++ keptHdrs fm how := by
    unfold estimated
    rw [List.filter_append, List.map_append]
    rfl
  unfold estimateWS
  rw [hest, List.map_append, List.sum_append, List.length_append]
  unfold countedLine keptHdrs
  rw [room_passing, room_passing]

lemma copyheader_hdf (hp : HttpMsg) (h : Option Txt) : (hp.copyheader h).hdf.length = hp.hdf.length := by
  unfold copyheader
  split
  · exact List.length_set
  · rfl

lemma foldl_copyheader_rest (how : FilterHow) (l : List (Option Txt × Bool)) (hp : HttpMsg) :
    (l.foldl (fun to' h => if filtered how h then to' else to'.copyheader h.1) hp).hdf.length = hp.hdf.length ∧
      (l.foldl (fun to' h => if filtered how h then to' else to'.copyheader h.1) hp).ws = hp.ws ∧
      (l.foldl (fun to' h => if filtered how h then to' else to'.copyheader h.1) hp).line = hp.line ∧
      (l.foldl (fun to' h => if filtered how h then to' else to'.copyheader h.1) hp).shd = hp.shd := by
  induction l generalizing hp with
  | nil => exact ⟨rfl, rfl, rfl, rfl⟩
  | cons h l ih =>
    rw [List.foldl_cons]
    by_cases hf : filtered how h = true
    · rw [if_pos hf]
      exact ih hp
    · rw [if_neg hf]
      obtain ⟨h1, h2, h3, h4⟩ := ih (hp.copyheader h.1)
      have hcopy :
          (hp.copyheader h.1).ws = hp.ws ∧ (hp.copyheader h.1).line = hp.line ∧ (hp.copyheader h.1).shd = hp.shd := by
        unfold copyheader
        split
        · exact ⟨rfl, rfl, rfl⟩
        · exact ⟨rfl, rfl, rfl⟩
      exact ⟨h1.trans (copyheader_hdf hp h.1), h2.trans hcopy.1, h3.trans hcopy.2.1, h4.trans hcopy.2.2⟩

/-- The first line of an object. -/
def objectLine (resp : Txt) : List (Option Txt) := [none, none, some (bytes "HTTP/1.1"), none, some resp]

/-- The room that the first line takes. -/
def lineRoom (resp : Txt) : Nat := prndup 9 + prndup (resp.length + 1)

lemma lineRoom_eq (resp : Txt) : ((objectLine resp).map homeRoom).sum = lineRoom resp := by
  have hproto : (bytes "HTTP/1.1").length = 8 := by decide
  simp [objectLine, homeRoom, lineRoom, hproto]

/-- The vary string has its place. -/
lemma vary_alloc (obj : HttpMsg) (vary : Txt) (hf : obj.ws.f = 0) (hr : obj.ws.r = none)
    (hroom : prndup vary.length ≤ obj.ws.e) :
    ∃ ws, (if vary = [] then some obj
        else (obj.ws.alloc vary.length).bind fun (p, ws) => if p.isSome then some { obj with ws := ws } else none) =
      some { obj with ws := ws } ∧ ws.e = obj.ws.e ∧ ws.f = prndup vary.length ∧ ws.r = none := by
  by_cases hvary : vary = []
  · refine ⟨obj.ws, ?_, rfl, ?_, hr⟩
    · rw [if_pos hvary]
    · rw [hf, hvary]
      rfl
  · obtain ⟨ws, halloc, he, hf', hr'⟩ := alloc_some hr (n := vary.length) (by unfold Ws.free; omega)
    refine ⟨ws, ?_, he, ?_, hr'⟩
    · rw [if_neg hvary, halloc]
      rfl
    · rw [hf', hf, Nat.zero_add]

/-- Before the copies: the headers are there that have a slot. -/
lemma fetchbodyHttp_filtered {l0 l1 l2 l3 : Option Txt} {resp : Txt} (hline : fm.line = [l0, l1, l2, l3, some resp])
    (how : FilterHow) (vary : Txt) (hslots : 5 ≤ (fm.estimateWS how).2) :
    ∃ obj : HttpMsg, fm.fetchbodyHttp how vary = obj.copyHome ∧ obj.line = objectLine resp ∧
      obj.hd = (keptHdrs fm how).take ((fm.estimateWS how).2 - 5) ∧ obj.shd = (fm.estimateWS how).2 ∧
      obj.hdf.length = (fm.estimateWS how).2 - 5 ∧ obj.ws.r = none ∧
      obj.ws.free + prndup vary.length = prndup ((fm.estimateWS how).1 + vary.length + 42) := by
  have hpos : 0 < (fm.estimateWS how).1 + vary.length + contentLengthRoom := Nat.succ_pos _
  have hround : prndup vary.length ≤ prndup ((fm.estimateWS how).1 + vary.length + contentLengthRoom) :=
    prndup_le (prndup_mod _) (Nat.le_trans (by omega) (le_prndup _))
  obtain ⟨ws, hvary, he, hf, hr⟩ := vary_alloc
    { ws := objectWs _ hpos, shd := (fm.estimateWS how).2, line := List.replicate 5 none, hd := [],
      hdf := List.replicate ((fm.estimateWS how).2 - 5) false } vary rfl rfl hround
  refine ⟨HttpMsg.filterFields
    { ws := ws, shd := (fm.estimateWS how).2, line := objectLine resp, hd := [],
      hdf := List.replicate ((fm.estimateWS how).2 - 5) false } fm how, ?_, ?_, filterFields_hd _ _ _, ?_, ?_, ?_, ?_⟩
  · have hnew : stvNewHttp ((fm.estimateWS how).1 + vary.length + contentLengthRoom) (fm.estimateWS how).2 = some
        { ws := objectWs _ hpos, shd := (fm.estimateWS how).2, line := List.replicate 5 none, hd := [],
          hdf := List.replicate ((fm.estimateWS how).2 - 5) false } := by
      unfold stvNewHttp
      rw [dif_pos hpos, if_neg (Nat.not_lt_of_le hslots)]
    unfold fetchbodyHttp
    simp only [hnew, Option.bind_some, hvary]
    unfold copyResp
    rw [hline]
    rfl
  · exact (foldl_copyheader_rest how _ _).2.2.1
  · exact (foldl_copyheader_rest how _ _).2.2.2
  · rw [HttpMsg.filterFields, (foldl_copyheader_rest how _ _).1, List.length_replicate]
  · rw [HttpMsg.filterFields, (foldl_copyheader_rest how _ _).2.1]
    exact hr
  · rw [HttpMsg.filterFields, (foldl_copyheader_rest how _ _).2.1]
    change ws.free + _ = prndup ((fm.estimateWS how).1 + vary.length + contentLengthRoom)
    have he' : ws.e = prndup ((fm.estimateWS how).1 + vary.length + contentLengthRoom) := he
    unfold Ws.free
    rw [he', hf]
    exact Nat.sub_add_cancel hround

/-! ## Copies and the `Content-Length` -/

lemma copyHome_fit (hr : hp.ws.r = none)
    (h : (hp.line.map homeRoom).sum + (hp.hd.map homeRoom).sum ≤ hp.ws.free) :
    ∃ ws, hp.copyHome = some { hp with ws := ws } ∧ ws.r = none ∧
      ws.free + ((hp.line.map homeRoom).sum + (hp.hd.map homeRoom).sum) = hp.ws.free := by
  obtain ⟨ws1, hline, he1, hf1, hr1⟩ := copySlots_fit hp.line hr (by omega)
  obtain ⟨ws2, hhd, he2, hf2, hr2⟩ := copySlots_fit hp.hd hr1 (by unfold Ws.free at h ⊢; omega)
  refine ⟨ws2, ?_, hr2, ?_⟩
  · rw [copyHome, hline, Option.bind_some, hhd]
    rfl
  · unfold Ws.free at h ⊢
    omega

lemma copyHome_length {obj : HttpMsg} (hcopy : hp.copyHome = some obj) : obj.hd.length = hp.hd.length := by
  unfold copyHome at hcopy
  obtain ⟨l, hl, hmap⟩ := Option.bind_eq_some_iff.mp hcopy
  obtain ⟨d, hd, rfl⟩ := Option.map_eq_some_iff.mp hmap
  exact copySlots_length hd

lemma copyHome_short {obj : HttpMsg} (hr : hp.ws.r = none)
    (h : hp.ws.free < (hp.line.map homeRoom).sum + (hp.hd.map homeRoom).sum) (hcopy : hp.copyHome = some obj) :
    ¬ (obj.line = hp.line ∧ obj.hd = hp.hd) := by
  rintro ⟨hline, hhd⟩
  unfold copyHome at hcopy
  obtain ⟨l, hl, hmap⟩ := Option.bind_eq_some_iff.mp hcopy
  obtain ⟨d, hd, rfl⟩ := Option.map_eq_some_iff.mp hmap
  have hl' : copySlots hp.line hp.ws = some (hp.line, l.2) := by
    rw [hl, ← hline]
  have hd' : copySlots hp.hd l.2 = some (hp.hd, d.2) := by
    rw [hd, ← hhd]
  by_cases hfit : (hp.line.map homeRoom).sum ≤ hp.ws.free
  · obtain ⟨ws1, hcopy1, he1, hf1, hr1⟩ := copySlots_fit hp.line hr hfit
    rw [hl', Option.some.injEq, Prod.mk.injEq] at hcopy1
    rw [hcopy1.2] at hd'
    refine copySlots_short hp.hd hr1 ?_ hd'
    unfold Ws.free at h hfit ⊢
    omega
  · exact copySlots_short hp.line hr (Nat.lt_of_not_le hfit) hl'

lemma unset_hd (hdr : HdrName) (hlen : hp.hd.length ≤ hp.hdf.length) :
    (hp.unset hdr).hd = hp.hd.filter fun h => h.any fun b => !isHdr hdr b := by
  have hfst : (hp.hd.zip hp.hdf).map Prod.fst = hp.hd := List.map_fst_zip hlen
  conv_rhs => rw [← hfst, List.filter_map]
  rfl

/-- A header is printed where its bytes, the `NUL` and one more are left, and a slot. -/
lemma printfHeader_hd (txt : Txt) (hr : hp.ws.r = none) :
    (∃ obj, hp.printfHeader txt = some obj ∧ obj.hd = hp.hd ++ [some txt]) ↔
      txt.length + 1 < hp.ws.free ∧ hp.nhd < hp.shd := by
  obtain ⟨ws1, hres, hws1⟩ := reserve_free hr
  simp only [printfHeader, hres, Option.bind_some]
  by_cases hfit : txt.length + 1 < hp.ws.free ∧ hp.nhd < hp.shd
  · obtain ⟨ws2, hrel, -⟩ := release_reserved hws1 (Nat.le_of_lt hfit.1)
    have hroom : ¬ (hp.ws.free ≤ txt.length + 1 ∨ hp.shd ≤ hp.nhd) :=
      not_or.mpr ⟨Nat.not_le_of_lt hfit.1, Nat.not_le_of_lt hfit.2⟩
    rw [if_neg hroom]
    refine iff_of_true ⟨_, by rw [hrel]; rfl, ?_⟩ hfit
    simp only [HttpMsg.setHeader]
    rw [if_neg (Nat.not_le_of_lt hfit.2)]
  · have hroom : hp.ws.free ≤ txt.length + 1 ∨ hp.shd ≤ hp.nhd := by
      by_contra hno
      obtain ⟨hlen, hslot⟩ := not_or.mp hno
      exact hfit ⟨Nat.lt_of_not_le hlen, Nat.lt_of_not_le hslot⟩
    rw [if_pos hroom, release_zero hr hws1]
    refine iff_of_false ?_ hfit
    rintro ⟨obj, hobj, hhd⟩
    cases hobj
    have hlen := congrArg List.length hhd
    rw [List.length_append, List.length_singleton] at hlen
    exact Nat.succ_ne_self _ hlen.symm

/-! ## An object with its headers -/

/-- The headers but `Content-Length`. -/
def otherHdrs (fm : HttpMsg) (how : FilterHow) : List (Option Txt) :=
  (keptHdrs fm how).filter fun h => h.any fun b => !isHdr hContentLength b

def contentLengthTxt (len : Nat) : Txt := bytes "Content-Length: " ++ decimal len

/-- An object for the response gets its first line, all headers that the filter leaves, and a `Content-Length` where
there is to be one. -/
def NoHeaderLost (fm : HttpMsg) (how : FilterHow) (vary resp : Txt) (mklen : Option Nat) : Prop :=
  ∃ obj, fm.fetchbodyHttp how vary = some obj ∧ obj.line = objectLine resp ∧ obj.hd = keptHdrs fm how ∧
    ∀ len ∈ mklen, ∃ obj', obj.fetchContentLength len = some obj' ∧
      obj'.hd = otherHdrs fm how ++ [some (contentLengthTxt len)]

/-- The room that is counted for the first line, and the room for the `Content-Length`, hold the first line, and a
`Content-Length`; and the slots are counted right. -/
structure RoomFor (fm : HttpMsg) (how : FilterHow) (vary resp : Txt) (mklen : Option Nat) : Prop where
  slots : 5 + ((countedLine fm how).length + (keptHdrs fm how).length) < 2 ^ 16
  room : prndup vary.length + lineRoom resp ≤ ((countedLine fm how).map homeRoom).sum + prndup (vary.length + 42)
  length : ∀ len ∈ mklen,
    prndup vary.length + lineRoom resp + (contentLengthTxt len).length + 1 <
        ((countedLine fm how).map homeRoom).sum + prndup (vary.length + 42) ∧
      (otherHdrs fm how).length < (countedLine fm how).length + (keptHdrs fm how).length

lemma countedLine_le (hlen : fm.line.length = 5) (how : FilterHow) : (countedLine fm how).length ≤ 5 := by
  unfold countedLine passing
  rw [List.length_map]
  refine (List.length_filter_le _ _).trans ?_
  rw [List.length_map, hlen]

/-- Where the object is there, its headers are those that the filter leaves as long as there are slots for them. -/
lemma slots_kept (how : FilterHow) (hcounted : (countedLine fm how).length ≤ 5) (hslots : 5 ≤ (fm.estimateWS how).2)
    (h : (keptHdrs fm how).take ((fm.estimateWS how).2 - 5) = keptHdrs fm how) :
    5 + ((countedLine fm how).length + (keptHdrs fm how).length) < 2 ^ 16 := by
  have hlen := congrArg List.length h
  rw [List.length_take] at hlen
  rw [estimateWS_eq] at hslots hlen
  simp only at hslots hlen
  by_contra hover
  have hmod := Nat.mod_add_div (5 + ((countedLine fm how).length + (keptHdrs fm how).length)) (2 ^ 16)
  have hdiv : 1 ≤ (5 + ((countedLine fm how).length + (keptHdrs fm how).length)) / 2 ^ 16 :=
    Nat.div_pos (Nat.le_of_not_lt hover) (by decide)
  omega

lemma kept_slots (how : FilterHow)
    (h : 5 + ((countedLine fm how).length + (keptHdrs fm how).length) < 2 ^ 16) :
    (fm.estimateWS how).2 = 5 + ((countedLine fm how).length + (keptHdrs fm how).length) := by
  rw [estimateWS_eq]
  exact Nat.mod_eq_of_lt h

/-- The `Content-Length` is there when the workspace and the slots have room for it. -/
lemma fetchContentLength_hd (obj : HttpMsg) (len : Nat) (hr : obj.ws.r = none)
    (hflags : obj.hd.length ≤ obj.hdf.length)
    (hother : (obj.hd.filter fun h => h.any fun b => !isHdr hContentLength b) = hs) :
    (∃ obj', obj.fetchContentLength len = some obj' ∧ obj'.hd = hs ++ [some (contentLengthTxt len)]) ↔
      (contentLengthTxt len).length + 1 < obj.ws.free ∧ 5 + hs.length < obj.shd := by
  have hunset := unset_hd hContentLength hflags
  have hws : (obj.unset hContentLength).ws = obj.ws := rfl
  have hprint := printfHeader_hd (contentLengthTxt len) (show (obj.unset hContentLength).ws.r = none from hr)
  rw [hunset, hother, hws, nhd, hunset, hother] at hprint
  exact hprint

theorem no_header_lost {l0 l1 l2 l3 : Option Txt} {resp : Txt} (hline : fm.line = [l0, l1, l2, l3, some resp])
    (how : FilterHow) (vary : Txt) (mklen : Option Nat) :
    NoHeaderLost fm how vary resp mklen ↔ RoomFor fm how vary resp mklen := by
  have hcounted := countedLine_le (by rw [hline]; rfl) how
  have hest : (fm.estimateWS how).1 =
      ((countedLine fm how).map homeRoom).sum + ((keptHdrs fm how).map homeRoom).sum := by
    rw [estimateWS_eq]
  have hmod : (fm.estimateWS how).1 % 8 = 0 := by
    have hmod1 := homeRoom_mod (countedLine fm how)
    have hmod2 := homeRoom_mod (keptHdrs fm how)
    omega
  by_cases hslots : 5 ≤ (fm.estimateWS how).2
  · obtain ⟨obj, hrun, hobjline, hobjhd, hshd, hhdf, hr, hfree⟩ := fetchbodyHttp_filtered hline how vary hslots
    rw [Nat.add_assoc, prndup_add hmod] at hfree
    have hlineroom : (obj.line.map homeRoom).sum = lineRoom resp := by
      rw [hobjline, lineRoom_eq]
    constructor
    · rintro ⟨obj1, hrun1, hline1, hhd1, hlength⟩
      rw [hrun] at hrun1
      have htake : (keptHdrs fm how).take ((fm.estimateWS how).2 - 5) = keptHdrs fm how := by
        have hlen := copyHome_length hrun1
        rw [hhd1, hobjhd, List.length_take] at hlen
        exact List.take_of_length_le (by omega)
      have hbound := slots_kept how hcounted hslots htake
      rw [kept_slots how hbound] at hshd hhdf
      rw [htake] at hobjhd
      have hflags : obj.hd.length ≤ obj.hdf.length := by
        rw [hobjhd, hhdf]
        omega
      have hother : (obj.hd.filter fun h => h.any fun b => !isHdr hContentLength b) = otherHdrs fm how := by
        rw [hobjhd]
        rfl
      have hfit : (obj.line.map homeRoom).sum + (obj.hd.map homeRoom).sum ≤ obj.ws.free := by
        by_contra hlt
        exact copyHome_short hr (Nat.lt_of_not_le hlt) hrun1 ⟨hline1.trans hobjline.symm, hhd1.trans hobjhd.symm⟩
      obtain ⟨ws, hcopy, hr1, hleft⟩ := copyHome_fit hr hfit
      rw [hcopy] at hrun1
      cases hrun1
      rw [hlineroom, hobjhd] at hleft hfit
      refine ⟨hbound, by omega, ?_⟩
      intro len hlen
      obtain ⟨hleave, hslot⟩ := (fetchContentLength_hd { obj with ws := ws } len hr1 hflags hother).mp (hlength len hlen)
      simp only [hshd] at hleave hslot
      exact ⟨by omega, by omega⟩
    · rintro ⟨hbound, hroom, hlength⟩
      rw [kept_slots how hbound] at hshd hhdf hobjhd
      rw [List.take_of_length_le (by omega)] at hobjhd
      have hflags : obj.hd.length ≤ obj.hdf.length := by
        rw [hobjhd, hhdf]
        omega
      have hother : (obj.hd.filter fun h => h.any fun b => !isHdr hContentLength b) = otherHdrs fm how := by
        rw [hobjhd]
        rfl
      have hfit : (obj.line.map homeRoom).sum + (obj.hd.map homeRoom).sum ≤ obj.ws.free := by
        rw [hlineroom, hobjhd]
        omega
      obtain ⟨ws, hcopy, hr1, hleft⟩ := copyHome_fit hr hfit
      rw [hlineroom, hobjhd] at hleft
      refine ⟨_, hrun.trans hcopy, hobjline, hobjhd, ?_⟩
      intro len hlen
      obtain ⟨hleave, hslot⟩ := hlength len hlen
      refine (fetchContentLength_hd { obj with ws := ws } len hr1 hflags hother).mpr ⟨?_, ?_⟩
      · change (contentLengthTxt len).length + 1 < ws.free
        omega
      · simp only [hshd]
        omega
  · refine iff_of_false ?_ ?_
    · rintro ⟨obj, hrun, -⟩
      have hpos : 0 < (fm.estimateWS how).1 + vary.length + contentLengthRoom := Nat.succ_pos _
      have hnew : stvNewHttp ((fm.estimateWS how).1 + vary.length + contentLengthRoom) (fm.estimateWS how).2 = none := by
        unfold stvNewHttp
        rw [dif_pos hpos, if_pos (Nat.lt_of_not_le hslots)]
      unfold fetchbodyHttp at hrun
      simp only [hnew, Option.bind_none] at hrun
      cases hrun
    · rintro ⟨hbound, -, -⟩
      exact hslots (by rw [kept_slots how hbound]; exact Nat.le_add_right _ _)

/-- A response with a header. -/
def respOf (resp : Txt) : HttpMsg where
  ws := emptyWs 0
  shd := 8
  line := [none, none, some (bytes "HTTP/1.1"), some (bytes "200"), some resp]
  hd := [some (bytes "Server: x")]
  hdf := [false, false, false]

def insHow : FilterHow := { FilterHow.none with aIns := true }

theorem no_header_lost_ok : NoHeaderLost (respOf (bytes "OK")) insHow [] (bytes "OK") (some 5) := by
  refine (no_header_lost rfl insHow [] (some 5)).mpr ⟨by decide, by decide, ?_⟩
  rintro len ⟨⟩
  decide

/-- A response phrase that looks like a header of the filter. -/
def agePhrase : Txt := bytes "Age: " ++ List.replicate 56 120

theorem fetchbody_header_lost : ¬ NoHeaderLost (respOf agePhrase) insHow [] agePhrase none := by
  rintro ⟨obj, hrun, -, hhd, -⟩
  have hlost : ((respOf agePhrase).fetchbodyHttp insHow []).map (fun obj => obj.hd) ≠
      some (keptHdrs (respOf agePhrase) insHow) := by
    decide
  rw [hrun] at hlost
  exact hlost (congrArg some hhd)

end VarnishCache.Proofs
