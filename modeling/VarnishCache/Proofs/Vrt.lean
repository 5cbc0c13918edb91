import VarnishCache.Vrt
import VarnishCache.Proofs.Workspace
import VarnishCache.Proofs.BanSpec

/-!
# Set headers

`VRT_SetHdr` sets the header, or leaves the message alone, but for one case: where all slots are taken and none of the
headers makes room, the string that was built stays in the workspace.
-/

namespace VarnishCache.Proofs

open HttpMsg

variable {hdr : HdrName} {hp hp' : HttpMsg} {ws : Ws} {ps : List (Option Txt)}

/-! ## The string -/

/-- The strings of a list that are not `NULL`, one behind the other. -/
def concatStrings (ps : List (Option Txt)) : Txt := ps.flatMap fun p => p.getD []

lemma vrtStringList_eq (ml : Nat) (x : Txt) (ps : List (Option Txt)) :
    vrtStringList ml (tadd ml (some []) x) ps = tadd ml (some []) (x ++ concatStrings ps) := by
  induction ps generalizing x with
  | nil => simp [vrtStringList, concatStrings]
  | cons p ps ih =>
    cases p with
    | none =>
      rw [vrtStringList, ih]
      simp [concatStrings]
    | some p =>
      rw [vrtStringList, tadd_append, ih]
      simp [concatStrings]

/-- The header as it is built. -/
def setTxt (hdr : HdrName) (ps : List (Option Txt)) : Txt := hdr.key ++ [0x20] ++ concatStrings ps

lemma setTxt_built (ml : Nat) (hdr : HdrName) (ps : List (Option Txt)) :
    vrtStringList ml (tadd ml (tadd ml (some []) hdr.key) [0x20]) ps =
      if (setTxt hdr ps).length < ml then some (setTxt hdr ps) else none := by
  rw [tadd_append, vrtStringList_eq, tadd_nil]
  rfl

/-- The string is built where there is a byte more than it and its `NUL` take. -/
lemma vrtString_fits (hr : ws.r = none) (hfit : (setTxt hdr ps).length + 1 < ws.free) :
    ∃ ws', vrtString ws (some hdr.key) ps = some (some (setTxt hdr ps), ws') ∧ ws'.e = ws.e ∧
      ws'.f = ws.f + prndup ((setTxt hdr ps).length + 1) ∧ ws'.r = none := by
  obtain ⟨ws1, hres, hws1⟩ := reserve_free hr
  obtain ⟨ws2, hrel, hws2⟩ := release_reserved hws1 (Nat.le_of_lt hfit)
  refine ⟨ws2, ?_, hws2⟩
  simp only [vrtString, hres, Option.bind_some, setTxt_built]
  rw [if_pos (by omega)]
  simp only
  rw [if_neg (by omega), hrel, Option.map_some]

lemma vrtString_long (hr : ws.r = none) (hlong : ws.free ≤ (setTxt hdr ps).length + 1) :
    vrtString ws (some hdr.key) ps = some (none, ws) := by
  obtain ⟨ws1, hres, hws1⟩ := reserve_free hr
  simp only [vrtString, hres, Option.bind_some, setTxt_built]
  by_cases hlt : (setTxt hdr ps).length < ws.free
  · rw [if_pos hlt]
    simp only
    rw [if_pos hlong, release_zero hr hws1, Option.map_some]
  · rw [if_neg hlt]
    simp only
    rw [release_zero hr hws1, Option.map_some]

/-! ## The slots -/

/-- The headers in the slots, with their flags. -/
def slots (hp : HttpMsg) : List (Option Txt × Bool) := hp.hd.zip hp.hdf

/-- The headers of another name. -/
def otherSlots (hdr : HdrName) (hp : HttpMsg) : List (Option Txt × Bool) :=
  (slots hp).filter fun h => h.1.any fun b => !isHdr hdr b

lemma zip_parts (l : List (Option Txt × Bool)) (fl : List Bool) :
    (l.map Prod.fst).zip (l.map Prod.snd ++ fl) = l := by
  induction l with
  | nil => simp
  | cons h l ih => simp [ih]

lemma slots_unset (hdr : HdrName) (hp : HttpMsg) : slots (hp.unset hdr) = otherSlots hdr hp :=
  zip_parts (otherSlots hdr hp) _

lemma zip_set (hs : List (Option Txt)) (fl : List Bool) (h : Option Txt) (hlen : hs.length < fl.length) :
    (hs ++ [h]).zip (fl.set hs.length false) = hs.zip fl ++ [(h, false)] := by
  induction hs generalizing fl with
  | nil =>
    cases fl with
    | nil => simp at hlen
    | cons f fl => simp
  | cons x hs ih =>
    cases fl with
    | nil => simp at hlen
    | cons f fl => simp [ih fl (by simpa using hlen)]

lemma ok_flags (hok : hp.Ok) : hp.hd.length ≤ hp.hdf.length := by
  have hroom := hok.room
  have hflags := hok.flags
  unfold nhd at hroom
  omega

lemma unset_ok (hok : hp.Ok) (hdr : HdrName) : (hp.unset hdr).Ok ∧ (hp.unset hdr).hd.length ≤ hp.hd.length := by
  have hle : (otherSlots hdr hp).length ≤ hp.hd.length := by
    refine (List.length_filter_le _ _).trans ?_
    rw [slots, List.length_zip]
    exact Nat.min_le_left _ _
  have hroom := hok.room
  have hflags := hok.flags
  have hlen : (hp.unset hdr).hd.length = (otherSlots hdr hp).length := by
    simp [HttpMsg.unset, otherSlots, slots]
  have hflen : (hp.unset hdr).hdf.length = (otherSlots hdr hp).length + (hp.hdf.length - (otherSlots hdr hp).length) := by
    simp [HttpMsg.unset, otherSlots, slots]
  refine ⟨⟨hok.line, ?_, ?_⟩, ?_⟩
  · unfold nhd at hroom ⊢
    rw [hlen]
    exact le_trans (by omega) hroom
  · have hfl := ok_flags hok
    change 5 + (hp.unset hdr).hdf.length = hp.shd
    rw [hflen]
    omega
  · rw [hlen]
    exact hle

lemma slots_setHeader (hok : hp.Ok) (txt : Txt) (hroom : hp.nhd < hp.shd) :
    slots (hp.setHeader txt) = slots hp ++ [(some txt, false)] := by
  have hflags := hok.flags
  unfold nhd at hroom
  rw [HttpMsg.setHeader, if_neg (by unfold nhd; omega)]
  exact zip_set hp.hd hp.hdf (some txt) (by omega)

/-! ## `VRT_SetHdr` -/

/-- The message has the header, as its last one, and all others as they were. -/
structure HdrSet (hdr : HdrName) (ps : List (Option Txt)) (hp hp' : HttpMsg) : Prop where
  slots : slots hp' = otherSlots hdr hp ++ [(some (setTxt hdr ps), false)]
  one : (hp'.hd.filter fun h => h.any (isHdr hdr)) = [some (setTxt hdr ps)]
  line : hp'.line = hp.line

/-- The header is set, or the message and its workspace are as they were. -/
def AllOrNothing (hdr : HdrName) (ps : List (Option Txt)) (hp : HttpMsg) : Prop :=
  ∃ hp', hp.vrtSetHdr hdr (.strings ps) = some hp' ∧ (HdrSet hdr ps hp hp' ∨ hp' = hp)

lemma key_length (hdr : HdrName) : hdr.key.length = hdr.len := by
  simp [HdrName.key, HdrName.len]

lemma isHdr_key (hdr : HdrName) (x : Txt) : isHdr hdr (hdr.key ++ x) = true := by
  have htake : (hdr.key ++ x).take hdr.len = hdr.key := by
    rw [← key_length, List.take_left']
    rfl
  have hself : hdr.key.take hdr.len = hdr.key := by
    rw [← key_length, List.take_length]
  simp [isHdr, strncaseEq, htake, hself]

lemma otherSlots_not (hdr : HdrName) (hp : HttpMsg) :
    ((otherSlots hdr hp).map Prod.fst).filter (fun h => h.any (isHdr hdr)) = [] := by
  rw [List.filter_eq_nil_iff]
  intro h hh
  obtain ⟨x, hx, rfl⟩ := List.mem_map.mp hh
  have hother := (List.mem_filter.mp hx).2
  revert hother
  cases x.1 with
  | none => simp
  | some b => simp

/-- A slot that is given up makes room. -/
lemma otherSlots_lt (hok : hp.Ok) {h : Option Txt} (hmem : h ∈ hp.hd) (hh : h = none ∨ h.any (isHdr hdr) = true) :
    (otherSlots hdr hp).length < hp.hd.length := by
  have hfst : (slots hp).map Prod.fst = hp.hd := List.map_fst_zip (ok_flags hok)
  rw [← hfst] at hmem
  obtain ⟨x, hx, rfl⟩ := List.mem_map.mp hmem
  have hlen : (slots hp).length = hp.hd.length := by rw [← hfst, List.length_map]
  rw [← hlen]
  refine List.length_filter_lt_length_iff_exists.mpr ⟨x, hx, ?_⟩
  rcases hh with hh | hh
  · simp [hh]
  · cases hb : x.1 with
    | none => simp
    | some b =>
      rw [hb] at hh
      simpa using hh

/-- Where no slot is given up, all headers stay. -/
lemma otherSlots_all (hok : hp.Ok) (hnone : ¬ ∃ h ∈ hp.hd, h = none ∨ h.any (isHdr hdr) = true) :
    (otherSlots hdr hp).length = hp.hd.length := by
  have hfst : (slots hp).map Prod.fst = hp.hd := List.map_fst_zip (ok_flags hok)
  have hall : otherSlots hdr hp = slots hp := by
    refine List.filter_eq_self.mpr ?_
    intro x hx
    have hmem : x.1 ∈ hp.hd := by
      rw [← hfst]
      exact List.mem_map_of_mem hx
    cases hb : x.1 with
    | none => exact absurd ⟨x.1, hmem, Or.inl hb⟩ hnone
    | some b =>
      by_contra hh
      refine hnone ⟨x.1, hmem, Or.inr ?_⟩
      rw [hb]
      simpa using hh
  rw [hall, ← hfst, List.length_map]

theorem setHdr_all_or_nothing (hok : hp.Ok) (hr : hp.ws.r = none) :
    AllOrNothing hdr ps hp ↔
      hp.nhd < hp.shd ∨ (∃ h ∈ hp.hd, h = none ∨ h.any (isHdr hdr) = true) ∨
        hp.ws.free ≤ (setTxt hdr ps).length + 1 := by
  by_cases hlong : hp.ws.free ≤ (setTxt hdr ps).length + 1
  · refine iff_of_true ⟨hp, ?_, Or.inr rfl⟩ (Or.inr (Or.inr hlong))
    simp only [vrtSetHdr, vrtString_long hr hlong, Option.map_some]
  · obtain ⟨ws, hws, -, hf, -⟩ := vrtString_fits hr (Nat.lt_of_not_le hlong)
    have hrun : hp.vrtSetHdr hdr (.strings ps) = some (({ hp with ws := ws }.unset hdr).setHeader (setTxt hdr ps)) := by
      simp only [vrtSetHdr, hws, Option.map_some]
    have hokws : HttpMsg.Ok { hp with ws := ws } := ⟨hok.line, hok.room, hok.flags⟩
    obtain ⟨hok', hle⟩ := unset_ok hokws hdr
    have hlen : ({ hp with ws := ws }.unset hdr).hd.length = (otherSlots hdr hp).length := by
      simp [HttpMsg.unset, otherSlots, slots]
    by_cases hroom : ({ hp with ws := ws }.unset hdr).nhd < ({ hp with ws := ws }.unset hdr).shd
    · have hslots := slots_setHeader hok' (setTxt hdr ps) hroom
      rw [slots_unset] at hslots
      refine iff_of_true ⟨_, hrun, Or.inl ⟨hslots, ?_, ?_⟩⟩ ?_
      · rw [HttpMsg.setHeader, if_neg (Nat.not_le_of_lt hroom)]
        have hnot : ({ hp with ws := ws }.unset hdr).hd.filter (fun h : Option Txt => h.any (isHdr hdr)) = [] :=
          otherSlots_not hdr hp
        rw [List.filter_append, hnot]
        simp [setTxt, isHdr_key]
      · rw [HttpMsg.setHeader, if_neg (Nat.not_le_of_lt hroom)]
        rfl
      · by_contra hcond
        simp only [not_or] at hcond
        have hall := otherSlots_all hok hcond.2.1
        have hfull := hcond.1
        unfold nhd at hroom hfull
        rw [hlen, hall] at hroom
        exact hfull hroom
    · have hfull := Nat.le_of_not_lt hroom
      refine iff_of_false ?_ ?_
      · rintro ⟨hp', hhp', hset⟩
        rw [hrun, HttpMsg.setHeader, if_pos hfull] at hhp'
        cases hhp'
        rcases hset with hset | hsame
        · have hslots := congrArg List.length hset.slots
          rw [slots_unset] at hslots
          simp [otherSlots, slots] at hslots
        · have hwsf := congrArg (fun hp : HttpMsg => hp.ws.f) hsame
          have hpos := le_prndup ((setTxt hdr ps).length + 1)
          change ws.f = hp.ws.f at hwsf
          omega
      · have hmax := hok.room
        change hp.shd ≤ 5 + _ at hfull
        rw [hlen] at hfull
        unfold nhd at hmax ⊢
        rintro (hcond | ⟨h, hmem, hh⟩ | hcond)
        · have hle' : (otherSlots hdr hp).length ≤ hp.hd.length := by
            rw [← hlen]
            exact hle
          omega
        · have hlt := otherSlots_lt hok hmem hh
          omega
        · exact hlong hcond

def hFoo : HdrName := ⟨bytes "Foo", by decide, by decide, by decide⟩

/-- A message with one header and no slot left. -/
def fullMsg : HttpMsg where
  ws := emptyWs 7
  shd := 6
  line := [none, none, none, none, none]
  hd := [some (bytes "Host: x")]
  hdf := [false]

/-- A full message with a header that goes for the new one. -/
def givesMsg : HttpMsg := { fullMsg with hd := [some (bytes "Foo: old")] }

theorem setHdr_all_or_nothing_gives : AllOrNothing hFoo [some (bytes "bar")] givesMsg :=
  (setHdr_all_or_nothing ⟨by decide, by decide, by decide⟩ rfl).mpr
    (.inr (.inl ⟨some (bytes "Foo: old"), List.mem_singleton_self _, .inr (by decide)⟩))

/-- The string stays in the workspace, and the header is not set. -/
theorem setHdr_leak : ¬ AllOrNothing hFoo [some (bytes "bar")] fullMsg := by
  rintro ⟨hp', hhp', hset⟩
  have hrun : (fullMsg.vrtSetHdr hFoo (.strings [some (bytes "bar")])).map (fun hp => (hp.hd.length, hp.ws.f)) =
      some (1, 16) := by decide
  rw [hhp', Option.map_some] at hrun
  obtain ⟨hlen, hf⟩ := Prod.mk.inj (Option.some.inj hrun)
  rcases hset with hset | hsame
  · have hone := congrArg List.length hset.slots
    rw [slots, List.length_zip, hlen] at hone
    have htwo : (otherSlots hFoo fullMsg ++ [(some (setTxt hFoo [some (bytes "bar")]), false)]).length = 2 := by decide
    rw [htwo] at hone
    omega
  · rw [hsame] at hf
    revert hf
    decide

end VarnishCache.Proofs

/-!
## What a substitution returns

The text with the matches replaced, where it fits and the engine does not fail; but where it does not, the text
behind the last match, and not the subject.
-/

namespace VarnishCache.Proofs

variable {re : Vre} {ml : Nat} {all : Bool} {sub str : Txt} {ov : Ovector} {ws : Ws}

/-- The substitution for one match. -/
def expanded (str : Txt) (ov : Ovector) : Txt → Txt
  | [] => []
  | [c] => [c]
  | c :: d :: s =>
    if c ≠ 0x5c then c :: expanded str ov (d :: s)
    else if isdigit d then ov.text str (d.toNat - 0x30) ++ expanded str ov s
    else d :: expanded str ov s

/-- The subject with the first match, or each successive one, replaced, if the engine does not fail, and the text behind
the last match. -/
def replaced (re : Vre) (all : Bool) (sub str : Txt) (ov : Ovector) : Txt × Option Txt :=
  let done := str.take ov.start ++ expanded str ov sub
  let rest := str.drop ov.stop
  if all then
    match _h : re.exec rest true with
    | .noMatch => (rest, some (done ++ rest))
    | .error => (rest, none)
    | .matched ov' =>
      let r := replaced re all sub rest ov'
      (r.1, r.2.map fun t => done ++ t)
  else (rest, some (done ++ rest))
termination_by str.length - ov.stop
decreasing_by
  have hlt := re.notempty _ _ _h
  have hle := (re.within _ _ _ _h).le
  simp only [rest, List.length_drop] at hle ⊢
  omega

lemma regsubExpand_eq (ml : Nat) (str : Txt) (ov : Ovector) (res : Option Txt) (x sub : Txt) :
    regsubExpand ml str ov (tadd ml res x) sub = tadd ml res (x ++ expanded str ov sub) := by
  induction sub using expanded.induct generalizing x with
  | case1 => simp [regsubExpand, expanded]
  | case2 c => simp [regsubExpand, expanded, tadd_append]
  | case3 c d s hc ih =>
    rw [regsubExpand, expanded, if_pos hc, if_pos hc, tadd_append, ih]
    simp
  | case4 c d s hc hd ih =>
    rw [regsubExpand, expanded, if_neg hc, if_neg hc, if_pos hd, if_pos hd, tadd_append, ih]
    simp
  | case5 c d s hc hd ih =>
    rw [regsubExpand, expanded, if_neg hc, if_neg hc, if_neg hd, if_neg hd, tadd_append, ih]
    simp

/-- A match that the engine finds further on is shorter than what is left. -/
lemma rest_lt {ov' : Ovector} (h : re.exec (str.drop ov.stop) true = .matched ov') :
    (str.drop ov.stop).length - ov'.stop < str.length - ov.stop := by
  have hlt := re.notempty _ _ h
  have hle := (re.within _ _ _ h).le
  rw [List.length_drop] at hle ⊢
  omega

lemma replaced_noMatch (h : re.exec (str.drop ov.stop) true = .noMatch) :
    replaced re true sub str ov =
      (str.drop ov.stop, some (str.take ov.start ++ expanded str ov sub ++ str.drop ov.stop)) := by
  rw [replaced]
  simp only [if_true]
  split
  next => rfl
  next h' => rw [h] at h'; cases h'
  next h' => rw [h] at h'; cases h'

lemma replaced_error (h : re.exec (str.drop ov.stop) true = .error) :
    replaced re true sub str ov = (str.drop ov.stop, none) := by
  rw [replaced]
  simp only [if_true]
  split
  next h' => rw [h] at h'; cases h'
  next => rfl
  next h' => rw [h] at h'; cases h'

lemma replaced_matched {ov' : Ovector} (h : re.exec (str.drop ov.stop) true = .matched ov') :
    replaced re true sub str ov =
      ((replaced re true sub (str.drop ov.stop) ov').1,
        (replaced re true sub (str.drop ov.stop) ov').2.map fun t => str.take ov.start ++ expanded str ov sub ++ t) := by
  rw [replaced]
  simp only [if_true]
  split
  next h' => rw [h] at h'; cases h'
  next h' => rw [h] at h'; cases h'
  next ov'' h' =>
    rw [h] at h'
    cases h'
    rfl

/-- The loop has the replaced text, but for what comes behind the last match. -/
lemma regsubLoop_eq (re : Vre) (ml : Nat) (all : Bool) (sub str : Txt) (ov : Ovector) (res : Option Txt) :
    (regsubLoop re ml all sub str ov res).str = (replaced re all sub str ov).1 ∧
      (regsubLoop re ml all sub str ov res).res.map (fun b => tadd ml b ((replaced re all sub str ov).1 ++ [0])) =
        (replaced re all sub str ov).2.map fun t => tadd ml res (t ++ [0]) := by
  induction hd : str.length - ov.stop using Nat.strong_induction_on generalizing str ov res with
  | _ d ih =>
    subst hd
    cases all with
    | false =>
      rw [regsubLoop, replaced, regsubExpand_eq]
      simp [tadd_append]
    | true =>
      rw [regsubLoop, regsubExpand_eq]
      simp only [if_true]
      split
      next h =>
        rw [replaced_noMatch h]
        simp [tadd_append]
      next h =>
        rw [replaced_error h]
        simp
      next ov' h =>
        rw [replaced_matched h]
        obtain ⟨hstr, hres⟩ :=
          ih _ (rest_lt h) (str.drop ov.stop) ov' (tadd ml res (str.take ov.start ++ expanded str ov sub)) rfl
        refine ⟨hstr, ?_⟩
        rw [hres, Option.map_map]
        simp [Function.comp_def, tadd_append]

/-! ## `VRT_regsub` -/

/-- What is to be returned: the text with the matches replaced, or, where the engine fails, nothing but the subject. -/
def wanted (re : Vre) (all : Bool) (sub str : Txt) : Option Txt :=
  match re.exec str false with
  | .noMatch => some str
  | .error => none
  | .matched ov => (replaced re all sub str ov).2

/-- The replaced text where it fits with its `NUL`, and otherwise the subject. -/
def RegsubOk (ws : Ws) (all : Bool) (str : Option Txt) (re : Vre) (sub : Option Txt) : Prop :=
  ∃ out ws', vrtRegsub ws all str re sub = some (out, ws') ∧
    (∀ t, wanted re all (sub.getD []) (str.getD []) = some t → t.length + 1 ≤ ws.free → out = t) ∧
    (∀ t, wanted re all (sub.getD []) (str.getD []) = some t → ws.free < t.length + 1 → out = str.getD []) ∧
    (wanted re all (sub.getD []) (str.getD []) = none → out = str.getD [])

/-- There is no match to replace, or the replaced text leaves a byte, or the text behind the last match is what is to be
returned. -/
def RegsubCond (ws : Ws) (all : Bool) (str : Txt) (re : Vre) (sub : Txt) : Prop :=
  ∀ ov, re.exec str false = .matched ov →
    match replaced re all sub str ov with
    | (rest, none) => rest = str
    | (rest, some t) =>
      t.length + 1 < ws.free ∨ t.length + 1 = ws.free ∧ rest = t ∨ ws.free < t.length + 1 ∧ rest = str

/-- What is returned after a match. -/
def returned (ws : Ws) : Txt × Option Txt → Txt
  | (rest, none) => rest
  | (rest, some t) => if t.length + 1 < ws.free then t else rest

lemma vrtRegsub_matched {str sub : Option Txt} (hr : ws.r = none) (h : re.exec (str.getD []) false = .matched ov) :
    ∃ ws', vrtRegsub ws all str re sub = some (returned ws (replaced re all (sub.getD []) (str.getD []) ov), ws') := by
  obtain ⟨ws1, hreserve, hws1⟩ := reserve_free hr
  obtain ⟨hstr, hres⟩ := regsubLoop_eq re ws.free all (sub.getD []) (str.getD []) ov (some [])
  simp only [vrtRegsub, h, hreserve, Option.bind_some, hstr]
  cases hend : replaced re all (sub.getD []) (str.getD []) ov with
  | mk rest t =>
    rw [hend] at hres
    cases t with
    | none =>
      rw [Option.map_none, Option.map_eq_none_iff] at hres
      refine ⟨ws, ?_⟩
      simp only [hres, release_zero hr hws1, Option.map_some, returned]
    | some t =>
      obtain ⟨b, hb, htadd⟩ := Option.map_eq_some_iff.mp hres
      simp only [tadd_nil] at htadd
      simp only [hb, htadd, returned, List.length_append, List.length_singleton]
      by_cases hfit : t.length + 1 < ws.free
      · obtain ⟨ws2, hrel, -⟩ := release_reserved hws1 (Nat.le_of_lt hfit)
        refine ⟨ws2, ?_⟩
        rw [if_pos hfit, if_pos hfit]
        simp only [List.length_append, List.length_singleton, hrel, Option.map_some, List.dropLast_concat]
      · refine ⟨ws, ?_⟩
        rw [if_neg hfit, if_neg hfit]
        simp only [release_zero hr hws1, Option.map_some]

theorem regsub_complete (hr : ws.r = none) (all : Bool) (str sub : Option Txt) (re : Vre) :
    RegsubOk ws all str re sub ↔ RegsubCond ws all (str.getD []) re (sub.getD []) := by
  unfold RegsubOk RegsubCond wanted
  cases h : re.exec (str.getD []) false with
  | noMatch =>
    refine iff_of_true ⟨str.getD [], ws, ?_, ?_, ?_, ?_⟩ ?_
    · simp only [vrtRegsub, h]
    · intro t ht _
      exact Option.some.inj ht
    · intro t _ _
      rfl
    · intro hnone
      rfl
    · intro ov hov
      cases hov
  | error =>
    refine iff_of_true ⟨str.getD [], ws, ?_, ?_, ?_, ?_⟩ ?_
    · simp only [vrtRegsub, h]
    · intro t ht
      cases ht
    · intro t _ _
      rfl
    · intro hnone
      rfl
    · intro ov hov
      cases hov
  | matched ov =>
    obtain ⟨ws', hrun⟩ :
        ∃ ws', vrtRegsub ws all str re sub = some (returned ws (replaced re all (sub.getD []) (str.getD []) ov), ws') :=
      vrtRegsub_matched hr h
    rw [hrun]
    simp only [VreResult.matched.injEq, forall_eq', Option.some.injEq, Prod.mk.injEq]
    cases hend : replaced re all (sub.getD []) (str.getD []) ov with
    | mk rest t =>
      cases t with
      | none => simp [returned]
      | some t =>
        simp only [Option.some.injEq, forall_eq', reduceCtorEq, false_implies, and_true, returned]
        by_cases hfit : t.length + 1 < ws.free
        · rw [if_pos hfit]
          simp only [hfit, true_or, iff_true]
          exact ⟨t, ws', ⟨rfl, rfl⟩, fun _ => rfl, fun hover => by omega⟩
        · rw [if_neg hfit]
          constructor
          · rintro ⟨out, ws'', ⟨rfl, -⟩, hexact, hover⟩
            rcases Nat.lt_or_ge ws.free (t.length + 1) with hlt | hge
            · exact Or.inr (Or.inr ⟨hlt, hover hlt⟩)
            · exact Or.inr (Or.inl ⟨by omega, hexact hge⟩)
          · rintro (hlt | ⟨heq, hrest⟩ | ⟨hlt, hrest⟩)
            · exact absurd hlt hfit
            · exact ⟨rest, ws', ⟨rfl, rfl⟩, fun _ => hrest, fun hover => by omega⟩
            · exact ⟨rest, ws', ⟨rfl, rfl⟩, fun hge => by omega, fun _ => hrest⟩

/-- The expression that is one byte. -/
def byteVre (c : UInt8) : Vre where
  exec s _ :=
    match s.findIdx? (· == c) with
    | none => .noMatch
    | some i => .matched ⟨i, i + 1, fun _ => none⟩
  within := by
    intro s b ov h
    cases hi : s.findIdx? (· == c) with
    | none =>
      rw [hi] at h
      cases h
    | some i =>
      rw [hi] at h
      cases h
      have hlt := (List.findIdx?_eq_some_iff_getElem.mp hi).1
      refine ⟨Nat.le_succ i, hlt, ?_⟩
      intro k g hg
      cases hg
  notempty := by
    intro s ov h
    cases hi : s.findIdx? (· == c) with
    | none =>
      rw [hi] at h
      cases h
    | some i =>
      rw [hi] at h
      cases h
      exact Nat.lt_succ_self i

/-- A workspace of eight bytes. -/
def eightWs : Ws := emptyWs 0

theorem regsub_complete_byte :
    RegsubOk eightWs true (some (bytes "abc")) (byteVre 0x61) (some (bytes "x")) ↔
      RegsubCond eightWs true (bytes "abc") (byteVre 0x61) (bytes "x") :=
  regsub_complete rfl true (some (bytes "abc")) (some (bytes "x")) (byteVre 0x61)

/-- Without room for the text, the subject comes back without its first byte. -/
theorem regsub_remainder :
    ¬ RegsubOk eightWs false (some (bytes "abc")) (byteVre 0x61) (some (bytes "xxxxxxxx")) := by
  rintro ⟨out, ws', hrun, -, hover, -⟩
  have hexec : (byteVre 0x61).exec (bytes "abc") false = .matched ⟨0, 1, fun _ => none⟩ := rfl
  have hrep : replaced (byteVre 0x61) false (bytes "xxxxxxxx") (bytes "abc") ⟨0, 1, fun _ => none⟩ =
      (bytes "bc", some (bytes "xxxxxxxxbc")) := by
    rw [replaced]
    rfl
  obtain ⟨ws'', hret⟩ : ∃ ws'', vrtRegsub eightWs false (some (bytes "abc")) (byteVre 0x61) (some (bytes "xxxxxxxx")) =
      some (returned eightWs (replaced (byteVre 0x61) false (bytes "xxxxxxxx") (bytes "abc") ⟨0, 1, fun _ => none⟩),
        ws'') := vrtRegsub_matched rfl hexec
  rw [hrun, hrep] at hret
  have hout : out = bytes "bc" := by
    rw [(Prod.mk.inj (Option.some.inj hret)).1]
    decide
  have hsubject := hover (bytes "xxxxxxxxbc") (by simp only [wanted, Option.getD_some, hexec, hrep]) (by decide)
  rw [hout] at hsubject
  revert hsubject
  decide

end VarnishCache.Proofs

/-!
## The two ways to submit a ban

The checks of `ccf_ban` come before all tests, those of `VRT_ban_string` between them, but what both accept is the same.
They differ, and abort, where a header name is too long for `ban_parse_http`.
-/

namespace VarnishCache.Proofs

open VarnishCache

variable {re : List UInt8 → Option (List UInt8)} {b b' : BanBuild} {a1 a2 a3 : List UInt8} {av : List (List UInt8)}

lemma banParseOper_name : banParseOper re a2 a3 ≠ .error .nameTooLong := by
  have hre : ∀ e, banParseRegexp re a3 = .error e → e = .badRegexp a3 := by
    intro e he
    rw [banParseRegexp] at he
    split at he
    · cases he
    · cases he
      rfl
  intro h
  rw [banParseOper] at h
  split at h
  · cases hr : banParseRegexp re a3 with
    | ok blob =>
      rw [hr] at h
      cases h
    | error e =>
      rw [hr] at h
      cases h
      cases hre _ hr
  · split at h
    · cases hr : banParseRegexp re a3 with
      | ok blob =>
        rw [hr] at h
        cases h
      | error e =>
        rw [hr] at h
        cases h
        cases hre _ hr
    · split at h
      · cases h
      · split at h
        · cases h
        · cases h

/-- The assertion of `ban_parse_http`. -/
lemma banAddTest_name : banAddTest re b a1 a2 a3 = .error .nameTooLong ↔ 126 < (banHeaderName a1).length := by
  rw [banAddTest, banHeaderName]
  cases hpv : pvars.find? (fun pv => pv.name.isPrefixOf a1) with
  | none => simp
  | some pv =>
    dsimp only
    rw [banParseArg1]
    by_cases hh : pv.http = true
    · rw [if_pos hh, if_pos hh, banParseHttp]
      by_cases hl : (a1.drop pv.name.length).length + 1 ≤ 127
      · rw [if_pos hl]
        constructor
        · intro h
          cases ho : banParseOper re a2 a3 with
          | ok o =>
            rw [ho] at h
            cases h
          | error e =>
            rw [ho] at h
            cases h
            exact absurd ho banParseOper_name
        · intro h
          omega
      · rw [if_neg hl]
        constructor
        · intro _
          omega
        · intro _
          rfl
    · rw [if_neg hh, if_neg hh]
      constructor
      · intro h
        cases ho : banParseOper re a2 a3 with
        | ok o =>
          rw [ho] at h
          cases h
        | error e =>
          rw [ho] at h
          cases h
          exact absurd ho banParseOper_name
      · intro h
        cases h

/-- No test that is come to has a header name of more than 126 bytes; the tests before it are accepted, and there is
a conjunction behind each of them. -/
def NamesFit (re : List UInt8 → Option (List UInt8)) (av : List (List UInt8)) : Prop :=
  ∀ (ts : List (List UInt8 × List UInt8 × List UInt8)) (a1 a2 a3 : List UInt8) (rest : List (List UInt8)),
    av = ts.flatMap (fun t => [t.1, t.2.1, t.2.2, bytes "&&"]) ++ a1 :: a2 :: a3 :: rest →
    (∀ t ∈ ts, ∃ bt, BanReads re t bt) → (banHeaderName a1).length ≤ 126

lemma namesFit_short (h : ∀ a1 a2 a3 rest, av ≠ a1 :: a2 :: a3 :: rest) : NamesFit re av := by
  intro ts a1 a2 a3 rest hav _
  cases ts with
  | nil => exact absurd hav (h a1 a2 a3 rest)
  | cons t ts => exact absurd hav (h _ _ _ _)

lemma namesFit_cons : NamesFit re (a1 :: a2 :: a3 :: av) ↔ (banHeaderName a1).length ≤ 126 ∧
    ∀ rest, av = bytes "&&" :: rest → (∃ bt, BanReads re (a1, a2, a3) bt) → NamesFit re rest := by
  constructor
  · intro h
    refine ⟨h [] a1 a2 a3 av rfl (by simp), ?_⟩
    rintro rest rfl hr ts c1 c2 c3 rest' rfl hts
    refine h ((a1, a2, a3) :: ts) c1 c2 c3 rest' (by simp) ?_
    rw [List.forall_mem_cons]
    exact ⟨hr, hts⟩
  · rintro ⟨hle, hnext⟩ ts c1 c2 c3 rest hav hts
    cases ts with
    | nil =>
      cases hav
      exact hle
    | cons t ts =>
      simp only [List.flatMap_cons, List.cons_append, List.nil_append, List.cons.injEq] at hav
      obtain ⟨rfl, rfl, rfl, rfl⟩ := hav
      rw [List.forall_mem_cons] at hts
      exact hnext _ rfl hts.1 ts c1 c2 c3 rest rfl hts.2

lemma banAddTest_accepts {b1 : BanBuild} (hadd : banAddTest re b a1 a2 a3 = .ok b1) :
    (banHeaderName a1).length ≤ 126 ∧ ∃ bt, BanReads re (a1, a2, a3) bt := by
  obtain ⟨bt, hr, -⟩ := banAddTest_ok.mp hadd
  refine ⟨?_, bt, hr⟩
  by_contra hlt
  rw [banAddTest_name.mpr (by omega)] at hadd
  cases hadd

lemma vrtBanLoop_test : vrtBanLoop re b (a1 :: a2 :: a3 :: av) =
    match banAddTest re b a1 a2 a3 with
    | .error .nameTooLong => none
    | .error _ => some (b, false)
    | .ok b =>
      match av with
      | [] => some (b, true)
      | a4 :: av => if a4 ≠ bytes "&&" then some (b, false) else vrtBanLoop re b av :=
  (vrtBanLoop.eq_def re b (a1 :: a2 :: a3 :: av)).trans rfl

lemma vrtBanLoop_short (h : ∀ a1 a2 a3 rest, av ≠ a1 :: a2 :: a3 :: rest) : vrtBanLoop re b av = some (b, false) := by
  rw [vrtBanLoop]
  exact h

lemma ccfBanTests_cons (a1 a2 a3 : List UInt8) (av : List (List UInt8)) :
    ∃ ts, ccfBanTests (a1 :: a2 :: a3 :: av) = (a1, a2, a3) :: ts := by
  cases av with
  | nil => exact ⟨[], rfl⟩
  | cons a4 av => exact ⟨ccfBanTests av, rfl⟩

lemma banAddTests_cons (ts : List (List UInt8 × List UInt8 × List UInt8)) :
    banAddTests re b ((a1, a2, a3) :: ts) = banAddTest re b a1 a2 a3 >>= fun b => banAddTests re b ts :=
  List.foldlM_cons

/-- The arguments that `ccf_ban` accepts. -/
def CcfAccepts (re : List UInt8 → Option (List UInt8)) (b : BanBuild) (av : List (List UInt8))
    (r : Except BanError BanBuild) : Prop :=
  av.length % 4 = 3 ∧ (∀ a ∈ ccfBanAnds av, a = bytes "&&") ∧ banAddTests re b (ccfBanTests av) = r

lemma ccfAccepts_conj {r : Except BanError BanBuild} {b1 : BanBuild} (hadd : banAddTest re b a1 a2 a3 = .ok b1) :
    CcfAccepts re b (a1 :: a2 :: a3 :: bytes "&&" :: av) r ↔ CcfAccepts re b1 av r := by
  have htests : banAddTests re b (ccfBanTests (a1 :: a2 :: a3 :: bytes "&&" :: av)) =
      banAddTests re b1 (ccfBanTests av) := by
    rw [ccfBanTests_conj, banAddTests_cons, hadd]
    rfl
  unfold CcfAccepts
  rw [htests, ccfBanAnds_conj, List.forall_mem_cons]
  simp only [List.length_cons, true_and]
  refine and_congr_left' ?_
  omega

/-- What stops `VRT_ban_string` at a test stops `ccf_ban` there. -/
lemma ccfAccepts_error {r : Except BanError BanBuild} {e : BanError} (hadd : banAddTest re b a1 a2 a3 = .error e)
    (h : CcfAccepts re b (a1 :: a2 :: a3 :: av) r) : r = .error e := by
  obtain ⟨ts, hts⟩ := ccfBanTests_cons a1 a2 a3 av
  obtain ⟨-, -, h⟩ := h
  rw [hts, banAddTests_cons, hadd] at h
  exact h.symm

lemma ccfAccepts_one {r : Except BanError BanBuild} {b1 : BanBuild} (hadd : banAddTest re b a1 a2 a3 = .ok b1) :
    CcfAccepts re b [a1, a2, a3] r ↔ r = .ok b1 := by
  have htests : banAddTests re b (ccfBanTests [a1, a2, a3]) = .ok b1 := by
    have hone : ccfBanTests [a1, a2, a3] = [(a1, a2, a3)] := rfl
    rw [hone, banAddTests_cons, hadd]
    rfl
  have hands : ccfBanAnds [a1, a2, a3] = [] := rfl
  unfold CcfAccepts
  rw [htests, hands]
  simp [eq_comm]

lemma not_ccfAccepts_and {r : Except BanError BanBuild} {a4 : List UInt8} (hand : a4 ≠ bytes "&&") :
    ¬ CcfAccepts re b (a1 :: a2 :: a3 :: a4 :: av) r := by
  rintro ⟨-, h, -⟩
  rw [ccfBanAnds_conj, List.forall_mem_cons] at h
  exact hand h.1

lemma not_ccfAccepts_short {r : Except BanError BanBuild} (h : ∀ a1 a2 a3 rest, av ≠ a1 :: a2 :: a3 :: rest) :
    ¬ CcfAccepts re b av r := by
  rintro ⟨hlen, -, -⟩
  rcases av with _ | ⟨a1, _ | ⟨a2, _ | ⟨a3, av⟩⟩⟩
  · simp at hlen
  · simp at hlen
  · simp at hlen
  · exact h a1 a2 a3 av rfl

/-- The two ways, test by test: the child aborts at a name that does not fit, and otherwise what one accepts the other
accepts. -/
lemma vrtBanLoop_spec : (vrtBanLoop re b av = none ↔ ¬ NamesFit re av) ∧
    (∀ b', vrtBanLoop re b av = some (b', true) ↔ CcfAccepts re b av (.ok b')) ∧
    (CcfAccepts re b av (.error .nameTooLong) → vrtBanLoop re b av = none) := by
  induction b, av using vrtBanLoop.induct re with
  | case1 b a1 a2 a3 av hadd =>
    rw [vrtBanLoop_test, hadd, namesFit_cons]
    have hlong := banAddTest_name.mp hadd
    refine ⟨?_, fun b' => ⟨nofun, fun h => ?_⟩, fun _ => rfl⟩
    · simp only [true_iff]
      intro h
      omega
    · cases ccfAccepts_error hadd h
  | case2 b a1 a2 a3 av e he hadd =>
    rw [vrtBanLoop_test, hadd, namesFit_cons]
    have hfit : (banHeaderName a1).length ≤ 126 := by
      by_contra hlt
      rw [banAddTest_name.mpr (by omega)] at hadd
      cases hadd
      exact he rfl
    have hno : ¬ ∃ bt, BanReads re (a1, a2, a3) bt := by
      rintro ⟨bt, hr⟩
      rw [banAddTest_ok.mpr ⟨bt, hr, rfl⟩] at hadd
      cases hadd
    refine ⟨by simp [hfit, hno], fun b' => ⟨fun h => ?_, fun h => ?_⟩, fun h => ?_⟩
    · simp at h
    · cases ccfAccepts_error hadd h
    · cases ccfAccepts_error hadd h
      exact absurd rfl he
  | case3 b a1 a2 a3 b1 hadd =>
    rw [vrtBanLoop_test, hadd, namesFit_cons]
    refine ⟨by simp [(banAddTest_accepts hadd).1], fun b' => ?_, fun h => ?_⟩
    · rw [ccfAccepts_one hadd]
      simp [eq_comm]
    · cases (ccfAccepts_one hadd).mp h
  | case4 b a1 a2 a3 b1 hadd a4 av hand =>
    rw [vrtBanLoop_test, hadd, namesFit_cons]
    dsimp only
    rw [if_pos hand]
    refine ⟨by simp [(banAddTest_accepts hadd).1, hand], fun b' => ⟨fun h => ?_, fun h => ?_⟩, fun h => ?_⟩
    · simp at h
    · exact absurd h (not_ccfAccepts_and hand)
    · exact absurd h (not_ccfAccepts_and hand)
  | case5 b a1 a2 a3 b1 hadd a4 av hand ih =>
    obtain ⟨hfit, hr⟩ := banAddTest_accepts hadd
    obtain ⟨hnone, hgood, haborts⟩ := ih
    rw [not_not] at hand
    subst hand
    rw [vrtBanLoop_test, hadd, namesFit_cons]
    dsimp only
    rw [if_neg (by simp)]
    refine ⟨?_, fun b' => ?_, fun h => haborts ((ccfAccepts_conj hadd).mp h)⟩
    · rw [hnone, not_iff_not]
      constructor
      · rintro h
        refine ⟨hfit, ?_⟩
        rintro rest ⟨rfl⟩ _
        exact h
      · rintro ⟨-, h⟩
        exact h av rfl hr
    · rw [ccfAccepts_conj hadd]
      exact hgood b'
  | case6 b av hav =>
    rw [vrtBanLoop_short hav]
    refine ⟨by simp [namesFit_short hav], fun b' => ⟨fun h => ?_, fun h => ?_⟩, fun h => ?_⟩
    · simp at h
    · exact absurd h (not_ccfAccepts_short hav)
    · exact absurd h (not_ccfAccepts_short hav)

/-- `ccf_ban` goes to the tests with arguments that it accepts only. -/
lemma ccfBan_cases (re : List UInt8 → Option (List UInt8)) (av : List (List UInt8)) :
    (CcfAccepts re .new av (ccfBan re av)) ∨
      (∃ e, ccfBan re av = .error e ∧ e ≠ .nameTooLong ∧ ∀ r, ¬ CcfAccepts re .new av r) := by
  rw [ccfBan]
  by_cases hlen : av.length % 4 = 3
  · rw [if_neg (by simp [hlen])]
    cases hf : (ccfBanAnds av).find? (fun a => a ≠ bytes "&&") with
    | some a =>
      refine Or.inr ⟨_, rfl, by simp, ?_⟩
      rintro r ⟨-, hand, -⟩
      have hne := List.find?_some hf
      simp [hand a (List.mem_of_find?_eq_some hf)] at hne
    | none =>
      rw [List.find?_eq_none] at hf
      exact Or.inl ⟨hlen, fun a ha => by simpa using hf a ha, rfl⟩
  · rw [if_pos hlen]
    refine Or.inr ⟨_, rfl, by simp, ?_⟩
    rintro r ⟨h, -⟩
    exact hlen h

lemma vavScan_noesc (s : List UInt8) : ∃ n, vavScan sscanfHex ⟨false, false, true⟩ false 0 s = some (.ok n) := by
  induction s with
  | nil => exact ⟨0, rfl⟩
  | cons c s ih =>
    obtain ⟨n, hn⟩ := ih
    rw [vavScan_cons, hn]
    by_cases hc : isspace c = true
    · exact ⟨0, by simp [hc]⟩
    · exact ⟨n + 1, by simp [hc, Except.map]⟩

lemma vavLoop_noesc (s : List UInt8) (argv : List (List UInt8)) (k : Nat) :
    ∃ av, vavLoop sscanfHex ⟨false, false, true⟩ argv k s = some (.ok av) := by
  induction s generalizing argv k with
  | nil => exact ⟨argv, vavLoop_nil⟩
  | cons c s ih =>
    cases k with
    | succ k => exact ih argv k
    | zero =>
      rw [vavLoop_cons]
      by_cases hc : isspace c = true
      · rw [if_pos hc]
        exact ih argv 0
      · obtain ⟨n, hn⟩ := vavScan_noesc (c :: s)
        rw [if_neg hc]
        simpa [hn, vavArg] using ih _ n

/-- Without escapes every string has arguments, and `VRT_ban_string` goes by them. -/
lemma vrtBanString_args (re : List UInt8 → Option (List UInt8)) (t0 : List UInt8) (bans : List (List UInt8))
    (str : List UInt8) : ∃ av, vavParse sscanfHex ⟨false, false, true⟩ str = some (.ok av) ∧
      vrtBanString re t0 bans str = vrtBanArgs re t0 bans av := by
  obtain ⟨av, hav⟩ := vavLoop_noesc str [] 0
  refine ⟨av, hav, ?_⟩
  rw [vrtBanString, vavParse, hav]
  rfl

/-- Both insert one ban with the same specification, or both leave the list alone, and neither aborts, exactly if no
header name that is come to is too long. -/
theorem ban_submission_agrees (re : List UInt8 → Option (List UInt8)) (t0 : List UInt8) (bans : List (List UInt8))
    (av : List (List UInt8)) :
    (∃ bans', ccfBanArgs re t0 bans av = some bans' ∧ vrtBanArgs re t0 bans av = some bans' ∧
      (bans' = bans ∨ ∃ spec, bans' = spec :: bans)) ↔ NamesFit re av := by
  constructor
  · rintro ⟨bans', -, hvrt, -⟩
    by_contra hfit
    rw [vrtBanArgs, vrtBanLoop_spec.1.mpr hfit] at hvrt
    cases hvrt
  · intro hfit
    cases hloop : vrtBanLoop re .new av with
    | none => exact absurd hfit (vrtBanLoop_spec.1.mp hloop)
    | some r =>
      obtain ⟨b, good⟩ := r
      cases good with
      | true =>
        obtain ⟨hlen, hands, htests⟩ := (vrtBanLoop_spec.2.1 b).mp hloop
        have hccf : ccfBan re av = .ok b := by
          rcases ccfBan_cases re av with h | ⟨e, -, -, hno⟩
          · exact h.2.2.symm.trans htests
          · exact absurd ⟨hlen, hands, htests⟩ (hno (.ok b))
        refine ⟨banFreeze t0 b :: bans, ?_, ?_, Or.inr ⟨_, rfl⟩⟩
        · rw [ccfBanArgs, hccf]
        · rw [vrtBanArgs, hloop]
          rfl
      | false =>
        refine ⟨bans, ?_, ?_, Or.inl rfl⟩
        · rw [ccfBanArgs]
          rcases ccfBan_cases re av with h | ⟨e, he, hne, -⟩
          · cases hccf : ccfBan re av with
            | ok b' =>
              rw [hccf] at h
              rw [(vrtBanLoop_spec.2.1 b').mpr h] at hloop
              cases hloop
            | error e =>
              rw [hccf] at h
              by_cases hname : e = .nameTooLong
              · subst hname
                rw [vrtBanLoop_spec.2.2 h] at hloop
                cases hloop
              · simp
          · rw [he]
            simp
        · rw [vrtBanArgs, hloop]
          rfl

/-- A header name of 127 bytes aborts the child. -/
theorem ban_submission_aborts :
    ¬ ∀ (re : List UInt8 → Option (List UInt8)) (t0 : List UInt8) (bans av : List (List UInt8)),
      ∃ bans', ccfBanArgs re t0 bans av = some bans' ∧ vrtBanArgs re t0 bans av = some bans' ∧
        (bans' = bans ∨ ∃ spec, bans' = spec :: bans) := by
  intro h
  obtain ⟨bans', hccf, -⟩ := h (fun _ => none) [] []
    [bytes "obj.http." ++ List.replicate 127 0x61, bytes "==", bytes "x"]
  have habort : ccfBanArgs (fun _ => none) [] []
      [bytes "obj.http." ++ List.replicate 127 0x61, bytes "==", bytes "x"] = none := by decide +kernel
  rw [habort] at hccf
  cases hccf

end VarnishCache.Proofs
