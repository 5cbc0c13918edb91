import VarnishCache.HttpHdr
import VarnishCache.Proofs.Workspace

/-!
# Joined headers

`http_CollectHdr` joins the texts as it should, where the workspace has room for the joined header. The flags stay in
their slots, though, when the headers move up, and without room the later headers are gone.
-/

namespace VarnishCache.Proofs

open HttpMsg

variable {hdr : HdrName} {ml : Nat} {b : Option Txt} {c : Collect}

/-! ## The loop -/

/-- Headers of another name are passed over. -/
lemma collectLoop_other (hs rest : List Txt) (c : Collect) (h : ∀ x ∈ hs, isHdr hdr x = false) :
    collectLoop hdr (hs ++ rest) c = collectLoop hdr rest { c with seen := c.seen ++ hs } := by
  induction hs generalizing c with
  | nil => simp
  | cons x hs ih =>
    rw [List.cons_append, collectLoop, if_neg (by simp [h x List.mem_cons_self]),
      ih _ (fun y hy => h y (List.mem_cons_of_mem _ hy))]
    simp

/-- The part that a header gives to the joined one. -/
def joinPart (hdr : HdrName) (h : Txt) : Txt := chComma :: h.drop hdr.len

/-- Once the collection is there, the headers of the name are taken out and added to it. -/
lemma collectLoop_append {f : Nat} {x : Txt} (hs : List Txt) (c : Collect) (hf : c.f = some f)
    (hb : c.b = some (tadd c.ml (some []) x)) :
    collectLoop hdr hs c =
      some { c with
        seen := c.seen ++ hs.filter (fun h => !isHdr hdr h),
        b := some (tadd c.ml (some []) (x ++ (hs.filter (isHdr hdr)).flatMap (joinPart hdr))) } := by
  induction hs generalizing c x with
  | nil => simp [collectLoop, ← hb]
  | cons h hs ih =>
    by_cases hh : isHdr hdr h = true
    · rw [collectLoop, if_pos hh, hf]
      have hstart : c.start f = some c := by
        rw [Collect.start, hb]
      have happend : (c.append hdr h).b = some (tadd c.ml (some []) (x ++ joinPart hdr h)) := by
        simp only [Collect.append, hb, Option.map_some, tadd_append, joinPart, List.singleton_append]
      simp only [hstart, Option.bind_some]
      rw [ih (c.append hdr h) hf happend]
      simp [Collect.append, hh, hf]
    · rw [collectLoop, if_neg hh, ih { c with seen := c.seen ++ [h] } hf hb]
      simp [hh]

/-! ## The headers that come out -/

/-- The joined header. -/
def joinedHdr (hdr : HdrName) (first : Txt) (hs : List Txt) : Txt :=
  first ++ (hs.filter (isHdr hdr)).flatMap (joinPart hdr)

/-- The headers as they should be, each with its flag. -/
def collectedHdrs (hdr : HdrName) : List (Txt × Bool) → List (Txt × Bool)
  | [] => []
  | h :: hs =>
    if isHdr hdr h.1 then (joinedHdr hdr h.1 (hs.map Prod.fst), h.2) :: hs.filter fun x => !isHdr hdr x.1
    else h :: collectedHdrs hdr hs

/-- The header that the room has to be for. -/
def wantedHdr (hdr : HdrName) : List Txt → Txt
  | [] => []
  | h :: hs => if isHdr hdr h then joinedHdr hdr h hs else wantedHdr hdr hs

/-- A list of headers is before, at and behind the first one of the name. -/
lemma split_first (hdr : HdrName) (ts : List Txt) :
    (∀ x ∈ ts, isHdr hdr x = false) ∨
      ∃ before h after, ts = before ++ h :: after ∧ (∀ x ∈ before, isHdr hdr x = false) ∧ isHdr hdr h = true := by
  induction ts with
  | nil => exact Or.inl (by simp)
  | cons x ts ih =>
    by_cases hx : isHdr hdr x = true
    · exact Or.inr ⟨[], x, ts, rfl, by simp, hx⟩
    · have hx : isHdr hdr x = false := by simpa using hx
      rcases ih with hnone | ⟨before, h, after, rfl, hbefore, hh⟩
      · exact Or.inl (by simpa [hx] using hnone)
      · exact Or.inr ⟨x :: before, h, after, rfl, by simpa [hx] using hbefore, hh⟩

lemma wantedHdr_split {before after : List Txt} {h : Txt} (hbefore : ∀ x ∈ before, isHdr hdr x = false)
    (hh : isHdr hdr h = true) : wantedHdr hdr (before ++ h :: after) = joinedHdr hdr h after := by
  induction before with
  | nil => simp [wantedHdr, hh]
  | cons x before ih =>
    rw [List.cons_append, wantedHdr, if_neg (by simp [hbefore x List.mem_cons_self]),
      ih (fun y hy => hbefore y (List.mem_cons_of_mem _ hy))]

lemma filter_none {hs : List Txt} (h : ∀ x ∈ hs, isHdr hdr x = false) : hs.filter (isHdr hdr) = [] := by
  rw [List.filter_eq_nil_iff]
  intro x hx
  rw [h x hx]
  decide

lemma filter_others {hs : List Txt} (h : ∀ x ∈ hs, isHdr hdr x = false) :
    hs.filter (fun x => !isHdr hdr x) = hs := by
  rw [List.filter_eq_self]
  intro x hx
  rw [h x hx]
  rfl

/-- What the loop does behind the first header. -/
lemma collectLoop_first {before after : List Txt} {h : Txt} {ws : Ws} (hbefore : ∀ x ∈ before, isHdr hdr x = false)
    (hh : isHdr hdr h = true) :
    collectLoop hdr (before ++ h :: after) ⟨[], none, none, 0, ws⟩ =
      collectLoop hdr after ⟨before ++ [h], some before.length, none, 0, ws⟩ := by
  rw [collectLoop_other before _ _ hbefore, collectLoop, if_pos hh]
  rfl

/-- With one header of the name, nothing is joined. -/
lemma collectLoop_one {before after : List Txt} {h : Txt} {ws : Ws} (hbefore : ∀ x ∈ before, isHdr hdr x = false)
    (hh : isHdr hdr h = true) (hafter : ∀ x ∈ after, isHdr hdr x = false) :
    collectLoop hdr (before ++ h :: after) ⟨[], none, none, 0, ws⟩ =
      some ⟨before ++ h :: after, some before.length, none, 0, ws⟩ := by
  have hloop := collectLoop_other after [] ⟨before ++ [h], some before.length, none, 0, ws⟩ hafter
  rw [List.append_nil] at hloop
  rw [collectLoop_first hbefore hh, hloop, collectLoop]
  simp

/-- With more of them, the first one stays and the others are joined to it. -/
lemma collectLoop_many {before mid rest : List Txt} {h g : Txt} {ws ws' : Ws}
    (hbefore : ∀ x ∈ before, isHdr hdr x = false) (hh : isHdr hdr h = true) (hmid : ∀ x ∈ mid, isHdr hdr x = false)
    (hg : isHdr hdr g = true) (hws : ws.reserve = some (ml, ws')) :
    collectLoop hdr (before ++ h :: (mid ++ g :: rest)) ⟨[], none, none, 0, ws⟩ =
      some ⟨before ++ h :: (mid ++ g :: rest).filter (fun x => !isHdr hdr x), some before.length,
        some (tadd ml (some []) (joinedHdr hdr h (mid ++ g :: rest))), ml, ws'⟩ := by
  rw [collectLoop_first hbefore hh, collectLoop_other mid _ _ hmid, collectLoop, if_pos hg]
  simp only [Collect.start, hws, Option.map_some, Option.bind_some]
  have hfirst : (before ++ [h] ++ mid).getD before.length [] = h := by simp
  rw [hfirst, collectLoop_append (f := before.length) (x := h ++ joinPart hdr g) rest _ rfl
    (by simp only [Collect.append, Option.map_some, tadd_append, joinPart, List.append_assoc, List.singleton_append])]
  simp [Collect.append, joinedHdr, filter_none hmid, filter_others hmid, hg]

/-! ## `http_CollectHdr` -/

variable {hp hp' : HttpMsg} {ts : List Txt}

lemma mapM_some (ts : List Txt) : (ts.map some).mapM id = some ts := by
  induction ts with
  | nil => rfl
  | cons t ts ih => simp [ih]

lemma collectHdr_none (hts : hp.hd = ts.map some) (hnone : ∀ x ∈ ts, isHdr hdr x = false) :
    hp.collectHdr hdr = some hp := by
  have hloop := collectLoop_other ts [] ⟨[], none, none, 0, hp.ws⟩ hnone
  rw [List.append_nil] at hloop
  simp only [collectHdr, hts, mapM_some, Option.bind_some, hloop, collectLoop, List.nil_append]
  rw [← hts]

lemma collectHdr_one {before after : List Txt} {h : Txt} (hts : hp.hd = (before ++ h :: after).map some)
    (hbefore : ∀ x ∈ before, isHdr hdr x = false) (hh : isHdr hdr h = true)
    (hafter : ∀ x ∈ after, isHdr hdr x = false) : hp.collectHdr hdr = some hp := by
  simp only [collectHdr, hts, mapM_some, Option.bind_some, collectLoop_one hbefore hh hafter]
  rw [← hts]

/-- The headers that come out with a text `t` at the place of the first one. -/
lemma collectHdr_many {before mid rest : List Txt} {h g : Txt}
    (hts : hp.hd = (before ++ h :: (mid ++ g :: rest)).map some) (hr : hp.ws.r = none)
    (hbefore : ∀ x ∈ before, isHdr hdr x = false) (hh : isHdr hdr h = true) (hmid : ∀ x ∈ mid, isHdr hdr x = false)
    (hg : isHdr hdr g = true) :
    ∃ ws, hp.collectHdr hdr = some { hp with
      ws := ws,
      hd := (before ++ (if (joinedHdr hdr h (mid ++ g :: rest)).length < hp.ws.free then
        joinedHdr hdr h (mid ++ g :: rest) else h) :: (mid ++ g :: rest).filter (fun x => !isHdr hdr x)).map some } := by
  obtain ⟨ws', hres, hws'⟩ := reserve_free hr
  simp only [collectHdr, hts, mapM_some, Option.bind_some, collectLoop_many hbefore hh hmid hg hres, tadd_nil]
  by_cases hroom : (joinedHdr hdr h (mid ++ g :: rest)).length < hp.ws.free
  · obtain ⟨ws'', hrel, -⟩ := release_reserved hws' (Nat.succ_le_of_lt hroom)
    refine ⟨ws'', ?_⟩
    simp only [if_pos hroom, hrel, Option.map_some, Option.getD_some]
    simp
  · refine ⟨hp.ws, ?_⟩
    simp only [if_neg hroom, release_zero hr hws', Option.map_some]

/-- The texts alone. -/
def collectedTxts (hdr : HdrName) : List Txt → List Txt
  | [] => []
  | h :: hs => if isHdr hdr h then joinedHdr hdr h hs :: hs.filter fun x => !isHdr hdr x else h :: collectedTxts hdr hs

lemma collectedHdrs_fst (hdr : HdrName) (l : List (Txt × Bool)) :
    (collectedHdrs hdr l).map Prod.fst = collectedTxts hdr (l.map Prod.fst) := by
  induction l with
  | nil => rfl
  | cons h l ih =>
    rw [collectedHdrs, List.map_cons, collectedTxts]
    by_cases hh : isHdr hdr h.1 = true
    · rw [if_pos hh, if_pos hh, List.map_cons, List.filter_map]
      rfl
    · rw [if_neg hh, if_neg hh, List.map_cons, ih]

lemma collectedTxts_other {before rest : List Txt} (hbefore : ∀ x ∈ before, isHdr hdr x = false) :
    collectedTxts hdr (before ++ rest) = before ++ collectedTxts hdr rest := by
  induction before with
  | nil => rfl
  | cons x before ih =>
    rw [List.cons_append, collectedTxts, if_neg (by simp [hbefore x List.mem_cons_self]),
      ih (fun y hy => hbefore y (List.mem_cons_of_mem _ hy))]
    rfl

lemma collectedTxts_first {before after : List Txt} {h : Txt} (hbefore : ∀ x ∈ before, isHdr hdr x = false)
    (hh : isHdr hdr h = true) :
    collectedTxts hdr (before ++ h :: after) =
      before ++ joinedHdr hdr h after :: after.filter (fun x => !isHdr hdr x) := by
  rw [collectedTxts_other hbefore, collectedTxts, if_pos hh]

lemma collectedTxts_none (hnone : ∀ x ∈ ts, isHdr hdr x = false) : collectedTxts hdr ts = ts := by
  have h : collectedTxts hdr (ts ++ []) = ts ++ collectedTxts hdr [] := collectedTxts_other hnone
  simpa [collectedTxts] using h

lemma joinedHdr_alone {h : Txt} {after : List Txt} (hafter : ∀ x ∈ after, isHdr hdr x = false) :
    joinedHdr hdr h after = h := by
  simp [joinedHdr, filter_none hafter]

/-- With room for it, the texts come out as they should. -/
lemma collectHdr_texts (hts : hp.hd = ts.map some) (hr : hp.ws.r = none)
    (hroom : (wantedHdr hdr ts).length < hp.ws.free) :
    ∃ ws, hp.collectHdr hdr = some { hp with ws := ws, hd := (collectedTxts hdr ts).map some } := by
  rcases split_first hdr ts with hnone | ⟨before, h, after, rfl, hbefore, hh⟩
  · rw [collectHdr_none hts hnone, collectedTxts_none hnone, ← hts]
    exact ⟨hp.ws, rfl⟩
  · rw [collectedTxts_first hbefore hh]
    rw [wantedHdr_split hbefore hh] at hroom
    rcases split_first hdr after with hafter | ⟨mid, g, rest, rfl, hmid, hg⟩
    · rw [collectHdr_one hts hbefore hh hafter, joinedHdr_alone hafter, filter_others hafter, ← hts]
      exact ⟨hp.ws, rfl⟩
    · obtain ⟨ws, hws⟩ := collectHdr_many hts hr hbefore hh hmid hg
      rw [if_pos hroom] at hws
      exact ⟨ws, hws⟩

/-- Slots hold the right flags where these come first in the array of flags. -/
lemma zip_flags (l : List (Txt × Bool)) (fl : List Bool) :
    (l.map fun h => some h.1).zip fl = (l.map fun h => (some h.1, h.2)) ↔ l.map Prod.snd <+: fl := by
  induction l generalizing fl with
  | nil => simp
  | cons h l ih =>
    cases fl with
    | nil => simp
    | cons f fl =>
      simp only [List.map_cons, List.zip_cons_cons, List.cons.injEq, ih fl, List.cons_prefix_cons, Prod.mk.injEq,
        true_and]
      exact and_congr_left' eq_comm

lemma ok_flags_le (hok : hp.Ok) (hts : hp.hd = ts.map some) : ts.length ≤ hp.hdf.length := by
  have hroom := hok.room
  have hflags := hok.flags
  unfold nhd at hroom
  rw [hts, List.length_map] at hroom
  omega

/-- The headers of a message come out of `http_CollectHdr` as they should, each with its flag. -/
def Collected (hdr : HdrName) (hp : HttpMsg) (ts : List Txt) : Prop :=
  ∃ hp', hp.collectHdr hdr = some hp' ∧
    hp'.hd.zip hp'.hdf = (collectedHdrs hdr (ts.zip hp.hdf)).map fun h => (some h.1, h.2)

theorem collectHdr_flags (hok : hp.Ok) (hts : hp.hd = ts.map some) (hr : hp.ws.r = none)
    (hroom : (wantedHdr hdr ts).length < hp.ws.free) :
    Collected hdr hp ts ↔ (collectedHdrs hdr (ts.zip hp.hdf)).map Prod.snd <+: hp.hdf := by
  obtain ⟨ws, hws⟩ := collectHdr_texts hts hr hroom
  have htexts : (collectedTxts hdr ts).map some = (collectedHdrs hdr (ts.zip hp.hdf)).map fun h => some h.1 := by
    have hfst := collectedHdrs_fst hdr (ts.zip hp.hdf)
    rw [List.map_fst_zip (ok_flags_le hok hts)] at hfst
    rw [← hfst, List.map_map]
    rfl
  unfold Collected
  rw [hws, ← zip_flags, ← htexts]
  constructor
  · rintro ⟨hp', hhp', hzip⟩
    cases hhp'
    exact hzip
  · intro hzip
    exact ⟨_, rfl, hzip⟩

def hCacheControl : HdrName := ⟨bytes "Cache-Control", by decide, by decide, by decide⟩

def smallWs : Ws := emptyWs 7

/-- A request in which `http_DoConnection` has marked a header in front of those that are joined. -/
def markedTxts : List Txt :=
  [bytes "Connection: X-Token", bytes "X-Token: 1", bytes "Cache-Control: a", bytes "Cache-Control: b", bytes "Host: h"]

def markedMsg : HttpMsg where
  ws := smallWs
  shd := 11
  line := [none, none, none, none, none]
  hd := markedTxts.map some
  hdf := [false, true, false, false, false, false]

theorem collectHdr_flags_marked : Collected hCacheControl markedMsg markedTxts :=
  (collectHdr_flags ⟨by decide, by decide, by decide⟩ rfl rfl (by decide)).mpr (by decide)

/-- The marked header comes behind those that are joined. -/
def tokenTxts : List Txt :=
  [bytes "Connection: X-Token", bytes "Cache-Control: a", bytes "Cache-Control: b", bytes "X-Token: 1"]

def tokenMsg : HttpMsg where
  ws := smallWs
  shd := 10
  line := [none, none, none, none, none]
  hd := tokenTxts.map some
  hdf := [false, false, false, true, false]

/-- The header that the client had named is no longer filtered. -/
theorem collectHdr_flag_lost : ¬ Collected hCacheControl tokenMsg tokenTxts := by
  rintro ⟨hp', hhp', hzip⟩
  have hrun : (tokenMsg.collectHdr hCacheControl).map (fun hp => hp.hd.zip hp.hdf) =
      some [(some (bytes "Connection: X-Token"), false), (some (bytes "Cache-Control: a, b"), false),
        (some (bytes "X-Token: 1"), false)] := by decide
  rw [hhp', Option.map_some, hzip] at hrun
  revert hrun
  decide

/-- `http_CollectHdr` leaves the headers as they were. -/
def CollectsNothing (hdr : HdrName) (hp : HttpMsg) : Prop := ∃ hp', hp.collectHdr hdr = some hp' ∧ hp'.hd = hp.hd

theorem collectHdr_overflow (hts : hp.hd = ts.map some) (hr : hp.ws.r = none)
    (hover : hp.ws.free ≤ (wantedHdr hdr ts).length) : CollectsNothing hdr hp ↔ (ts.filter (isHdr hdr)).length ≤ 1 := by
  rcases split_first hdr ts with hnone | ⟨before, h, after, rfl, hbefore, hh⟩
  · refine iff_of_true ⟨hp, collectHdr_none hts hnone, rfl⟩ ?_
    rw [filter_none hnone]
    exact Nat.zero_le _
  · rw [wantedHdr_split hbefore hh] at hover
    rcases split_first hdr after with hafter | ⟨mid, g, rest, rfl, hmid, hg⟩
    · refine iff_of_true ⟨hp, collectHdr_one hts hbefore hh hafter, rfl⟩ ?_
      simp [filter_none hbefore, filter_none hafter, hh]
    · obtain ⟨ws, hws⟩ := collectHdr_many hts hr hbefore hh hmid hg
      refine iff_of_false ?_ ?_
      · rintro ⟨hp', hhp', hsame⟩
        rw [hws] at hhp'
        cases hhp'
        have hlen := congrArg List.length hsame
        rw [hts] at hlen
        have hfilter := List.length_filter_le (fun x => !isHdr hdr x) rest
        simp [filter_others hmid, hg] at hlen
        omega
      · simp [filter_none hbefore, filter_none hmid, hh, hg]

/-- One header of the name, and no room for another text. -/
def aloneTxts : List Txt := [bytes "Connection: X-Token", bytes "Cache-Control: a", bytes "X-Token: 1"]

def aloneMsg : HttpMsg := { tokenMsg with ws := emptyWs 0, hd := aloneTxts.map some }

theorem collectHdr_overflow_alone : CollectsNothing hCacheControl aloneMsg :=
  by
  have halone : (aloneTxts.filter (isHdr hCacheControl)).length ≤ 1 := by decide
  exact (collectHdr_overflow rfl rfl (by decide)).mpr halone

/-- No room for the joined header. -/
def tightMsg : HttpMsg := { tokenMsg with ws := emptyWs 0 }

theorem collectHdr_header_lost : ¬ CollectsNothing hCacheControl tightMsg := by
  rintro ⟨hp', hhp', hsame⟩
  have hrun : (tightMsg.collectHdr hCacheControl).map HttpMsg.hd =
      some [some (bytes "Connection: X-Token"), some (bytes "Cache-Control: a"), some (bytes "X-Token: 1")] := by decide
  rw [hhp', Option.map_some, hsame] at hrun
  revert hrun
  decide

end VarnishCache.Proofs
