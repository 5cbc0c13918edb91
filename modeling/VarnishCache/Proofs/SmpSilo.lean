import VarnishCache.SmpSilo
import VarnishCache.Lib.RingLog
import Mathlib.Tactic

/-!
# Segments in a silo

The segments are a log that wraps around in the space of the silo, as long as no segment is opened when the space up
to the first one is used up to the last byte.
-/

namespace VarnishCache.Proofs

open VarnishCache RingLog

variable {silo : Silo} {sc sc' s : SmpSc} {x l b n : Nat} {o : SmpOp} {e : SiloEvent} {es : List SiloEvent}

lemma irnup_add_irndn_le (hb : 16 ∣ b) (h : x + l ≤ b) : irnup x + irndn l ≤ b := by
  unfold irnup irndn
  omega

lemma le_irnup (x : Nat) : x ≤ irnup x := by
  unfold irnup
  omega

lemma dvd_irnup (x : Nat) : 16 ∣ irnup x := Nat.dvd_mul_left 16 _

lemma dvd_irndn (x : Nat) : 16 ∣ irndn x := Nat.dvd_mul_left 16 _

/-- The length that a new segment gets. -/
def segLength (silo : Silo) : Nat := irndn (silo.aimSegl / 8 * 8)

lemma segLength_ge (silo : Silo) : 128 ≤ segLength silo := by
  have h := silo.aimSegl_ge
  unfold segLength irndn
  omega

/-- A segment where `smp_new_seg` puts one, and not longer. -/
structure Placed (silo : Silo) (p : SmpSegptr) : Prop where
  low : silo.spc ≤ p.offset
  high : p.segend ≤ silo.mediasize
  room : p.offset + segLength silo ≤ silo.mediasize
  align : 16 ∣ p.offset
  align_length : 8 ∣ p.length
  pos : 0 < p.length

/-- Where a segment begins and ends. -/
def span (p : SmpSegptr) : Nat × Nat := (p.offset, p.segend)

def spans (segs : List SmpSegptr) : List (Nat × Nat) := segs.map span

/-- A list of segments that is a log with its free space at `free`. -/
structure SegLog (silo : Silo) (free : Nat) (segs : List SmpSegptr) : Prop where
  log : Log Prod.fst Prod.snd free (spans segs)
  placed : ∀ p ∈ segs, Placed silo p

def segptrs (segs : List SmpSeg) : List SmpSegptr := segs.map (·.p)

/-- The current segment is the last one, and its free space is between `next_bot` and `next_top`. -/
structure CurSeg (sc : SmpSc) (pre : List SmpSeg) (sg : SmpSeg) : Prop where
  last : sc.segments = pre ++ [sg]
  free : sc.freeOffset = sg.p.segend
  align : 16 ∣ sc.nextBot
  bot : sg.p.offset + smpSignSpace ≤ sc.nextBot
  top : sc.nextTop + smpObjectSize * sg.p.lobjlist + smpSignSpace = sg.p.segend

structure SiloInv (silo : Silo) (sc : SmpSc) : Prop where
  segs : SegLog silo sc.freeOffset (segptrs sc.segments)
  free : sc.segments ≠ [] → 8 ∣ sc.freeOffset
  nodup : (sc.segments.map (·.id)).Nodup
  fresh : ∀ sg ∈ sc.segments, sg.id < sc.nextId
  cur : ∀ id, sc.curSeg = some id → ∃ pre sg, sg.id = id ∧ CurSeg sc pre sg
  seg1 : ∃ free, SegLog silo free sc.seg1
  seg2 : ∃ free, SegLog silo free sc.seg2

lemma SegLog.suffix {free : Nat} {segs segs' : List SmpSegptr} (h : SegLog silo free segs) (hs : segs' <:+ segs) :
    SegLog silo free segs' where
  log := h.log.suffix (hs.map span)
  placed := fun p hp => h.placed p (hs.subset hp)

lemma SegLog.nil (free : Nat) : SegLog silo free [] := ⟨Log.nil free, fun _ hp => absurd hp List.not_mem_nil⟩

lemma SegLog.pos {free : Nat} {segs : List SmpSegptr} (h : SegLog silo free segs) : ∀ q ∈ spans segs, q.1 < q.2 := by
  intro q hq
  obtain ⟨p, hp, rfl⟩ := List.mem_map.mp hq
  have hpos := (h.placed p hp).pos
  simp only [span, SmpSegptr.segend]
  omega

/-- Whatever holds of a log holds of the segments. -/
lemma SiloInv.segsApart (h : SiloInv silo sc) : sc.SegsApart silo := by
  refine ⟨?_, ?_⟩
  · intro sg hsg
    have hp := h.segs.placed sg.p (List.mem_map_of_mem hsg)
    exact ⟨hp.low, hp.high⟩
  · have hdis := h.segs.log.disjoint
    rw [spans, segptrs, List.map_map, List.pairwise_map] at hdis
    exact hdis

/-! ## A new segment -/

/-- The place of a new segment and the segment there. -/
lemma newSeg_cases (h : sc.newSeg silo = some sc') : ∃ offset,
    silo.spc ≤ offset ∧ offset + silo.aimSegl / 8 * 8 ≤ silo.mediasize ∧
      (offset = sc.freeOffset ∧ (∀ sg2, sc.segments.head? = some sg2 → offset < sg2.p.offset →
          offset + silo.aimSegl / 8 * 8 ≤ sg2.p.offset) ∨
        offset = silo.spc ∧ silo.mediasize < sc.freeOffset + silo.aimSegl / 8 * 8 ∧
          ∃ sg2, sc.segments.head? = some sg2 ∧ offset + silo.aimSegl / 8 * 8 ≤ sg2.p.offset) ∧
      sc' = { sc with
        segments := sc.segments ++ [⟨sc.nextId, ⟨irnup offset, segLength silo, 0, 0⟩, 0, 0, 0⟩],
        curSeg := some sc.nextId, nextBot := irnup offset + smpSignSpace,
        nextTop := irnup offset + segLength silo - smpSignSpace,
        freeOffset := irnup offset + segLength silo, nextId := sc.nextId + 1 } := by
  unfold SmpSc.newSeg at h
  simp only at h
  split at h
  next => cases h
  next hin =>
    split at h
    next => cases h
    next offset hplace =>
      split at h
      next => cases h
      next hfits =>
        split at h
        next => cases h
        next hroom =>
          cases h
          by_cases hwrap : silo.mediasize < sc.freeOffset + silo.aimSegl / 8 * 8
          · rw [if_pos hwrap] at hplace
            cases hfirst : sc.segments.head? with
            | none =>
              rw [hfirst] at hplace
              cases hplace
            | some sg2 =>
              rw [hfirst] at hplace
              simp only at hplace
              split at hplace
              next => cases hplace
              next hspace =>
                cases hplace
                exact ⟨silo.spc, le_rfl, by omega, Or.inr ⟨rfl, hwrap, sg2, rfl, by omega⟩, rfl⟩
          · rw [if_neg hwrap] at hplace
            cases hplace
            refine ⟨sc.freeOffset, by omega, by omega, Or.inl ⟨rfl, ?_⟩, rfl⟩
            intro sg2 hfirst hlt
            rw [hfirst] at hroom
            simp only [Option.map_some, Option.getD_some, Bool.and_eq_true, decide_eq_true_eq, not_and, not_lt] at hroom
            exact hroom hlt

lemma placed_new {offset : Nat} (hlow : silo.spc ≤ offset) (hfit : offset + silo.aimSegl / 8 * 8 ≤ silo.mediasize) :
    Placed silo ⟨irnup offset, segLength silo, 0, 0⟩ where
  low := hlow.trans (le_irnup offset)
  high := irnup_add_irndn_le silo.mediasize_align hfit
  room := irnup_add_irndn_le silo.mediasize_align hfit
  align := dvd_irnup offset
  align_length := Nat.dvd_trans (by decide) (dvd_irndn _)
  pos := Nat.lt_of_lt_of_le (by decide) (segLength_ge silo)

lemma head?_spans (segs : List SmpSeg) : (spans (segptrs segs)).head? = segs.head?.map (fun sg => span sg.p) := by
  cases segs <;> rfl

/-- A new segment goes between the last one and the first one, when there is space between them. -/
lemma SiloInv.newSeg_log (h : SiloInv silo sc) (hfull : ¬ sc.Full) {offset : Nat} (hlow : silo.spc ≤ offset)
    (hplace : offset = sc.freeOffset ∧ (∀ sg2, sc.segments.head? = some sg2 → offset < sg2.p.offset →
        offset + silo.aimSegl / 8 * 8 ≤ sg2.p.offset) ∨
      offset = silo.spc ∧ silo.mediasize < sc.freeOffset + silo.aimSegl / 8 * 8 ∧
        ∃ sg2, sc.segments.head? = some sg2 ∧ offset + silo.aimSegl / 8 * 8 ≤ sg2.p.offset) :
    Log Prod.fst Prod.snd (irnup offset + segLength silo)
      (spans (segptrs sc.segments) ++ [(irnup offset, irnup offset + segLength silo)]) := by
  have hpos := h.segs.pos
  have hle : ∀ q ∈ spans (segptrs sc.segments), q.1 ≤ q.2 := fun q hq => (hpos q hq).le
  have hfirst : ∀ q, (spans (segptrs sc.segments)).head? = some q → ∃ sg2 ∈ sc.segments, sc.segments.head? = some sg2 ∧
      q = span sg2.p ∧ sg2.p.offset ≠ sc.freeOffset := by
    intro q hq
    rw [head?_spans] at hq
    obtain ⟨sg2, hsg2, rfl⟩ := Option.map_eq_some_iff.mp hq
    refine ⟨sg2, List.mem_of_mem_head? hsg2, hsg2, rfl, ?_⟩
    intro heq
    exact hfull (by rw [SmpSc.Full, hsg2, Option.map_some, heq])
  rcases hplace with ⟨rfl, hroom⟩ | ⟨rfl, hend, sg2, hsg2, hroom⟩
  · refine h.segs.log.append hle (le_irnup _) (Nat.le_add_right _ _) ?_
    intro q hq hfree
    obtain ⟨sg2, hmem, hsg2, rfl, hne⟩ := hfirst q hq
    have hlt : sc.freeOffset < sg2.p.offset := lt_of_le_of_ne hfree hne.symm
    exact irnup_add_irndn_le (h.segs.placed sg2.p (List.mem_map_of_mem hmem)).align (hroom sg2 hsg2 hlt)
  · -- a segment above the free space has a whole length up to the end of the medium, so the log has not wrapped
    have hmem := List.mem_of_mem_head? hsg2
    have hp := h.segs.placed sg2.p (List.mem_map_of_mem hmem)
    have hbelow : sg2.p.offset < sc.freeOffset := by
      have hne : sg2.p.offset ≠ sc.freeOffset := by
        intro heq
        exact hfull (by rw [SmpSc.Full, hsg2, Option.map_some, heq])
      have h8 := h.free (List.ne_nil_of_mem hmem)
      have halign := hp.align
      have hr := hp.room
      have hlen : silo.aimSegl / 8 * 8 ≤ segLength silo + 8 := by
        unfold segLength irndn
        omega
      by_contra hge
      have hle8 : sc.freeOffset + 8 ≤ sg2.p.offset := by omega
      omega
    have hasc := h.segs.log.ascending (by
      intro q hq
      rw [head?_spans, hsg2] at hq
      cases hq
      exact hbelow)
    refine Log.wrap hasc.1 hle ?_
    intro q hq
    rw [head?_spans, hsg2] at hq
    cases hq
    exact irnup_add_irndn_le hp.align hroom

lemma SiloInv.newSeg (h : SiloInv silo sc) (hfull : ¬ sc.Full) (hnew : sc.newSeg silo = some sc') :
    SiloInv silo sc' := by
  obtain ⟨offset, hlow, hfit, hplace, rfl⟩ := newSeg_cases hnew
  have hlen := segLength_ge silo
  have hd : 16 ∣ segLength silo := dvd_irndn _
  have hu := dvd_irnup offset
  refine ⟨⟨?_, ?_⟩, ?_, ?_, ?_, ?_, h.seg1, h.seg2⟩
  · have hlog := h.newSeg_log hfull hlow hplace
    simpa [segptrs, spans, span, SmpSegptr.segend] using hlog
  · intro p hp
    simp only [segptrs, List.map_append, List.map_cons, List.map_nil, List.mem_append, List.mem_singleton] at hp
    rcases hp with hp | rfl
    · exact h.segs.placed p hp
    · exact placed_new hlow hfit
  · intro _
    change 8 ∣ irnup offset + segLength silo
    omega
  · rw [List.map_append, List.map_cons, List.map_nil]
    refine List.nodup_append.mpr ⟨h.nodup, List.nodup_singleton _, ?_⟩
    intro i hi j hj
    obtain ⟨sg, hsg, rfl⟩ := List.mem_map.mp hi
    have hlt := h.fresh sg hsg
    rw [List.mem_singleton.mp hj]
    exact hlt.ne
  · intro sg hsg
    rcases List.mem_append.mp hsg with hsg | hsg
    · exact (h.fresh sg hsg).trans (Nat.lt_succ_self _)
    · rw [List.mem_singleton.mp hsg]
      exact Nat.lt_succ_self _
  · intro id hid
    refine ⟨sc.segments, _, Option.some.inj hid, rfl, rfl, ?_, le_rfl, ?_⟩
    · change 16 ∣ irnup offset + 64
      omega
    · simp only [SmpSegptr.segend, smpSignSpace, smpObjectSize]
      omega

/-! ## Saving the segment list -/

lemma trim_none (segs : List SmpSeg) : SmpSc.trim none segs <:+ segs := by
  induction segs with
  | nil => exact List.suffix_rfl
  | cons sg segs ih =>
    rw [SmpSc.trim]
    split
    · exact List.suffix_rfl
    · exact ih.trans (List.suffix_cons sg segs)

/-- The current segment stays, and is the last one. -/
lemma trim_concat {cur : Nat} {pre : List SmpSeg} {sg : SmpSeg} (hsg : sg.id = cur) (hpre : ∀ s ∈ pre, s.id ≠ cur) :
    ∃ pre', pre' <:+ pre ∧ SmpSc.trim (some cur) (pre ++ [sg]) = pre' ++ [sg] := by
  induction pre with
  | nil =>
    refine ⟨[], List.suffix_rfl, ?_⟩
    rw [List.nil_append, SmpSc.trim]
    split
    · rfl
    · rw [if_pos (by rw [hsg])]
      rfl
  | cons s pre ih =>
    rw [List.cons_append, SmpSc.trim]
    split
    · exact ⟨s :: pre, List.suffix_rfl, rfl⟩
    · have hne : ¬ some s.id = some cur := fun h => hpre s List.mem_cons_self (Option.some.inj h)
      rw [if_neg hne]
      obtain ⟨pre', hsuf, heq⟩ := ih (fun t ht => hpre t (List.mem_cons_of_mem s ht))
      exact ⟨pre', hsuf.trans (List.suffix_cons s pre), heq⟩

lemma nodup_concat {pre : List SmpSeg} {sg : SmpSeg} (h : ((pre ++ [sg]).map (·.id)).Nodup) :
    ∀ s ∈ pre, s.id ≠ sg.id := by
  intro s hs
  rw [List.map_append, List.nodup_append] at h
  exact h.2.2 s.id (List.mem_map_of_mem hs) sg.id (by simp)

/-- What is left of the list when it is saved. -/
lemma SiloInv.trim_cases (h : SiloInv silo sc) : SmpSc.trim sc.curSeg sc.segments <:+ sc.segments ∧
    ∀ id pre sg, sc.curSeg = some id → sg.id = id → CurSeg sc pre sg →
      ∃ pre', SmpSc.trim sc.curSeg sc.segments = pre' ++ [sg] := by
  cases hcur : sc.curSeg with
  | none => exact ⟨trim_none sc.segments, fun _ _ _ hid => absurd hid (by simp)⟩
  | some id =>
    obtain ⟨pre, sg, hid, hc⟩ := h.cur id hcur
    have hnodup := h.nodup
    rw [hc.last] at hnodup ⊢
    obtain ⟨pre', hsuf, heq⟩ := trim_concat hid (fun s hs => hid ▸ nodup_concat hnodup s hs)
    rw [heq]
    refine ⟨?_, ?_⟩
    · obtain ⟨t, ht⟩ := hsuf
      exact ⟨t, by rw [← ht, List.append_assoc]⟩
    · intro id' pre2 sg2 _ _ hc2
      have hsame := hc.last.symm.trans hc2.last
      obtain ⟨-, hsg⟩ := List.append_inj' hsame rfl
      exact ⟨pre', by rw [hsg]⟩

lemma saveSegs_cases (h : sc.saveSegs silo = some sc') : sc' = { sc with
    segments := SmpSc.trim sc.curSeg sc.segments, seg1 := segptrs (SmpSc.trim sc.curSeg sc.segments),
    seg2 := sc.seg1 } := by
  unfold SmpSc.saveSegs at h
  simp only at h
  split at h
  · cases h
    rfl
  · cases h

lemma SiloInv.saveSegs (h : SiloInv silo sc) (hsave : sc.saveSegs silo = some sc') : SiloInv silo sc' := by
  obtain ⟨hsuf, hcur⟩ := h.trim_cases
  have hlog := h.segs.suffix (hsuf.map (·.p))
  rw [saveSegs_cases hsave]
  generalize SmpSc.trim sc.curSeg sc.segments = segs at hsuf hcur hlog ⊢
  refine ⟨hlog, ?_, ?_, ?_, ?_, ⟨_, hlog⟩, h.seg1⟩
  · intro hne
    refine h.free ?_
    intro hnil
    rw [hnil] at hsuf
    exact hne (List.suffix_nil.mp hsuf)
  · exact h.nodup.sublist (hsuf.sublist.map _)
  · exact fun sg hsg => h.fresh sg (hsuf.subset hsg)
  · intro id hid
    obtain ⟨pre, sg, hsg, hc⟩ := h.cur id hid
    obtain ⟨pre', heq⟩ := hcur id pre sg hid hsg hc
    exact ⟨pre', sg, hsg, heq, hc.free, hc.align, hc.bot, hc.top⟩

/-! ## Closing a segment -/

lemma find_last {pre : List SmpSeg} {sg : SmpSeg} (hlast : sc.segments = pre ++ [sg])
    (hne : ∀ s ∈ pre, s.id ≠ sg.id) : sc.find sg.id = some sg := by
  rw [SmpSc.find, hlast, List.find?_append]
  have hnone : pre.find? (fun s => s.id = sg.id) = none := by
    rw [List.find?_eq_none]
    intro s hs
    simpa using hne s hs
  rw [hnone]
  simp

lemma modify_last {pre : List SmpSeg} {sg : SmpSeg} {f : SmpSeg → SmpSeg} (hlast : sc.segments = pre ++ [sg])
    (hne : ∀ s ∈ pre, s.id ≠ sg.id) : sc.modify sg.id f = pre ++ [f sg] := by
  rw [SmpSc.modify, hlast, List.map_append]
  congr 1
  · refine (List.map_congr_left ?_).trans (List.map_id pre)
    intro s hs
    simp [hne s hs]
  · simp

/-- The length of a segment that is closed, after its objects have been moved down if there is space. -/
def closedLength (sc : SmpSc) (p : SmpSegptr) (left : Nat) : Nat :=
  if smpObjectSize * p.lobjlist < left then
    sc.nextBot + smpSignSpace - p.offset + smpObjectSize * p.lobjlist + smpSignSpace
  else p.length

lemma spaceleft_cases {p : SmpSegptr} {left : Nat} (h : sc.spaceleft p = some left) :
    left = sc.nextTop - sc.nextBot - smpSignSpace ∧ sc.nextBot + smpSignSpace ≤ sc.nextTop := by
  unfold SmpSc.spaceleft at h
  split at h
  next hok =>
    cases h
    exact ⟨rfl, hok.2.1⟩
  next => cases h

/-- A segment that is closed does not grow. -/
lemma closedLength_le {pre : List SmpSeg} {sg : SmpSeg} {left : Nat} (hc : CurSeg sc pre sg)
    (hleft : sc.spaceleft sg.p = some left) (halign : 16 ∣ sg.p.offset) (hlen : 8 ∣ sg.p.length) (hpos : 0 < sg.p.length) :
    closedLength sc sg.p left ≤ sg.p.length ∧ 0 < closedLength sc sg.p left ∧ 8 ∣ closedLength sc sg.p left := by
  obtain ⟨rfl, hspace⟩ := spaceleft_cases hleft
  have hbot := hc.bot
  have htop := hc.top
  have hal := hc.align
  simp only [smpSignSpace, smpObjectSize, SmpSegptr.segend] at hspace hbot htop
  unfold closedLength
  simp only [smpSignSpace, smpObjectSize]
  split
  · refine ⟨by omega, by omega, by omega⟩
  · exact ⟨le_rfl, hpos, hlen⟩

/-- The current segment with its length when it is closed. -/
lemma SiloInv.shrink (h : SiloInv silo sc) {pre : List SmpSeg} {sg : SmpSeg} (hc : CurSeg sc pre sg) {left : Nat}
    (hleft : sc.spaceleft sg.p = some left) (top objlist : Nat) :
    SiloInv silo { sc with
      curSeg := none, nextTop := top, freeOffset := sg.p.offset + closedLength sc sg.p left,
      segments := pre ++ [{ sg with p := { sg.p with length := closedLength sc sg.p left, objlist := objlist } }] } := by
  have hmem : sg ∈ sc.segments := by simp [hc.last]
  have hp := h.segs.placed sg.p (List.mem_map_of_mem hmem)
  obtain ⟨hle, hpos, h8⟩ := closedLength_le hc hleft hp.align hp.align_length hp.pos
  have hlog := h.segs.log
  rw [hc.last, hc.free] at hlog
  have hal := hp.align
  refine ⟨⟨?_, ?_⟩, ?_, ?_, ?_, ?_, h.seg1, h.seg2⟩
  · have hlog' : Log Prod.fst Prod.snd sg.p.segend (spans (segptrs pre) ++ [span sg.p]) := by
      simpa [segptrs, spans] using hlog
    have hshrunk := hlog'.shrink (b := (sg.p.offset, sg.p.offset + closedLength sc sg.p left))
      (Nat.lt_add_of_pos_right hp.pos) rfl rfl (Nat.add_le_add_left hle _) (Nat.le_add_right _ _)
    simpa [segptrs, spans, span, SmpSegptr.segend] using hshrunk
  · intro p hmem
    simp only [segptrs, List.map_append, List.map_cons, List.map_nil, List.mem_append, List.mem_singleton] at hmem
    rcases hmem with hmem | rfl
    · refine h.segs.placed p ?_
      rw [hc.last, segptrs, List.map_append]
      exact List.mem_append_left _ hmem
    · have hhigh := hp.high
      simp only [SmpSegptr.segend] at hhigh
      exact ⟨hp.low, by simp only [SmpSegptr.segend]; omega, hp.room, hp.align, h8, hpos⟩
  · intro _
    change 8 ∣ sg.p.offset + closedLength sc sg.p left
    omega
  · have hnodup := h.nodup
    rw [hc.last] at hnodup
    simpa using hnodup
  · have hfresh := h.fresh
    rw [hc.last] at hfresh
    intro s hs
    rcases List.mem_append.mp hs with hs | hs
    · exact hfresh s (List.mem_append_left _ hs)
    · rw [List.mem_singleton.mp hs]
      exact hfresh sg (by simp)
  · intro id hid
    cases hid

/-- With no segments the free space may be anywhere. -/
lemma SiloInv.of_nil (h : SiloInv silo sc) (hnil : sc.segments = []) (hcur : sc.curSeg = none) (free : Nat) :
    SiloInv silo { sc with freeOffset := free } where
  segs := by rw [hnil]; exact SegLog.nil free
  free := fun hne => absurd hnil hne
  nodup := h.nodup
  fresh := h.fresh
  cur := fun id hid => absurd (hcur.symm.trans hid) (by simp)
  seg1 := h.seg1
  seg2 := h.seg2

lemma saveSegs_freeOffset (free : Nat) (h : sc.saveSegs silo = some sc') :
    SmpSc.saveSegs silo { sc with freeOffset := free } = some { sc' with freeOffset := free } := by
  unfold SmpSc.saveSegs at h ⊢
  simp only at h ⊢
  split at h
  next hall =>
    cases h
    rw [if_pos hall]
  next => cases h

/-- What closing does: an empty segment goes away, and another one gets its last length and is saved. -/
lemma closeSeg_cases {stale : Nat} (h : SiloInv silo sc) (hclose : sc.closeSeg silo stale = some sc') :
    ∃ pre sg, CurSeg sc pre sg ∧ (∀ s ∈ pre, s.id ≠ sg.id) ∧
      (sg.nalloc = 0 ∧ sc' = { sc with curSeg := none, segments := pre } ∨
        ∃ left top objlist saved, sc.spaceleft sg.p = some left ∧
          SmpSc.saveSegs silo { sc with
            curSeg := none, nextTop := top, freeOffset := sg.p.offset + closedLength sc sg.p left,
            segments := pre ++ [{ sg with p := { sg.p with length := closedLength sc sg.p left, objlist := objlist } }] } =
            some saved ∧
          sc' = { saved with
            freeOffset := if (saved.find sg.id).isSome then sg.p.offset + closedLength sc sg.p left else stale }) := by
  unfold SmpSc.closeSeg at hclose
  cases hcur : sc.curSeg with
  | none =>
    rw [hcur] at hclose
    cases hclose
  | some id =>
    obtain ⟨pre, sg, rfl, hc⟩ := h.cur id hcur
    have hnodup := h.nodup
    rw [hc.last] at hnodup
    have hne := nodup_concat hnodup
    rw [hcur, Option.bind_some, find_last hc.last hne] at hclose
    refine ⟨pre, sg, hc, hne, ?_⟩
    simp only at hclose
    split at hclose
    next h0 =>
      cases hclose
      refine Or.inl ⟨h0, ?_⟩
      have hfilter : sc.segments.filter (fun s => s.id ≠ sg.id) = pre := by
        rw [hc.last, List.filter_append, List.filter_eq_self.mpr (by simpa using hne)]
        simp
      rw [hfilter]
    next =>
      split at hclose
      next => cases hclose
      next left hleft =>
        right
        obtain ⟨top, htop⟩ : ∃ top, (if smpObjectSize * sg.p.lobjlist < left then
            (sc.nextBot + smpSignSpace,
              sc.nextBot + smpSignSpace - sg.p.offset + smpObjectSize * sg.p.lobjlist + smpSignSpace)
            else (sc.nextTop, sg.p.length)) = (top, closedLength sc sg.p left) := by
          unfold closedLength
          split <;> exact ⟨_, rfl⟩
        rw [htop] at hclose
        simp only [modify_last hc.last hne] at hclose
        split at hclose
        next => cases hclose
        next =>
          split at hclose
          next => cases hclose
          next saved hsave =>
            cases hclose
            refine ⟨left, top - smpSignSpace, top, { saved with freeOffset := sg.p.offset + closedLength sc sg.p left },
              hleft, ?_, ?_⟩
            · exact saveSegs_freeOffset _ hsave
            · rfl

lemma SiloInv.closeSeg {stale : Nat} (h : SiloInv silo sc) (hclose : sc.closeSeg silo stale = some sc') :
    SiloInv silo sc' := by
  obtain ⟨pre, sg, hc, hne, ⟨-, rfl⟩ | ⟨left, top, objlist, saved, hleft, hsave, rfl⟩⟩ := closeSeg_cases h hclose
  · have hsub : pre.Sublist sc.segments := by
      rw [hc.last]
      exact List.sublist_append_left pre [sg]
    have hlog := h.segs.log
    rw [hc.last, segptrs, List.map_append, spans, List.map_append] at hlog
    refine ⟨⟨hlog.dropLast, ?_⟩, ?_, h.nodup.sublist (hsub.map _), fun s hs => h.fresh s (hsub.subset hs), ?_, h.seg1,
      h.seg2⟩
    · exact fun p hp => h.segs.placed p ((hsub.map (·.p)).subset hp)
    · intro _
      refine h.free ?_
      rw [hc.last]
      exact List.append_ne_nil_of_right_ne_nil pre (List.cons_ne_nil sg [])
    · intro id hid
      cases hid
  · have hsaved := (h.shrink hc hleft top objlist).saveSegs hsave
    have heq := saveSegs_cases hsave
    split
    next =>
      have hfree : saved.freeOffset = sg.p.offset + closedLength sc sg.p left := by rw [heq]
      rw [← hfree]
      exact hsaved
    next hnone =>
      -- only when everything in front of it has gone does the closed segment go
      have hnil : saved.segments = [] := by
        have hsuf : saved.segments <:+ pre ++ [{ sg with p := { sg.p with
            length := closedLength sc sg.p left, objlist := objlist } }] := by
          rw [heq]
          exact trim_none _
        rcases List.eq_nil_or_concat saved.segments with hnil | ⟨init, last, hlast⟩
        · exact hnil
        · exfalso
          obtain ⟨t, ht⟩ := hsuf
          rw [hlast, List.concat_eq_append, ← List.append_assoc] at ht
          obtain ⟨-, hsg⟩ := List.append_inj' ht rfl
          refine hnone ?_
          rw [SmpSc.find, List.find?_isSome]
          refine ⟨last, by simp [hlast], ?_⟩
          obtain rfl : last = _ := List.singleton_injective hsg
          simp
      exact hsaved.of_nil hnil (by rw [heq]) stale

lemma SiloInv.sync {stale : Nat} (h : SiloInv silo sc) (hfull : ∀ closed, sc.closeSeg silo stale = some closed →
    ¬ closed.Full) (hsync : sc.sync silo stale = some sc') : SiloInv silo sc' := by
  obtain ⟨closed, hclose, hnew⟩ := Option.bind_eq_some_iff.mp hsync
  exact (h.closeSeg hclose).newSeg (hfull closed hclose) hnew

/-! ## Allocating -/

lemma SiloInv.allocTries {need tries left left' : Nat} {stale : Nat → Nat} (h : SiloInv silo sc)
    (hfull : ∀ s ∈ SmpSc.triesNewSegs silo need stale tries sc, ¬ s.Full)
    (hrun : SmpSc.allocTries silo need stale tries sc left = some (sc', left')) : SiloInv silo sc' := by
  induction tries generalizing sc left with
  | zero =>
    cases hrun
    exact h
  | succ tries ih =>
    rw [SmpSc.allocTries] at hrun
    rw [SmpSc.triesNewSegs] at hfull
    cases hcur : sc.curSeg.bind sc.find with
    | none =>
      rw [hcur] at hrun
      cases hrun
    | some sg =>
      rw [hcur] at hrun hfull
      simp only [Option.bind_some] at hrun hfull
      cases hleft : sc.spaceleft sg.p with
      | none =>
        rw [hleft] at hrun
        cases hrun
      | some l =>
        rw [hleft] at hrun hfull
        simp only at hrun hfull
        by_cases hneed : need ≤ l
        · rw [if_pos hneed] at hrun
          cases hrun
          exact h
        · rw [if_neg hneed] at hrun hfull
          cases hsync : sc.sync silo (stale tries) with
          | none =>
            rw [hsync] at hrun
            cases hrun
          | some sc1 =>
            rw [hsync] at hrun
            obtain ⟨closed, hclose, hnew⟩ := Option.bind_eq_some_iff.mp hsync
            rw [hclose] at hfull
            simp only [hnew, Option.map_some, Option.getD_some] at hfull
            have hnot : ¬ closed.Full := hfull closed List.mem_cons_self
            exact ih ((h.closeSeg hclose).newSeg hnot hnew) (fun s hs => hfull s (List.mem_cons_of_mem closed hs)) hrun

/-- The current segment is given out from both ends. -/
lemma SiloInv.take (h : SiloInv silo sc) {pre : List SmpSeg} {sg : SmpSeg} (hc : CurSeg sc pre sg)
    (hcur : sc.curSeg = some sg.id) {bot top n : Nat} (hbot : 16 ∣ bot)
    (htop : top + smpObjectSize * n = sc.nextTop) :
    SiloInv silo { sc with
      nextBot := sc.nextBot + bot, nextTop := top,
      segments := pre ++ [{ sg with p := { sg.p with lobjlist := sg.p.lobjlist + n }, nalloc := sg.nalloc + 1 }] } := by
  have hptrs : spans (segptrs (pre ++ [{ sg with
      p := { sg.p with lobjlist := sg.p.lobjlist + n }, nalloc := sg.nalloc + 1 }])) = spans (segptrs sc.segments) := by
    rw [hc.last]
    simp [segptrs, spans, span, SmpSegptr.segend]
  have hmem : sg ∈ sc.segments := by simp [hc.last]
  have hp := h.segs.placed sg.p (List.mem_map_of_mem hmem)
  refine ⟨⟨by rw [hptrs]; exact h.segs.log, ?_⟩, ?_, ?_, ?_, ?_, h.seg1, h.seg2⟩
  · intro p hmem
    simp only [segptrs, List.map_append, List.map_cons, List.map_nil, List.mem_append, List.mem_singleton] at hmem
    rcases hmem with hmem | rfl
    · refine h.segs.placed p ?_
      rw [hc.last, segptrs, List.map_append]
      exact List.mem_append_left _ hmem
    · exact ⟨hp.low, hp.high, hp.room, hp.align, hp.align_length, hp.pos⟩
  · intro _
    exact h.free (List.ne_nil_of_mem hmem)
  · have hnodup := h.nodup
    rw [hc.last] at hnodup
    simpa using hnodup
  · have hfresh := h.fresh
    rw [hc.last] at hfresh
    intro s hs
    rcases List.mem_append.mp hs with hs | hs
    · exact hfresh s (List.mem_append_left _ hs)
    · rw [List.mem_singleton.mp hs]
      exact hfresh sg (by simp)
  · intro id hid
    refine ⟨pre, { sg with p := { sg.p with lobjlist := sg.p.lobjlist + n }, nalloc := sg.nalloc + 1 },
      Option.some.inj (hcur.symm.trans hid), rfl, hc.free, ?_, ?_, ?_⟩
    · exact Nat.dvd_add hc.align hbot
    · exact hc.bot.trans (Nat.le_add_right _ _)
    · have htop' := hc.top
      simp only [SmpSegptr.segend] at htop' ⊢
      rw [← htop', ← htop]
      ring

/-- `smp_allocx` after its tries: no space, or a piece from the bottom, and a record from the top if there is an
object. -/
lemma allocx_cases {minSize maxSize : Nat} {so : Bool} {stale : Nat → Nat} {r : Option Nat}
    (halloc : sc.allocx silo minSize maxSize so stale = some (sc', r)) : ∃ sc1 left,
      SmpSc.allocTries silo (silo.storageSize + (if so then smpObjectSize else 0) + irnup minSize) stale 3 sc 0 =
        some (sc1, left) ∧
      (sc' = sc1 ∧ r = none ∨ ∃ sg bot, sc1.curSeg.bind sc1.find = some sg ∧ 16 ∣ bot ∧
        smpObjectSize * so.toNat ≤ sc1.nextTop ∧ r = some sg.id ∧ sc' = { sc1 with
          nextBot := sc1.nextBot + bot, nextTop := sc1.nextTop - smpObjectSize * so.toNat,
          segments := sc1.modify sg.id (fun s =>
            { s with p := { sg.p with lobjlist := sg.p.lobjlist + so.toNat }, nalloc := s.nalloc + 1 }) }) := by
  have hmax : ∀ left extra : Nat, 16 ∣ (if left < extra + irnup maxSize then irndn (left - extra) else irnup maxSize) := by
    intro left extra
    split
    · exact dvd_irndn _
    · exact dvd_irnup _
  unfold SmpSc.allocx at halloc
  simp only at halloc
  generalize silo.storageSize + (if so then smpObjectSize else 0) = extra at halloc ⊢
  cases htries : SmpSc.allocTries silo (extra + irnup minSize) stale 3 sc 0 with
  | none =>
    rw [htries] at halloc
    cases halloc
  | some q =>
    obtain ⟨sc1, left⟩ := q
    refine ⟨sc1, left, rfl, ?_⟩
    rw [htries] at halloc
    simp only at halloc
    by_cases hleft : left < extra + irnup minSize
    · rw [if_pos hleft] at halloc
      cases halloc
      exact Or.inl ⟨rfl, rfl⟩
    · rw [if_neg hleft] at halloc
      right
      cases hfind : sc1.curSeg.bind sc1.find with
      | none =>
        rw [hfind] at halloc
        cases halloc
      | some sg =>
        rw [hfind] at halloc
        simp only at halloc
        refine ⟨sg, (if left < extra + irnup maxSize then irndn (left - extra) else irnup maxSize) + silo.storageSize, rfl,
          Nat.dvd_add (hmax left extra) silo.storageSize_align, ?_⟩
        cases so with
        | true =>
          simp only [if_true] at halloc
          split at halloc
          next => cases halloc
          next hspace =>
            cases halloc
            have htop := (spaceleft_cases hspace).2
            simp only [smpSignSpace, smpObjectSize] at htop
            refine ⟨?_, rfl, by simp only [← Nat.add_assoc]; rfl⟩
            change 56 * _ ≤ sc1.nextTop
            simp only [Bool.toNat_true]
            omega
        | false =>
          simp only [Bool.false_eq_true, if_false] at halloc
          split at halloc
          next => cases halloc
          next =>
            cases halloc
            refine ⟨?_, rfl, by simp only [← Nat.add_assoc]; rfl⟩
            exact Nat.zero_le _

lemma SiloInv.allocx {minSize maxSize : Nat} {so : Bool} {stale : Nat → Nat} {r : Option Nat} (h : SiloInv silo sc)
    (hfull : ∀ s ∈ SmpSc.triesNewSegs silo (silo.storageSize + (if so then smpObjectSize else 0) + irnup minSize) stale 3
      sc, ¬ s.Full)
    (halloc : sc.allocx silo minSize maxSize so stale = some (sc', r)) : SiloInv silo sc' := by
  obtain ⟨sc1, left, htries, ⟨rfl, -⟩ | ⟨sg, bot, hfind, hbot, htop, -, rfl⟩⟩ := allocx_cases halloc
  · exact h.allocTries hfull htries
  · have h1 := h.allocTries hfull htries
    obtain ⟨id, hcur, hsg⟩ := Option.bind_eq_some_iff.mp hfind
    obtain ⟨pre, sg2, rfl, hc⟩ := h1.cur id hcur
    have hnodup := h1.nodup
    rw [hc.last] at hnodup
    have hne := nodup_concat hnodup
    obtain rfl : sg2 = sg := Option.some.inj ((find_last hc.last hne).symm.trans hsg)
    rw [modify_last hc.last hne]
    exact h1.take hc hcur hbot (Nat.sub_add_cancel htop)

/-! ## Objects -/

/-- Counting objects moves nothing. -/
lemma SiloInv.modify {id : Nat} {f : SmpSeg → SmpSeg} (h : SiloInv silo sc) (hid : ∀ s, (f s).id = s.id)
    (hp : ∀ s, (f s).p = s.p) : SiloInv silo { sc with segments := sc.modify id f } := by
  have hpick : ∀ s, (if s.id = id then f s else s).p = s.p ∧ (if s.id = id then f s else s).id = s.id := by
    intro s
    split
    · exact ⟨hp s, hid s⟩
    · exact ⟨rfl, rfl⟩
  have hptrs : segptrs (sc.modify id f) = segptrs sc.segments := by
    rw [segptrs, SmpSc.modify, List.map_map]
    exact List.map_congr_left (fun s _ => (hpick s).1)
  have hids : (sc.modify id f).map (·.id) = sc.segments.map (·.id) := by
    rw [SmpSc.modify, List.map_map]
    exact List.map_congr_left (fun s _ => (hpick s).2)
  refine ⟨by rw [hptrs]; exact h.segs, ?_, by rw [hids]; exact h.nodup, ?_, ?_, h.seg1, h.seg2⟩
  · intro hne
    refine h.free ?_
    intro hnil
    exact hne (by simp [SmpSc.modify, hnil])
  · intro sg hsg
    obtain ⟨s, hs, rfl⟩ := List.mem_map.mp hsg
    rw [(hpick s).2]
    exact h.fresh s hs
  · intro id' hcur
    obtain ⟨pre, sg, hsg, hc⟩ := h.cur id' hcur
    refine ⟨pre.map (fun s => if s.id = id then f s else s), if sg.id = id then f sg else sg, (hpick sg).2.trans hsg, ?_⟩
    refine ⟨by simp [SmpSc.modify, hc.last], ?_, hc.align, ?_, ?_⟩
    · rw [(hpick sg).1]
      exact hc.free
    · rw [(hpick sg).1]
      exact hc.bot
    · rw [(hpick sg).1]
      exact hc.top

/-! ## Opening -/

variable {free : Nat} {segs : List SmpSegptr}

lemma dropEnd_suffix (reserve : Nat) (se : SmpSegptr) (l : Nat) (segs : List SmpSegptr) :
    (dropEnd reserve se l segs).2 <:+ segs := by
  induction segs generalizing l with
  | nil => exact List.suffix_rfl
  | cons ss segs ih =>
    cases segs with
    | nil => exact List.suffix_rfl
    | cons s2 segs =>
      rw [dropEnd]
      split
      · split
        · exact List.suffix_rfl
        · exact (ih _).trans (List.suffix_cons ss _)
      · exact List.suffix_rfl

lemma dropFront_suffix (reserve spc l : Nat) (segs : List SmpSegptr) : (dropFront reserve spc l segs).2 <:+ segs := by
  induction segs generalizing l with
  | nil => exact List.suffix_rfl
  | cons ss segs ih =>
    cases segs with
    | nil => exact List.suffix_rfl
    | cons s2 segs =>
      rw [dropFront]
      split
      · exact List.suffix_rfl
      · exact (ih _).trans (List.suffix_cons ss _)

/-- Where `dropEnd` ends without enough space, the first segment left is not above the last one. -/
lemma dropEnd_head {reserve : Nat} {se : SmpSegptr} (hlast : segs.getLast? = some se) (l : Nat)
    (hl : (dropEnd reserve se l segs).1 < reserve) :
    ∃ ss, (dropEnd reserve se l segs).2.head? = some ss ∧ ss.offset ≤ se.offset := by
  induction segs generalizing l with
  | nil => cases hlast
  | cons ss segs ih =>
    cases segs with
    | nil =>
      obtain rfl : ss = se := by simpa using hlast
      exact ⟨ss, rfl, le_rfl⟩
    | cons s2 segs =>
      rw [dropEnd] at hl ⊢
      split at hl
      next habove =>
        rw [if_pos habove]
        split at hl
        next hbig =>
          simp only at hl
          omega
        next hsmall =>
          rw [if_neg hsmall]
          exact ih (by simpa using hlast) _ hl
      next hbelow =>
        rw [if_neg hbelow]
        exact ⟨ss, rfl, by omega⟩

lemma getLast?_suffix {segs' : List SmpSegptr} {ss se : SmpSegptr} (hs : segs' <:+ segs)
    (hlast : segs.getLast? = some se)
    (hne : segs'.head? = some ss) : segs'.getLast? = some se := by
  obtain ⟨t, rfl⟩ := hs
  rw [List.getLast?_append] at hlast
  cases segs' with
  | nil => cases hne
  | cons s segs' =>
    rw [List.getLast?_cons] at hlast ⊢
    simpa using hlast

/-- The segments above the free space at the beginning of the silo. -/
lemma SegLog.front (h : SegLog silo free segs) {ss se : SmpSegptr} (hfirst : segs.head? = some ss)
    (hlast : segs.getLast? = some se) (hle : ss.offset ≤ se.offset) : SegLog silo silo.spc segs := by
  have hasc : Ascending Prod.fst Prod.snd (spans segs) := by
    refine h.log.ascending_of_le h.pos (b := span ss) (a := span se) ?_ ?_ hle
    · rw [spans, List.head?_map, hfirst]
      rfl
    · rw [spans, List.getLast?_map, hlast]
      rfl
  refine ⟨⟨spans segs, [], by simp, hasc, List.Pairwise.nil, ?_, fun _ hb => absurd hb List.not_mem_nil⟩, h.placed⟩
  intro q hq
  obtain ⟨p, hp, rfl⟩ := List.mem_map.mp hq
  exact (h.placed p hp).low

lemma SegLog.behind (h : SegLog silo free segs) {se : SmpSegptr} (hlast : segs.getLast? = some se) :
    SegLog silo se.segend segs := by
  obtain ⟨init, rfl⟩ := List.getLast?_eq_some_iff.mp hlast
  have hlog := h.log
  have hpos := h.pos
  rw [spans, List.map_append] at hlog hpos
  refine ⟨?_, h.placed⟩
  rw [spans, List.map_append]
  exact hlog.behindLast hpos

/-- `smp_open_segs` keeps the end of a table, with the free space behind it or at the beginning of the silo. -/
lemma SegLog.openSegs {table : List SmpSegptr} {free' : Nat} (h : SegLog silo free table)
    (hopen : smpOpenSegs silo table = some (segs, free')) : SegLog silo free' segs ∧ 8 ∣ free' := by
  have hspc := silo.spc_align
  cases table with
  | nil =>
    cases hopen
    exact ⟨SegLog.nil _, by omega⟩
  | cons ss table =>
    obtain ⟨se, hlast⟩ : ∃ se, (ss :: table).getLast? = some se := ⟨_, List.getLast?_eq_some_getLast (by simp)⟩
    unfold smpOpenSegs at hopen
    rw [hlast] at hopen
    simp only at hopen
    -- what the first part leaves, and that it has wrapped no more where that is not enough
    obtain ⟨l1, segs1, hpart, hsuf, hhead⟩ : ∃ l1 segs1,
        (if ss.offset < se.offset ∧ silo.freeReserve ≤ silo.mediasize - se.segend then
          (silo.mediasize - se.segend, ss :: table)
        else if se.offset < ss.offset then
          dropEnd silo.freeReserve se (silo.mediasize - se.segend) (ss :: table)
        else (silo.mediasize - se.segend, ss :: table)) = (l1, segs1) ∧ segs1 <:+ ss :: table ∧
        (l1 < silo.freeReserve → ∃ s, segs1.head? = some s ∧ s.offset ≤ se.offset) := by
      split
      next hplenty => exact ⟨_, _, rfl, List.suffix_rfl, fun hl => absurd hl (by omega)⟩
      next =>
        split
        next => exact ⟨_, _, rfl, dropEnd_suffix _ _ _ _, dropEnd_head hlast _⟩
        next hle => exact ⟨_, _, rfl, List.suffix_rfl, fun _ => ⟨ss, rfl, by omega⟩⟩
    rw [hpart] at hopen
    simp only at hopen
    have hp := h.placed se (List.mem_of_getLast? hlast)
    have hal := hp.align
    have hal' := hp.align_length
    by_cases hsmall : l1 < silo.freeReserve
    · obtain ⟨s, hs, hle⟩ := hhead hsmall
      have hfront := (h.suffix hsuf).front hs (getLast?_suffix hsuf hlast hs) hle
      have hkept := hfront.suffix (dropFront_suffix silo.freeReserve silo.spc l1 segs1)
      rw [if_pos hsmall] at hopen
      simp only at hopen
      generalize dropFront silo.freeReserve silo.spc l1 segs1 = r at hopen hkept
      split at hopen
      next => cases hopen
      next =>
        split at hopen
        next => cases hopen
        next sg1 segs2 heq =>
          split at hopen
          next =>
            cases hopen
            rw [← heq]
            exact ⟨hkept, by omega⟩
          next => cases hopen
    · have hkept := (h.behind hlast).suffix hsuf
      rw [if_neg hsmall] at hopen
      simp only at hopen
      split at hopen
      next => cases hopen
      next =>
        split at hopen
        next => cases hopen
        next sg1 segs2 =>
          split at hopen
          next =>
            cases hopen
            refine ⟨hkept, ?_⟩
            simp only [SmpSegptr.segend]
            omega
          next => cases hopen

lemma openRecords_segptrs (segs : List SmpSegptr) : segptrs (openRecords segs) = segs := by
  rw [segptrs, openRecords, List.map_map]
  exact List.zipIdx_map_fst 0 segs

lemma openRecords_id (segs : List SmpSegptr) : (openRecords segs).map (·.id) = List.range segs.length := by
  rw [openRecords, List.map_map]
  exact (List.zipIdx_map_snd 0 segs).trans (List.range_eq_range' ).symm

lemma opened_inv {free1 free2 : Nat} {seg1 seg2 : List SmpSegptr} (h : SegLog silo free segs) (h8 : 8 ∣ free)
    (h1 : SegLog silo free1 seg1) (h2 : SegLog silo free2 seg2) :
    SiloInv silo (SmpSc.opened segs free seg1 seg2) where
  segs := by
    change SegLog silo free (segptrs (openRecords segs))
    rw [openRecords_segptrs]
    exact h
  free := fun _ => h8
  nodup := by
    change ((openRecords segs).map (·.id)).Nodup
    rw [openRecords_id]
    exact List.nodup_range
  fresh := by
    intro sg hsg
    have hmem : sg.id ∈ (openRecords segs).map (·.id) := List.mem_map_of_mem hsg
    rw [openRecords_id] at hmem
    exact List.mem_range.mp hmem
  cur := fun id hid => absurd hid (by simp [SmpSc.opened])
  seg1 := ⟨free1, h1⟩
  seg2 := ⟨free2, h2⟩

lemma openSilo_inv {table seg1 seg2 : List SmpSegptr} (ht : ∃ free, SegLog silo free table)
    (h1 : ∃ free, SegLog silo free seg1) (h2 : ∃ free, SegLog silo free seg2)
    (hopen : SmpSc.openSilo silo table seg1 seg2 = some sc) : SiloInv silo sc := by
  obtain ⟨⟨segs, free⟩, hsegs, rfl⟩ := Option.map_eq_some_iff.mp hopen
  obtain ⟨_, ht⟩ := ht
  obtain ⟨_, h1⟩ := h1
  obtain ⟨_, h2⟩ := h2
  obtain ⟨hlog, h8⟩ := ht.openSegs hsegs
  exact opened_inv hlog h8 h1 h2

lemma SiloInv.op (h : SiloInv silo sc) {o : SmpOp} (hfull : ∀ s ∈ sc.newSegs silo o, ¬ s.Full)
    (hop : sc.op silo o = some sc') : SiloInv silo sc' := by
  cases o with
  | alloc minSize maxSize so stale =>
    simp only [SmpSc.op] at hop
    split at hop
    next =>
      obtain ⟨⟨sc1, r⟩, halloc, rfl⟩ := Option.map_eq_some_iff.mp hop
      exact h.allocx hfull halloc
    next => cases hop
  | sync stale =>
    refine h.sync ?_ hop
    intro closed hclose
    exact hfull closed (by simp [SmpSc.newSegs, hclose])
  | countObj id =>
    simp only [SmpSc.op, SmpSc.countObj] at hop
    split at hop
    next =>
      cases hop
      exact h.modify (fun _ => rfl) (fun _ => rfl)
    next => cases hop
  | freeobj id =>
    simp only [SmpSc.op, SmpSc.freeobj] at hop
    split at hop
    next => cases hop
    next =>
      split at hop
      next => cases hop
      next =>
        cases hop
        exact h.modify (fun _ => rfl) (fun _ => rfl)
  | loadSeg id nobj nfixed =>
    simp only [SmpSc.op, SmpSc.loadSeg] at hop
    split at hop
    next =>
      cases hop
      exact h.modify (fun _ => rfl) (fun _ => rfl)
    next => cases hop
  | saveSegs => exact h.saveSegs hop
  | reopen second =>
    obtain ⟨opened, hopen, hnew⟩ := Option.bind_eq_some_iff.mp hop
    have htable : ∃ free, SegLog silo free (sc.table second) := by
      cases second
      · exact h.seg1
      · exact h.seg2
    exact (openSilo_inv htable h.seg1 h.seg2 hopen).newSeg (hfull opened (by simp [SmpSc.newSegs, hopen])) hnew

lemma fresh_inv (h : SmpSc.fresh silo = some sc) : SiloInv silo sc := by
  obtain ⟨opened, hopen, hnew⟩ := Option.bind_eq_some_iff.mp h
  have hnil : ∃ free, SegLog silo free [] := ⟨0, SegLog.nil 0⟩
  have hinv := openSilo_inv hnil hnil hnil hopen
  refine hinv.newSeg ?_ hnew
  obtain ⟨r, hr, rfl⟩ := Option.map_eq_some_iff.mp hopen
  cases hr
  simp [SmpSc.Full, SmpSc.opened, openRecords]

/-! ## Runs -/

/-- No `smp_new_seg` that an event gets through is called when `free_offset` is at the first segment. -/
def EventSafe (silo : Silo) (sc : SmpSc) (e : SiloEvent) : Prop :=
  (∀ s ∈ sc.passed silo e, ¬ s.Full) ∧ ∀ r ∈ sc.before silo e, ∀ s ∈ r.1.newSegs silo r.2, ¬ s.Full

instance (silo : Silo) (sc : SmpSc) (e : SiloEvent) : Decidable (EventSafe silo sc e) :=
  inferInstanceAs (Decidable (_ ∧ _))

/-- No event of a run opens a segment when `free_offset` is at the first segment. -/
def NeverFull (silo : Silo) : SmpSc → List SiloEvent → Prop
  | _, [] => True
  | sc, e :: es => EventSafe silo sc e ∧ ∀ sc', sc.event silo e = some sc' → NeverFull silo sc' es

instance NeverFull.instDecidable (silo : Silo) : ∀ sc es, Decidable (NeverFull silo sc es)
  | _, [] => .isTrue trivial
  | sc, e :: es =>
    match h : sc.event silo e with
    | none => decidable_of_iff (EventSafe silo sc e) (by simp [NeverFull, h])
    | some sc' =>
      have : Decidable (NeverFull silo sc' es) := NeverFull.instDecidable silo sc' es
      decidable_of_iff (EventSafe silo sc e ∧ NeverFull silo sc' es) (by simp [NeverFull, h])

/-- A try of `smp_allocx` is stopped. -/
lemma SiloInv.triesNewSegs {need tries : Nat} {stale : Nat → Nat} (h : SiloInv silo sc)
    (hfull : ∀ s ∈ (SmpSc.triesNewSegs silo need stale tries sc).take n, ¬ s.Full)
    (hs : (SmpSc.triesNewSegs silo need stale tries sc)[n]? = some s) : SiloInv silo s := by
  induction tries generalizing sc n with
  | zero => cases hs
  | succ tries ih =>
    rw [SmpSc.triesNewSegs] at hs hfull
    cases hleft : (sc.curSeg.bind sc.find).bind fun sg => sc.spaceleft sg.p with
    | none =>
      rw [hleft] at hs
      cases hs
    | some left =>
      rw [hleft] at hs hfull
      dsimp only at hs hfull
      by_cases hneed : need ≤ left
      · rw [if_pos hneed] at hs
        cases hs
      · rw [if_neg hneed] at hs hfull
        cases hclose : sc.closeSeg silo (stale tries) with
        | none =>
          rw [hclose] at hs
          cases hs
        | some closed =>
          rw [hclose] at hs hfull
          dsimp only at hs hfull
          cases n with
          | zero =>
            obtain rfl : closed = s := Option.some.inj hs
            exact h.closeSeg hclose
          | succ n =>
            rw [List.getElem?_cons_succ] at hs
            rw [List.take_succ_cons] at hfull
            cases hnew : closed.newSeg silo with
            | none =>
              rw [hnew] at hs
              cases hs
            | some sc1 =>
              rw [hnew] at hs hfull
              have hopened := (h.closeSeg hclose).newSeg (hfull closed List.mem_cons_self) hnew
              exact ih hopened (fun s hmem => hfull s (List.mem_cons_of_mem _ hmem)) hs

lemma mem_toList_of_getElem {x : Option SmpSc} (hs : x.toList[n]? = some s) : x = some s := by
  cases x with
  | none => cases hs
  | some a =>
    cases n with
    | zero => exact hs
    | succ n => cases hs

/-- An operation is stopped where it calls `smp_new_seg`. -/
lemma SiloInv.newSegs (h : SiloInv silo sc) (hfull : ∀ s ∈ (sc.newSegs silo o).take n, ¬ s.Full)
    (hs : (sc.newSegs silo o)[n]? = some s) : SiloInv silo s := by
  cases o with
  | alloc minSize maxSize so stale => exact h.triesNewSegs hfull hs
  | sync stale => exact h.closeSeg (mem_toList_of_getElem hs)
  | reopen second =>
    have htable : ∃ free, SegLog silo free (sc.table second) := by
      cases second
      · exact h.seg1
      · exact h.seg2
    exact openSilo_inv htable h.seg1 h.seg2 (mem_toList_of_getElem hs)
  | _ => cases hs

lemma SiloInv.before {r : SmpSc × SmpOp} (h : SiloInv silo sc)
    (hfull : ∀ s ∈ sc.passed silo e, ¬ s.Full)
    (hr : sc.before silo e = some r) : SiloInv silo r.1 := by
  cases e with
  | op o =>
    cases hr
    exact h
  | stop o n second =>
    obtain ⟨s, hs, rfl⟩ := Option.map_eq_some_iff.mp hr
    exact h.newSegs hfull hs

lemma SiloInv.event (h : SiloInv silo sc) (hsafe : EventSafe silo sc e) (hevent : sc.event silo e = some sc') :
    SiloInv silo sc' := by
  obtain ⟨r, hr, hop⟩ := Option.bind_eq_some_iff.mp hevent
  exact (h.before hsafe.1 hr).op (hsafe.2 r hr) hop

lemma SiloInv.run (h : SiloInv silo sc) (hsafe : NeverFull silo sc es) (hrun : sc.run silo es = some sc') :
    SiloInv silo sc' := by
  induction es generalizing sc with
  | nil =>
    cases hrun
    exact h
  | cons e es ih =>
    obtain ⟨sc1, hevent, hrest⟩ := Option.bind_eq_some_iff.mp hrun
    exact ih (h.event hsafe.1 hevent) (hsafe.2 sc1 hevent) hrest

/-- In a run from a new silo, with allocations, syncs, frees, saves and reopenings, also from where a call of
`smp_new_seg` ends the process, in which no segment is opened when the free space has ended exactly at the first
segment, all segments are inside the silo and apart; and so they are where `smp_new_seg` is called next. -/
theorem segs_apart_runs (silo : Silo) {sc sc' : SmpSc} {es : List SiloEvent} (hfresh : SmpSc.fresh silo = some sc)
    (hfull : NeverFull silo sc es) (hrun : sc.run silo es = some sc') :
    sc'.SegsApart silo ∧ ∀ e, (∀ s ∈ sc'.passed silo e, ¬ s.Full) → ∀ r ∈ sc'.before silo e, r.1.SegsApart silo := by
  have h := (fresh_inv hfresh).run hfull hrun
  exact ⟨h.segsApart, fun e hpassed r hr => (h.before hpassed hr).segsApart⟩

/-- A silo that is just large enough: four tables of a megabyte and four pages of space. -/
def smallSilo : Silo where
  spc := 4198400
  mediasize := 4214784
  aimSegl := 741
  freeReserve := 7410
  storageSize := 64
  spc_pos := by decide
  spc_align := by decide
  mediasize_align := by decide
  storageSize_align := by decide
  aimSegl_ge := by decide

/-- Two segments keep their objects, one near the end of the silo and one behind the wrap, until there is no space
between them. -/
def wrapOps : List SmpOp :=
  List.replicate 14 (.sync 0) ++ [.alloc 16 16 true (fun _ => 0), .countObj 14] ++ List.replicate 8 (.sync 0) ++
    [.alloc 16 16 true (fun _ => 0), .countObj 22] ++ List.replicate 13 (.sync 0)

/-- `smp_new_seg` ends the process, and the silo is opened again. -/
def restartRun : List SiloEvent := [.stop (.sync 0) 0 false, .op (.loadSeg 1 1 1), .op (.freeobj 1), .op .saveSegs]

theorem segs_apart_runs_restart : ∃ sc sc', SmpSc.fresh smallSilo = some sc ∧
    (sc.run smallSilo (wrapOps.map .op)).bind (fun sc => sc.sync smallSilo 0) = none ∧
    sc.run smallSilo (wrapOps.map .op ++ restartRun) = some sc' ∧
    sc'.segments.map (fun sg => (sg.p.offset, sg.p.length)) = [(4208704, 328), (4198400, 328), (4198736, 736)] ∧
    sc'.SegsApart smallSilo :=
  ⟨_, _, rfl, rfl, rfl, rfl,
    (segs_apart_runs smallSilo rfl (by decide : NeverFull smallSilo _ (wrapOps.map .op ++ restartRun)) rfl).1⟩

def roundOps : List SmpOp := [.sync 0, .sync 0, .alloc 16 16 true (fun _ => 0), .countObj 2] ++ List.replicate 22 (.sync 0)

/-- The first segments are empty. The next one keeps its object, the log goes round the silo and stops where this
segment begins, and the next segment is put over it. -/
theorem segs_overlap_when_full :
    ((SmpSc.fresh smallSilo).bind (fun sc => sc.run smallSilo (roundOps.map .op))).any
      (fun sc => !decide (sc.SegsApart smallSilo)) = true := by
  decide

end VarnishCache.Proofs
