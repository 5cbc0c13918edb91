import VarnishCache.Lib.Fallible
import VarnishCache.Proofs.HttpDissect

/-!
# Where `http_dissect_hdrs` stops

It stops at the first line that is empty for it, and that can come before the empty line that `htc_header_complete` has
found. And it clears white space behind `t.e` when the last run of white space is a fold.
-/

namespace VarnishCache.Proofs

variable {b w x A P R T U V Y Z S txt : List UInt8} {k : Bool} {y : UInt8} {fs : List Txt}

/-! ## The first line break of a run -/

/-- There is a line break in the white space at the end. -/
def inRun (A : List UInt8) : Bool := (trimBlanks A).getLast?.any vctIscrlf

/-- An empty line, and something behind it that does not continue it. -/
def StopsAt (R : List UInt8) : Prop := ∃ b Z, R = b ++ Z ∧ IsBreak b Z ∧ Z ≠ [] ∧ headBlank Z = false

/-- The first line break of a run of white space has such an empty line behind it. -/
def StopsIn (R : List UInt8) : Prop := ∃ A b Z, R = A ++ (b ++ Z) ∧ inRun A = false ∧ IsBreak b Z ∧ StopsAt Z

def EarlyStop (R : List UInt8) : Prop := StopsAt R ∨ StopsIn R

lemma trimBlanks_nil (h : trimBlanks V = []) : ∀ c ∈ V, vctIssp c = true := by
  unfold trimBlanks at h
  exact List.rdropWhile_eq_nil_iff.mp h

lemma trimBlanks_append_of_ne (P : List UInt8) (h : trimBlanks V ≠ []) : trimBlanks (P ++ V) = P ++ trimBlanks V := by
  have hsplit : V.rdropWhile vctIssp ++ V.rtakeWhile vctIssp = V := by
    unfold List.rdropWhile List.rtakeWhile
    rw [← List.reverse_append, List.takeWhile_append_dropWhile, List.reverse_reverse]
  have hblank : ∀ c ∈ V.rtakeWhile vctIssp, vctIssp c = true := fun c hc => List.mem_rtakeWhile_imp hc
  have hlast : ∀ hne : P ++ trimBlanks V ≠ [], vctIssp ((P ++ trimBlanks V).getLast hne) = false := by
    intro hne
    rw [List.getLast_append_of_ne_nil hne h]
    exact Bool.not_eq_true _ ▸ List.rdropWhile_last_not vctIssp V h
  have htrim : trimBlanks (P ++ trimBlanks V ++ V.rtakeWhile vctIssp) = trimBlanks (P ++ trimBlanks V) :=
    trimBlanks_append _ hblank
  rw [List.append_assoc, show trimBlanks V ++ V.rtakeWhile vctIssp = V from hsplit] at htrim
  rw [htrim]
  exact List.rdropWhile_eq_self_iff.mpr (fun hne => Bool.not_eq_true _ ▸ hlast hne)

lemma inRun_append (P : List UInt8) (h : trimBlanks V ≠ []) : inRun (P ++ V) = inRun V := by
  unfold inRun
  rw [trimBlanks_append_of_ne P h, List.getLast?_append]
  cases hl : (trimBlanks V).getLast? with
  | none => exact absurd (List.getLast?_eq_none_iff.mp hl) h
  | some y => rfl

lemma inRun_blanks (P : List UInt8) (h : trimBlanks V = []) : inRun (P ++ V) = inRun P := by
  unfold inRun
  rw [trimBlanks_append P (trimBlanks_nil h)]

lemma inRun_text (hx : NoCrlf x) : inRun x = false := by
  unfold inRun
  cases hl : (trimBlanks x).getLast? with
  | none => rfl
  | some y => exact hx y ((List.rdropWhile_prefix vctIssp x).mem (List.mem_of_getLast? hl))

/-- White space that begins with a line break. -/
structure IsRun (w : List UInt8) : Prop where
  head : ∃ y u, w = y :: u ∧ vctIscrlf y = true
  lws : AllLws w

lemma run_of_break (h : IsBreak b Z) : IsRun b := ⟨break_head h, break_lws h⟩

lemma run_of_fold (h : IsFold w) : IsRun w := by
  obtain ⟨⟨b, Z, rfl, hb, -⟩, hlws⟩ := h
  obtain ⟨y, u, rfl, hy⟩ := break_head hb
  exact ⟨⟨y, u ++ Z, rfl, hy⟩, hlws⟩

lemma inRun_run (P : List UInt8) (h : IsRun w) : inRun (P ++ w) = true := by
  obtain ⟨⟨y, u, rfl, hy⟩, hlws⟩ := h
  have hne : trimBlanks (y :: u) ≠ [] := by
    intro hnil
    have hblank := trimBlanks_nil hnil y List.mem_cons_self
    rw [blank_not_crlf hblank] at hy
    cases hy
  rw [inRun_append P hne]
  unfold inRun
  have hlast := List.rdropWhile_last_not vctIssp (y :: u) hne
  have hmem : (trimBlanks (y :: u)).getLast hne ∈ y :: u :=
    (List.rdropWhile_prefix vctIssp (y :: u)).mem (List.getLast_mem hne)
  have hlw := hlws _ hmem
  rw [vctIslws_eq] at hlw
  rw [Bool.or_eq_true] at hlw
  rw [List.getLast?_eq_getLast_of_ne_nil hne]
  exact hlw.resolve_right hlast

/-- A run of white space is not cut at a place that is in no run. -/
lemma run_split (hw : IsRun w) (hV : V ≠ []) (hrun : inRun (P ++ V) = false) (heq : w ++ Y = V ++ U) :
    ∃ V', V = w ++ V' ∧ Y = V' ++ U := by
  rcases List.append_eq_append_iff.mp heq with ⟨V', rfl, rfl⟩ | ⟨V', rfl, -⟩
  · exact ⟨V', rfl, rfl⟩
  · obtain ⟨⟨y, u, hhead, hy⟩, hlws⟩ := hw
    obtain ⟨z, v, rfl⟩ := List.exists_cons_of_ne_nil hV
    rw [List.cons_append] at hhead
    obtain ⟨rfl, -⟩ := List.cons.inj hhead
    have hin : inRun (P ++ z :: v) = true :=
      inRun_run P ⟨⟨z, v, rfl, hy⟩, fun c hc => hlws c (List.mem_append_left _ hc)⟩
    rw [hrun] at hin
    cases hin

/-- Text is in front of the first line break. -/
lemma text_front (hx : NoCrlf x) (hU : ∃ y u, U = y :: u ∧ vctIscrlf y = true) (heq : x ++ Y = A ++ U) :
    ∃ V, A = x ++ V ∧ Y = V ++ U := by
  rcases List.append_eq_append_iff.mp heq with ⟨V, rfl, rfl⟩ | ⟨V, rfl, hV⟩
  · exact ⟨V, rfl, rfl⟩
  · cases V with
    | nil => exact ⟨[], by rw [List.append_nil, List.append_nil], hV.symm⟩
    | cons z V =>
      obtain ⟨y, u, rfl, hy⟩ := hU
      obtain ⟨rfl, -⟩ := List.cons.inj hV
      have hno := hx y (List.mem_append_right _ List.mem_cons_self)
      rw [hno] at hy
      cases hy

/-- Text up to a line break, in one way only. -/
lemma text_unique (hx : NoCrlf x) (hw : NoCrlf w) (hU : ∃ y u, U = y :: u ∧ vctIscrlf y = true)
    (hY : ∃ y u, Y = y :: u ∧ vctIscrlf y = true) (heq : x ++ Y = w ++ U) : x = w ∧ Y = U := by
  obtain ⟨v, rfl, hv⟩ := text_front hx hU heq
  cases v with
  | nil => exact ⟨(List.append_nil x).symm, hv⟩
  | cons z v =>
    obtain ⟨y, u, rfl, hy⟩ := hY
    obtain ⟨rfl, -⟩ := List.cons.inj hv
    rw [hw y (List.mem_append_right _ List.mem_cons_self)] at hy
    cases hy

lemma run_front (hw : IsRun w) (Y : List UInt8) : ∃ y u, w ++ Y = y :: u ∧ vctIscrlf y = true := by
  obtain ⟨⟨y, u, rfl, hy⟩, -⟩ := hw
  exact ⟨y, u ++ Y, rfl, hy⟩

lemma break_front (hb : IsBreak b Z) : ∃ y u, b ++ Z = y :: u ∧ vctIscrlf y = true := run_front (run_of_break hb) Z

lemma headBlank_break (hb : IsBreak b Z) : headBlank (b ++ Z) = false := by
  obtain ⟨y, u, heq, hy⟩ := break_front hb
  rw [heq]
  change vctIssp y = false
  cases hblank : vctIssp y with
  | false => rfl
  | true =>
    rw [blank_not_crlf hblank] at hy
    cases hy

lemma stopsAt_head (h : StopsAt R) : headBlank R = false := by
  obtain ⟨b, Z, rfl, hb, -⟩ := h
  exact headBlank_break hb

/-- A line break and an empty line behind it is itself an empty line with something behind it. -/
lemma stopsAt_break (hb : IsBreak b Z) (hZ : StopsAt Z) : StopsAt (b ++ Z) := by
  refine ⟨b, Z, rfl, hb, ?_, stopsAt_head hZ⟩
  obtain ⟨b', Z', rfl, hb', -⟩ := hZ
  exact List.append_ne_nil_of_left_ne_nil (break_ne_nil hb') _

lemma blanks_front {V : List UInt8} (hV : trimBlanks V = []) (hZ : headBlank (V ++ U) = false) : V = [] := by
  cases V with
  | nil => rfl
  | cons z V =>
    have hz := trimBlanks_nil hV z List.mem_cons_self
    have hno : vctIssp z = false := hZ
    rw [hno] at hz
    cases hz

/-! ## From header to header -/

lemma not_earlyStop_nil : ¬ EarlyStop [] := by
  rintro (⟨b, Z, heq, hb, -⟩ | ⟨A, b, Z, heq, -, hb, -⟩)
  · exact List.append_ne_nil_of_left_ne_nil (break_ne_nil hb) Z heq.symm
  · have hnil := (List.append_eq_nil_iff.mp heq.symm).2
    exact List.append_ne_nil_of_left_ne_nil (break_ne_nil hb) Z hnil

/-- A fold is not an empty line. -/
lemma not_stopsAt_fold (hw : IsFold w) (Y : List UInt8) : ¬ StopsAt (w ++ Y) := by
  obtain ⟨⟨b, Z, rfl, hb, hZ⟩, -⟩ := hw
  rintro ⟨b', Z', heq, hb', -, hZ'⟩
  cases Z with
  | nil => cases hZ
  | cons z Z =>
    have hb1 : IsBreak b (z :: Z ++ Y) := by
      cases hb with
      | crlf => exact .crlf _
      | lf => exact .lf _
      | cr _ _ hc => exact .cr _ _ hc
    rw [List.append_assoc] at heq
    obtain ⟨-, rfl⟩ := break_unique hb1 hb' heq
    have hz : headBlank (z :: Z ++ Y) = headBlank (z :: Z) := rfl
    rw [hz, hZ] at hZ'
    cases hZ'

/-- In front of a fold there is no line break with an empty line behind it. -/
lemma fold_first (hw : IsFold w) (hb : IsBreak b Z) (heq : w ++ Y = b ++ Z) : headBlank Z = true := by
  obtain ⟨⟨b', Z', rfl, hb', hZ'⟩, -⟩ := hw
  cases Z' with
  | nil => cases hZ'
  | cons z Z' =>
    have hb1 : IsBreak b' (z :: Z' ++ Y) := by
      cases hb' with
      | crlf => exact .crlf _
      | lf => exact .lf _
      | cr _ _ hc => exact .cr _ _ hc
    rw [List.append_assoc] at heq
    obtain ⟨-, rfl⟩ := break_unique hb1 hb heq
    exact hZ'

lemma stopsIn_stop (hx : NoCrlf x) (hb : IsBreak b Z) (hZ : headBlank Z = false) :
    StopsIn (x ++ (b ++ Z)) ↔ EarlyStop Z := by
  constructor
  · rintro ⟨A, b', Z', heq, hA, hb', hZ'⟩
    obtain ⟨V, rfl, hV⟩ := text_front hx (break_front hb') heq
    by_cases hnil : V = []
    · rw [hnil, List.nil_append] at hV
      obtain ⟨-, rfl⟩ := break_unique hb hb' hV
      exact Or.inl hZ'
    · obtain ⟨V', rfl, hrest⟩ := run_split (run_of_break hb) hnil hA hV
      by_cases hblank : trimBlanks V' = []
      · rw [← List.append_assoc, inRun_blanks _ hblank, inRun_run _ (run_of_break hb)] at hA
        cases hA
      · rw [← List.append_assoc, inRun_append _ hblank] at hA
        exact Or.inr ⟨V', b', Z', hrest, hA, hb', hZ'⟩
  · rintro (hat | ⟨V, b', Z', rfl, hV, hb', hZ'⟩)
    · exact ⟨x, b, Z, rfl, inRun_text hx, hb, hat⟩
    · by_cases hblank : trimBlanks V = []
      · obtain rfl := blanks_front hblank hZ
        exact ⟨x, b, [] ++ (b' ++ Z'), rfl, inRun_text hx, hb, show StopsAt (b' ++ Z') from stopsAt_break hb' hZ'⟩
      · refine ⟨x ++ (b ++ V), b', Z', by simp only [List.append_assoc], ?_, hb', hZ'⟩
        rw [← List.append_assoc, inRun_append _ hblank]
        exact hV

lemma endsRun_front (hY : EndsRun (V ++ U)) (hU : ∃ y u, U = y :: u ∧ vctIscrlf y = true) : trimBlanks V ≠ [] := by
  obtain ⟨y, Y, heq, hy⟩ := hY
  obtain ⟨z, u, rfl, hz⟩ := hU
  cases V with
  | nil =>
    obtain ⟨rfl, -⟩ := List.cons.inj heq
    rw [(not_lws hy).1] at hz
    cases hz
  | cons v V =>
    obtain ⟨rfl, -⟩ := List.cons.inj heq
    intro hnil
    have hblank := trimBlanks_nil hnil v List.mem_cons_self
    rw [(not_lws hy).2] at hblank
    cases hblank

lemma stopsIn_fold (hx : NoCrlf x) (hw : IsFold w) (hY : EndsRun Y) : StopsIn (x ++ (w ++ Y)) ↔ StopsIn Y := by
  constructor
  · rintro ⟨A, b, Z, heq, hA, hb, hZ⟩
    obtain ⟨V, rfl, hV⟩ := text_front hx (break_front hb) heq
    by_cases hnil : V = []
    · rw [hnil, List.nil_append] at hV
      have hblank := fold_first hw hb hV
      rw [stopsAt_head hZ] at hblank
      cases hblank
    · obtain ⟨V', rfl, hrest⟩ := run_split (run_of_fold hw) hnil hA hV
      rw [hrest] at hY
      have hblank := endsRun_front hY (break_front hb)
      rw [← List.append_assoc, inRun_append _ hblank] at hA
      exact ⟨V', b, Z, hrest, hA, hb, hZ⟩
  · rintro ⟨V, b, Z, rfl, hV, hb, hZ⟩
    have hblank := endsRun_front hY (break_front hb)
    refine ⟨x ++ (w ++ V), b, Z, by simp only [List.append_assoc], ?_, hb, hZ⟩
    rw [← List.append_assoc, inRun_append _ hblank]
    exact hV

lemma not_stopsIn_past (hx : NoCrlf x) (hw : IsFold w) : ¬ StopsIn (x ++ w) := by
  rintro ⟨A, b, Z, heq, hA, hb, hZ⟩
  obtain ⟨V, rfl, hV⟩ := text_front hx (break_front hb) heq
  rw [← List.append_nil w] at hV
  by_cases hnil : V = []
  · rw [hnil, List.nil_append] at hV
    have hblank := fold_first hw hb hV
    rw [stopsAt_head hZ] at hblank
    cases hblank
  · obtain ⟨V', rfl, hrest⟩ := run_split (run_of_fold hw) hnil hA hV
    have hempty := (List.append_eq_nil_iff.mp hrest.symm).2
    exact List.append_ne_nil_of_left_ne_nil (break_ne_nil hb) Z hempty

lemma stopsIn_line (h : ScanTo R txt b Z k) : StopsIn R ↔ EarlyStop Z := by
  induction h with
  | stop hx hb hZ => exact stopsIn_stop hx hb hZ
  | fold hx hw hY _ ih => exact (stopsIn_fold hx hw hY).trans ih
  | past hx hw => exact iff_of_false (not_stopsIn_past hx hw) not_earlyStop_nil

lemma not_stopsAt_line (h : ScanTo R txt b Z k) (htxt : txt ≠ []) : ¬ StopsAt R := by
  have hfront : ∀ {x Y : List UInt8}, NoCrlf x → x ≠ [] → ¬ StopsAt (x ++ Y) := by
    rintro x Y hx hne ⟨b, Z, heq, hb, -⟩
    obtain ⟨z, x, rfl⟩ := List.exists_cons_of_ne_nil hne
    obtain ⟨y, u, hfront, hy⟩ := break_front hb
    rw [hfront, List.cons_append] at heq
    rw [← (List.cons.inj heq).1, hx z List.mem_cons_self] at hy
    cases hy
  cases h with
  | stop hx hb hZ => exact hfront hx htxt
  | @fold x w Y txt b Z k hx hw hY h =>
    by_cases hnil : x = []
    · rw [hnil]
      exact not_stopsAt_fold hw Y
    · exact hfront hx hnil
  | @past x w hx hw =>
    by_cases hnil : x = []
    · have hno := not_stopsAt_fold hw []
      rw [List.append_nil] at hno
      rw [hnil]
      exact hno
    · exact hfront hx hnil

lemma earlyStop_line (h : ScanTo R txt b Z k) (htxt : txt ≠ []) : EarlyStop R ↔ EarlyStop Z :=
  (or_iff_right (not_stopsAt_line h htxt)).trans (stopsIn_line h)

/-- An empty header. -/
lemma scanTo_empty (h : ScanTo R txt b Z k) (htxt : txt = []) : R = b ++ Z := by
  cases h with
  | stop hx hb hZ =>
    rw [htxt]
    rfl
  | @fold x w Y txt b Z k hx hw hY h =>
    obtain ⟨y, u, rfl, -⟩ := (run_of_fold hw).head
    have hnil := (List.append_eq_nil_iff.mp (List.append_eq_nil_iff.mp htxt).2).1
    cases hnil
  | @past x w hx hw =>
    obtain ⟨y, u, rfl, -⟩ := (run_of_fold hw).head
    have hnil := (List.append_eq_nil_iff.mp htxt).2
    cases hnil

lemma earlyStop_iff (h : Dissects R fs S k) : EarlyStop R ↔ S ≠ [] := by
  induction h with
  | done => exact iff_of_false not_earlyStop_nil (fun hne => hne rfl)
  | @stop R b Z h =>
    obtain rfl := scanTo_empty h rfl
    obtain ⟨-, -, -, hstop, -⟩ := scanTo_rest h
    obtain ⟨hb, hZ⟩ := hstop rfl
    constructor
    · rintro (⟨b', Z', heq, hb', hne, -⟩ | hin)
      · obtain ⟨-, rfl⟩ := break_unique hb hb' heq
        exact hne
      · rw [stopsIn_line h] at hin
        rintro rfl
        exact not_earlyStop_nil hin
    · exact fun hne => Or.inl ⟨b, Z, rfl, hb, hne, hZ⟩
  | field h htxt _ ih => exact (earlyStop_line h htxt).trans ih
  | past h =>
    have hne := (scanTo_rest h).choose_spec.2.2.2 rfl
    have htxt : _ ≠ [] := List.ne_nil_of_length_pos (Nat.zero_lt_of_lt (trimBlanks_lt hne.2.2))
    exact iff_of_false (fun hearly => not_earlyStop_nil ((earlyStop_line h htxt).mp hearly)) (fun h => h rfl)

/-! ## The end of the last run -/

/-- A fold goes up to the end, from the first line break of its run on. -/
def FoldsToEnd (R : List UInt8) : Prop := ∃ A r, R = A ++ r ∧ inRun A = false ∧ IsFold r

/-- The first line break ends a header, and a fold goes from the second one up to the end. -/
def BreaksToFold (R : List UInt8) : Prop := ∃ A b r, R = A ++ (b ++ r) ∧ inRun A = false ∧ IsBreak b r ∧ IsFold r

def PastEnd (R : List UInt8) : Prop := FoldsToEnd R ∨ BreaksToFold R

lemma not_fold_nil : ¬ IsFold [] := by
  intro h
  obtain ⟨y, u, heq, -⟩ := (run_of_fold h).head
  cases heq

lemma not_pastEnd_nil : ¬ PastEnd [] := by
  rintro (⟨A, r, heq, -, hr⟩ | ⟨A, b, r, heq, -, hb, -⟩)
  · rw [(List.append_eq_nil_iff.mp heq.symm).2] at hr
    exact not_fold_nil hr
  · exact List.append_ne_nil_of_left_ne_nil (break_ne_nil hb) r (List.append_eq_nil_iff.mp heq.symm).2

lemma fold_head (h : IsFold w) : headBlank w = false := by
  obtain ⟨⟨b, Z, rfl, hb, -⟩, -⟩ := h
  exact headBlank_break hb

lemma fold_front (h : IsFold w) : ∃ y u, w = y :: u ∧ vctIscrlf y = true := (run_of_fold h).head

lemma fold_no_text (h : IsFold w) (hY : EndsRun Y) : w ≠ U ++ Y := by
  rintro rfl
  obtain ⟨y, u, rfl, hy⟩ := hY
  have hlws := h.lws y (List.mem_append_right _ List.mem_cons_self)
  rw [hy] at hlws
  cases hlws

lemma pastEnd_stop (hx : NoCrlf x) (hb : IsBreak b Z) (hZ : headBlank Z = false) (hstop : ¬ EarlyStop Z) :
    PastEnd (x ++ (b ++ Z)) ↔ PastEnd Z := by
  have hin : ∀ V, trimBlanks V ≠ [] → inRun (x ++ (b ++ V)) = inRun V := by
    intro V hV
    rw [← List.append_assoc, inRun_append _ hV]
  have hblank : ∀ V, inRun (x ++ (b ++ V)) = false → trimBlanks V ≠ [] := by
    intro V hV hnil
    rw [← List.append_assoc, inRun_blanks _ hnil, inRun_run _ (run_of_break hb)] at hV
    cases hV
  constructor
  · rintro (⟨A, r, heq, hA, hr⟩ | ⟨A, b', r, heq, hA, hb', hr⟩)
    · obtain ⟨V, rfl, hV⟩ := text_front hx (fold_front hr) heq
      by_cases hnil : V = []
      · rw [hnil, List.nil_append] at hV
        rw [← List.append_nil r] at hV
        rw [fold_first hr hb hV.symm] at hZ
        cases hZ
      · obtain ⟨V', rfl, hrest⟩ := run_split (run_of_break hb) hnil hA hV
        rw [hin V' (hblank V' hA)] at hA
        exact Or.inl ⟨V', r, hrest, hA, hr⟩
    · obtain ⟨V, rfl, hV⟩ := text_front hx (break_front hb') heq
      by_cases hnil : V = []
      · rw [hnil, List.nil_append] at hV
        obtain ⟨-, rfl⟩ := break_unique hb hb' hV
        exact Or.inl ⟨[], Z, rfl, rfl, hr⟩
      · obtain ⟨V', rfl, hrest⟩ := run_split (run_of_break hb) hnil hA hV
        rw [hin V' (hblank V' hA)] at hA
        exact Or.inr ⟨V', b', r, hrest, hA, hb', hr⟩
  · rintro (⟨V, r, rfl, hV, hr⟩ | ⟨V, b', r, rfl, hV, hb', hr⟩)
    · by_cases hnil : trimBlanks V = []
      · obtain rfl := blanks_front hnil hZ
        exact Or.inr ⟨x, b, r, rfl, inRun_text hx, hb, hr⟩
      · exact Or.inl ⟨x ++ (b ++ V), r, by simp only [List.append_assoc], (hin V hnil).trans hV, hr⟩
    · by_cases hnil : trimBlanks V = []
      · obtain rfl := blanks_front hnil hZ
        refine absurd (Or.inl ⟨b', r, rfl, hb', ?_, fold_head hr⟩) hstop
        rintro rfl
        exact not_fold_nil hr
      · exact Or.inr ⟨x ++ (b ++ V), b', r, by simp only [List.append_assoc], (hin V hnil).trans hV, hb', hr⟩

lemma pastEnd_fold (hx : NoCrlf x) (hw : IsFold w) (hY : EndsRun Y) : PastEnd (x ++ (w ++ Y)) ↔ PastEnd Y := by
  have hblank : ∀ V U, Y = V ++ U → (∃ y u, U = y :: u ∧ vctIscrlf y = true) →
      inRun (x ++ (w ++ V)) = inRun V := by
    rintro V U rfl hU
    rw [← List.append_assoc, inRun_append _ (endsRun_front hY hU)]
  constructor
  · rintro (⟨A, r, heq, hA, hr⟩ | ⟨A, b, r, heq, hA, hb, hr⟩)
    · obtain ⟨V, rfl, hV⟩ := text_front hx (fold_front hr) heq
      by_cases hnil : V = []
      · rw [hnil, List.nil_append] at hV
        exact absurd hV.symm (fold_no_text hr hY)
      · obtain ⟨V', rfl, hrest⟩ := run_split (run_of_fold hw) hnil hA hV
        rw [hblank V' r hrest (fold_front hr)] at hA
        exact Or.inl ⟨V', r, hrest, hA, hr⟩
    · obtain ⟨V, rfl, hV⟩ := text_front hx (break_front hb) heq
      by_cases hnil : V = []
      · rw [hnil, List.nil_append] at hV
        have hhead := fold_first hw hb hV
        rw [fold_head hr] at hhead
        cases hhead
      · obtain ⟨V', rfl, hrest⟩ := run_split (run_of_fold hw) hnil hA hV
        rw [hblank V' (b ++ r) hrest (break_front hb)] at hA
        exact Or.inr ⟨V', b, r, hrest, hA, hb, hr⟩
  · rintro (⟨V, r, heq, hV, hr⟩ | ⟨V, b, r, heq, hV, hb, hr⟩)
    · exact Or.inl ⟨x ++ (w ++ V), r, by simp only [heq, List.append_assoc],
        (hblank V r heq (fold_front hr)).trans hV, hr⟩
    · exact Or.inr ⟨x ++ (w ++ V), b, r, by simp only [heq, List.append_assoc],
        (hblank V (b ++ r) heq (break_front hb)).trans hV, hb, hr⟩

lemma pastEnd_line (h : ScanTo R txt b Z k) (hk : k = false) (hstop : ¬ EarlyStop Z) : PastEnd R ↔ PastEnd Z := by
  induction h with
  | stop hx hb hZ => exact pastEnd_stop hx hb hZ hstop
  | fold hx hw hY _ ih => exact (pastEnd_fold hx hw hY).trans (ih hk hstop)
  | past => cases hk

lemma pastEnd_past (h : ScanTo R txt b Z k) (hk : k = true) : PastEnd R := by
  induction h with
  | stop => cases hk
  | fold hx hw hY _ ih => exact (pastEnd_fold hx hw hY).mpr (ih hk)
  | @past x w hx hw => exact Or.inl ⟨x, w, rfl, inRun_text hx, hw⟩

lemma pastEnd_iff (h : Dissects R fs S k) (hstop : ¬ EarlyStop R) : PastEnd R ↔ k = true := by
  induction h with
  | done => exact iff_of_false not_pastEnd_nil Bool.false_ne_true
  | stop h =>
    have hZ := (earlyStop_iff (.stop h)).not.mp hstop
    rw [not_not] at hZ
    rw [hZ] at h
    rw [pastEnd_line h rfl not_earlyStop_nil]
    exact iff_of_false not_pastEnd_nil Bool.false_ne_true
  | field h htxt _ ih =>
    have hrest := (earlyStop_line h htxt).not.mp hstop
    exact (pastEnd_line h rfl hrest).trans (ih hrest)
  | past h => exact iff_of_true (pastEnd_past h rfl) rfl

/-- What is left behind an early stop stays as it is. -/
lemma stop_no_past (h : Dissects R fs S k) (hstop : EarlyStop R) : k = false := by
  rw [earlyStop_iff h] at hstop
  induction h with
  | done => rfl
  | stop => rfl
  | field _ _ _ ih => exact ih hstop
  | past => exact absurd rfl hstop

/-! ## The first line -/

/-- The bytes that `http_dissect_hdrs` goes over. -/
def hdrPart (t : List UInt8) : List UInt8 :=
  let p := (t.dropWhile vctIslws).dropWhile fun c => !vctIscrlf c
  let p := p.drop (skipcrlf p)
  if p.head? = some chCr then p.tail else p

lemma lineField_split {stop bad : UInt8 → Bool} {p p' : List UInt8} {f : Txt}
    (h : lineField stop bad p = .ok (f, p')) :
    p = f ++ p' ∧ (∀ c ∈ f, stop c = false ∧ bad c = false) ∧ ∃ y u, p' = y :: u ∧ stop y = true := by
  induction p generalizing f p' with
  | nil => cases h
  | cons c p ih =>
    rw [lineField] at h
    by_cases hstop : stop c = true
    · rw [if_pos hstop] at h
      cases h
      exact ⟨rfl, fun c hc => absurd hc List.not_mem_nil, c, p, rfl, hstop⟩
    · rw [if_neg hstop] at h
      by_cases hbad : bad c = true
      · rw [if_pos hbad] at h
        cases h
      · rw [if_neg hbad] at h
        cases hrest : lineField stop bad p with
        | error e =>
          rw [hrest] at h
          cases h
        | ok r =>
          obtain ⟨f', p''⟩ := r
          rw [hrest] at h
          cases h
          obtain ⟨rfl, hall, hend⟩ := ih hrest
          refine ⟨rfl, ?_, hend⟩
          intro d hd
          rcases List.mem_cons.mp hd with rfl | hd
          · exact ⟨Bool.not_eq_true _ ▸ hstop, Bool.not_eq_true _ ▸ hbad⟩
          · exact hall d hd

lemma crlf_ctl (h : vctIsctl y = false) : vctIscrlf y = false := by
  cases hy : vctIscrlf y with
  | false => rfl
  | true =>
    unfold vctIscrlf at hy
    rw [Bool.or_eq_true, decide_eq_true_iff, decide_eq_true_iff] at hy
    rcases hy with rfl | rfl
    · cases h
    · cases h

lemma lineField_error {stop bad : UInt8 → Bool} {p : List UInt8} {e : Nat} (h : lineField stop bad p = .error e) :
    e = 400 := by
  induction p with
  | nil =>
    cases h
    rfl
  | cons c p ih =>
    rw [lineField] at h
    split at h
    · cases h
    · split at h
      · cases h
        rfl
      · cases hrest : lineField stop bad p with
        | error e' =>
          rw [hrest] at h
          cases h
          exact ih hrest
        | ok r =>
          rw [hrest] at h
          cases h

lemma firstLine_error {p : List UInt8} {e : Nat} (h : firstLine p = .error e) : e = 400 ∨ e = 413 := by
  unfold firstLine at h
  rcases Fallible.bind_error h with h | ⟨⟨f1, p1⟩, h⟩
  · exact Or.inl (lineField_error h)
  rcases Fallible.bind_error h with h | ⟨⟨s1, p2⟩, h⟩
  · exact Or.inl (lineField_error h)
  rcases Fallible.bind_error h with h | ⟨⟨f2, p3⟩, h⟩
  · exact Or.inl (lineField_error h)
  dsimp only at h
  split at h
  · cases h
    exact Or.inr rfl
  rcases Fallible.bind_error h with h | ⟨⟨s2, p4⟩, h⟩
  · exact Or.inl (lineField_error h)
  rcases Fallible.bind_error h with h | ⟨⟨f3, p5⟩, h⟩
  · exact Or.inl (lineField_error h)
  cases h

lemma noCrlf_append (hx : NoCrlf x) (hw : NoCrlf w) : NoCrlf (x ++ w) := by
  intro c hc
  rcases List.mem_append.mp hc with hc | hc
  · exact hx c hc
  · exact hw c hc

/-- The fields of a first line, with `SP` between them: no control character in the first two, and no line break in the
third one, which may be empty. -/
structure FirstFields (x f1 s1 f2 s2 f3 : List UInt8) : Prop where
  split : x = f1 ++ (s1 ++ (f2 ++ (s2 ++ f3)))
  first : ∀ c ∈ f1, vctIssp c = false ∧ vctIsctl c = false
  between : s1 ≠ [] ∧ ∀ c ∈ s1, c = chSpace
  second : f2 ≠ [] ∧ ∀ c ∈ f2, vctIslws c = false ∧ vctIsctl c = false
  behind : (s2 = [] → f3 = []) ∧ ∀ c ∈ s2, c = chSpace
  third : headBlank f3 = false ∧ ∀ c ∈ f3, vctIscrlf c = false ∧ (vctIssep c = true ∨ vctIsctl c = false)

/-- The text of the first line, behind the white space in front of it. -/
def firstText (block : List UInt8) : List UInt8 := (block.dropWhile vctIslws).takeWhile fun c => !vctIscrlf c

/-- The first line is well formed. -/
def FirstLineOk (block : List UInt8) : Prop := ∃ f1 s1 f2 s2 f3, FirstFields (firstText block) f1 s1 f2 s2 f3

lemma lineField_ok {stop bad : UInt8 → Bool} {f p : List UInt8} (hf : ∀ c ∈ f, stop c = false ∧ bad c = false)
    (hp : ∃ y u, p = y :: u ∧ stop y = true) : lineField stop bad (f ++ p) = .ok (f, p) := by
  induction f with
  | nil =>
    obtain ⟨y, u, rfl, hy⟩ := hp
    rw [List.nil_append, lineField, if_pos hy]
  | cons c f ih =>
    obtain ⟨hstop, hbad⟩ := hf c List.mem_cons_self
    rw [List.cons_append, lineField, if_neg (by simp [hstop]), if_neg (by simp [hbad]),
      ih (fun d hd => hf d (List.mem_cons_of_mem c hd))]
    rfl

lemma space_not_ctl {c : UInt8} (hsp : vctIssp c = true) (hctl : vctIsctl c = false) : c = chSpace := by
  unfold vctIssp at hsp
  rw [Bool.or_eq_true, decide_eq_true_iff, decide_eq_true_iff] at hsp
  rcases hsp with rfl | rfl
  · rfl
  · cases hctl

/-- The loops of `http_splitline` find the fields. -/
lemma firstLine_fields {p : List UInt8} {l : FirstLine} (h : firstLine p = .ok l) :
    p = l.f1 ++ (l.s1 ++ (l.f2 ++ (l.s2 ++ (l.f3 ++ l.rest)))) ∧
      FirstFields (l.f1 ++ (l.s1 ++ (l.f2 ++ (l.s2 ++ l.f3)))) l.f1 l.s1 l.f2 l.s2 l.f3 ∧
      ∃ y u, l.rest = y :: u ∧ vctIscrlf y = true := by
  unfold firstLine at h
  obtain ⟨⟨f1, p1⟩, h1, h⟩ := Fallible.bind_ok h
  obtain ⟨⟨s1, p2⟩, h2, h⟩ := Fallible.bind_ok h
  obtain ⟨⟨f2, p3⟩, h3, h⟩ := Fallible.bind_ok h
  dsimp only at h
  split at h
  · cases h
  next hf2ne =>
  obtain ⟨⟨s2, p4⟩, h4, h⟩ := Fallible.bind_ok h
  obtain ⟨⟨f3, p5⟩, h5, h⟩ := Fallible.bind_ok h
  cases h
  obtain ⟨rfl, hf1, hp1⟩ := lineField_split h1
  obtain ⟨rfl, hs1, hp2⟩ := lineField_split h2
  obtain ⟨rfl, hf2, hp3⟩ := lineField_split h3
  obtain ⟨rfl, hs2, hp4⟩ := lineField_split h4
  obtain ⟨rfl, hf3, hend⟩ := lineField_split h5
  have hspaces : ∀ {v : List UInt8}, (∀ c ∈ v, (!vctIssp c) = false ∧ vctIsctl c = false) → ∀ c ∈ v, c = chSpace :=
    fun hv c hc => space_not_ctl (by simpa using (hv c hc).1) (hv c hc).2
  have hs1ne : s1 ≠ [] := by
    rintro rfl
    obtain ⟨y, u, hy, hsp⟩ := hp1
    obtain ⟨z, v, hz, hno⟩ := hp2
    rw [List.nil_append, hz] at hy
    rw [(List.cons.inj hy).1, hsp] at hno
    cases hno
  have hs2nil : s2 = [] → f3 = [] := by
    rintro rfl
    obtain ⟨y, u, hy, hlws⟩ := hp3
    obtain ⟨z, v, hz, hno⟩ := hp4
    cases f3 with
    | nil => rfl
    | cons c f3 =>
      have hcrlf := (hf3 c List.mem_cons_self).1
      obtain ⟨rfl, -⟩ := List.cons.inj hy
      obtain ⟨rfl, -⟩ := List.cons.inj hz
      rw [vctIslws_eq] at hlws
      rw [hcrlf, Bool.false_or] at hlws
      rw [hlws] at hno
      cases hno
  have hapart : headBlank f3 = false := by
    obtain ⟨z, v, hz, hno⟩ := hp4
    cases f3 with
    | nil => rfl
    | cons c f3 =>
      obtain ⟨rfl, -⟩ := List.cons.inj hz
      exact (Bool.not_eq_true' _).mp hno
  refine ⟨rfl, ⟨rfl, hf1, ⟨hs1ne, hspaces hs1⟩, ⟨hf2ne, hf2⟩, ⟨hs2nil, hspaces hs2⟩, hapart, fun c hc => ?_⟩, hend⟩
  obtain ⟨hcrlf, hctl⟩ := hf3 c hc
  refine ⟨hcrlf, ?_⟩
  rw [Bool.and_eq_false_iff] at hctl
  exact hctl.imp_left (Bool.not_eq_false' _).mp

/-- And fail on anything else. -/
lemma firstLine_ok {x rest f1 s1 f2 s2 f3 : List UInt8} (h : FirstFields x f1 s1 f2 s2 f3)
    (hrest : ∃ y u, rest = y :: u ∧ vctIscrlf y = true) : firstLine (x ++ rest) = .ok ⟨f1, s1, f2, s2, f3, rest⟩ := by
  obtain ⟨rfl, hf1, ⟨hs1ne, hs1⟩, ⟨hf2ne, hf2⟩, ⟨hs2nil, hs2⟩, hapart, hf3⟩ := h
  have hspaces : ∀ {v : List UInt8}, (∀ c ∈ v, c = chSpace) → ∀ c ∈ v, (!vctIssp c) = false ∧ vctIsctl c = false := by
    intro v hv c hc
    rw [hv c hc]
    exact ⟨rfl, rfl⟩
  obtain ⟨y, u, rfl, hy⟩ := hrest
  have hylws : vctIslws y = true := by rw [vctIslws_eq, hy, Bool.true_or]
  have hysp : vctIssp y = false := by
    cases hsp : vctIssp y with
    | false => rfl
    | true =>
      rw [blank_not_crlf hsp] at hy
      cases hy
  have h1 : ∃ z v, s1 ++ (f2 ++ (s2 ++ (f3 ++ y :: u))) = z :: v ∧ vctIssp z = true := by
    obtain ⟨z, v, rfl⟩ := List.exists_cons_of_ne_nil hs1ne
    refine ⟨z, _, rfl, ?_⟩
    rw [hs1 z List.mem_cons_self]
    rfl
  have h2 : ∃ z v, f2 ++ (s2 ++ (f3 ++ y :: u)) = z :: v ∧ (!vctIssp z) = true := by
    obtain ⟨z, v, rfl⟩ := List.exists_cons_of_ne_nil hf2ne
    refine ⟨z, _, rfl, ?_⟩
    rw [(not_lws (hf2 z List.mem_cons_self).1).2]
    rfl
  have h3 : ∃ z v, s2 ++ (f3 ++ y :: u) = z :: v ∧ vctIslws z = true := by
    cases s2 with
    | nil =>
      rw [hs2nil rfl]
      exact ⟨y, u, rfl, hylws⟩
    | cons z v =>
      refine ⟨z, _, rfl, ?_⟩
      rw [hs2 z List.mem_cons_self]
      rfl
  have h4 : ∃ z v, f3 ++ y :: u = z :: v ∧ (!vctIssp z) = true := by
    cases f3 with
    | nil => exact ⟨y, u, rfl, by rw [hysp]; rfl⟩
    | cons z v => exact ⟨z, _, rfl, by rw [show vctIssp z = false from hapart]; rfl⟩
  have hbad : ∀ c ∈ f3, vctIscrlf c = false ∧ (!vctIssep c && vctIsctl c) = false := by
    intro c hc
    obtain ⟨hcrlf, hsep | hctl⟩ := hf3 c hc
    · exact ⟨hcrlf, by rw [hsep]; rfl⟩
    · exact ⟨hcrlf, by rw [hctl, Bool.and_false]⟩
  simp only [List.append_assoc]
  unfold firstLine
  rw [lineField_ok hf1 h1]
  simp only [bind, Except.bind]
  rw [lineField_ok (hspaces hs1) h2]
  simp only
  rw [lineField_ok hf2 h3]
  simp only [if_neg hf2ne]
  rw [lineField_ok (hspaces hs2) h4]
  simp only
  rw [lineField_ok hbad ⟨y, u, rfl, hy⟩]
  rfl

lemma FirstFields.noCrlf {f1 s1 f2 s2 f3 : List UInt8} (h : FirstFields x f1 s1 f2 s2 f3) : NoCrlf x := by
  obtain ⟨rfl, hf1, hs1, hf2, hs2, hf3⟩ := h
  have hspace : ∀ {c : UInt8}, c = chSpace → vctIscrlf c = false := by
    rintro c rfl
    rfl
  exact noCrlf_append (fun c hc => crlf_ctl (hf1 c hc).2) (noCrlf_append (fun c hc => hspace (hs1.2 c hc))
    (noCrlf_append (fun c hc => (not_lws (hf2.2 c hc).1).1) (noCrlf_append (fun c hc => hspace (hs2.2 c hc))
      (fun c hc => (hf3.2 c hc).1))))

/-! ## The block that `htc_header_complete` finds -/

lemma emptyLine_all {p : List UInt8} (h : emptyLine p = some p.length) : p = [chCr, chNl] ∨ p = [chNl] := by
  unfold emptyLine at h
  match p with
  | [] => simp at h
  | [c] =>
    by_cases hc : c = chCr
    · simp [hc] at h
    · simp [hc] at h
      exact Or.inr (by rw [h])
  | c :: d :: p =>
    by_cases hc : c = chCr
    · simp [hc] at h
      exact Or.inl (by rw [hc, h.1, h.2])
    · simp [hc] at h

lemma headerEnd_last {p : List UInt8} (h : headerEnd p = some p.length) : p.getLast? = some chNl := by
  induction p with
  | nil => cases h
  | cons c p ih =>
    rw [headerEnd] at h
    split at h
    · cases h
    · have hrest : (headerEnd p).map (· + 1) = some (p.length + 1) → (c :: p).getLast? = some chNl := by
        intro hmap
        obtain ⟨i, hi, heq⟩ := Option.map_eq_some_iff.mp hmap
        obtain rfl : i = p.length := Nat.succ_inj.mp heq
        have hlast := ih hi
        rw [List.getLast?_cons, hlast]
        rfl
      split at h
      · exact hrest h
      · split at h
        next k hk =>
          obtain rfl : k = p.length := Nat.succ_inj.mp (Option.some.inj h)
          rcases emptyLine_all hk with rfl | rfl
          · rfl
          · rfl
        next => exact hrest h

/-- One line is no header. -/
lemma headerEnd_line {p : List UInt8} (hp : chNl ∉ p) : headerEnd (p ++ [chNl]) = none := by
  induction p with
  | nil => decide
  | cons c p ih =>
    have hc : c ≠ chNl := fun h => hp (h ▸ List.mem_cons_self)
    rw [List.cons_append, headerEnd, if_pos hc, ih (fun h => hp (List.mem_cons_of_mem _ h))]
    simp

lemma lws_space (h : vctIslws y = true) : isspace y = true := by
  rw [vctIslws_eq] at h
  unfold vctIscrlf vctIssp at h
  simp only [Bool.or_eq_true, decide_eq_true_iff] at h
  rcases h with (rfl | rfl) | rfl | rfl
  · rfl
  · rfl
  · rfl
  · rfl

/-- One line with its line break is no block, whatever white space is in front. -/
lemma oneLine_no_block (hx : NoCrlf x) (hb : IsBreak b []) :
    headerEnd (stripped (x ++ b)) ≠ some (stripped (x ++ b)).length := by
  obtain ⟨u, hu, hno⟩ : ∃ u, x ++ b = u ++ [chNl] ∧ chNl ∉ u := by
    have hxno : chNl ∉ x := fun hmem => absurd (hx chNl hmem) (by decide)
    cases hb with
    | crlf =>
      refine ⟨x ++ [chCr], by rw [List.append_assoc]; rfl, ?_⟩
      rw [List.mem_append, List.mem_singleton]
      exact not_or.mpr ⟨hxno, by decide⟩
    | lf => exact ⟨x, rfl, hxno⟩
  rw [hu]
  unfold stripped
  by_cases hall : ∀ c ∈ u, isspace c = true
  · rw [List.dropWhile_append_of_pos hall]
    decide
  · have hdrop : (u ++ [chNl]).dropWhile isspace = u.dropWhile isspace ++ [chNl] := by
      rw [List.dropWhile_append]
      have hnonempty : (u.dropWhile isspace).isEmpty = false := by
        rw [List.isEmpty_eq_false_iff]
        intro hnil
        exact hall (List.dropWhile_eq_nil_iff.mp hnil)
      rw [hnonempty]
      rfl
    rw [hdrop, headerEnd_line (fun hmem => hno ((List.dropWhile_suffix isspace).mem hmem))]
    exact fun h => nomatch h

/-- The parts of a block: white space, the first line with its line break, and the headers. -/
structure BlockParts (block w x b R : List UInt8) : Prop where
  split : block = w ++ (x ++ (b ++ R))
  lws : AllLws w
  ends : EndsRun (x ++ (b ++ R))
  text : NoCrlf x
  brk : IsBreak b R
  last : R.getLast? = some chNl

lemma block_parts {block : List UInt8} (hblock : IsBlock block) : ∃ w x b R, BlockParts block w x b R := by
  have hlast := headerEnd_last hblock
  obtain ⟨v, hv⟩ : ∃ v, block = v ++ stripped block :=
    ⟨block.takeWhile isspace, (List.takeWhile_append_dropWhile).symm⟩
  have hne : stripped block ≠ [] := by
    intro hnil
    rw [hnil] at hlast
    cases hlast
  have hblast : block.getLast? = some chNl := by
    rw [hv, List.getLast?_append, hlast]
    rfl
  obtain ⟨w, Y, hsplit, hw, hY⟩ := lws_split block
  have hspace : ∀ c ∈ w, isspace c = true := fun c hc => lws_space (hw c hc)
  have hstrip : stripped block = stripped Y := by
    unfold stripped
    rw [hsplit, List.dropWhile_append_of_pos hspace]
  have hYne : Y ≠ [] := by
    rintro rfl
    exact hne hstrip
  obtain ⟨x, Y', rfl, hx, hY'⟩ := text_split Y
  have hYlast : (x ++ Y').getLast? = some chNl := last_append_ne hYne (hsplit ▸ hblast)
  rcases hY' with rfl | ⟨y, Y', rfl, hy⟩
  · rw [List.append_nil] at hYlast
    exact absurd (hx chNl (List.mem_of_getLast? hYlast)) (by decide)
  · have hlast' := last_append_ne (List.cons_ne_nil _ _) hYlast
    obtain ⟨b, R, hbreak, hb⟩ := exists_break hy hlast'
    rw [hbreak] at hsplit hY hstrip hYne hlast'
    refine ⟨w, x, b, R, hsplit, hw, hY.resolve_left hYne, hx, hb, ?_⟩
    by_cases hR : R = []
    · unfold IsBlock at hblock
      rw [hstrip, hR, List.append_nil] at hblock
      exact absurd hblock (oneLine_no_block hx (hR ▸ hb))
    · exact last_append_ne hR hlast'

lemma takeWhile_lws (hw : AllLws w) (hY : EndsRun Y) :
    (w ++ Y).takeWhile vctIslws = w ∧ (w ++ Y).dropWhile vctIslws = Y := by
  obtain ⟨y, u, rfl, hy⟩ := hY
  rw [List.takeWhile_append_of_pos hw, List.dropWhile_append_of_pos hw]
  simp [hy]

lemma hdrPart_eq {block : List UInt8} (h : BlockParts block w x b R) :
    hdrPart block = if R.head? = some chCr then R.tail else R := by
  have htext : (x ++ (b ++ R)).dropWhile (fun c => !vctIscrlf c) = b ++ R := by
    obtain ⟨y, u, hy, hcr⟩ := break_front h.brk
    rw [List.dropWhile_append_of_pos (fun c hc => by rw [h.text c hc]; rfl), hy]
    simp [hcr]
  have hskip := skipcrlf_break [] h.brk
  rw [List.append_nil] at hskip
  unfold hdrPart
  simp only [h.split, (takeWhile_lws h.lws h.ends).2, htext, hskip, List.drop_left]

/-- The first line of a block, and what is behind it. -/
lemma firstLine_block {block : List UInt8} {l : FirstLine} (h : BlockParts block w x b R) (T : List UInt8)
    (hline : firstLine (x ++ (b ++ R) ++ T) = .ok l) :
    FirstFields x l.f1 l.s1 l.f2 l.s2 l.f3 ∧ l.rest = b ++ (R ++ T) := by
  obtain ⟨hsplit, hfields, hrest⟩ := firstLine_fields hline
  have heq : x ++ (b ++ (R ++ T)) = (l.f1 ++ (l.s1 ++ (l.f2 ++ (l.s2 ++ l.f3)))) ++ l.rest := by
    simp only [List.append_assoc] at hsplit ⊢
    exact hsplit
  obtain ⟨hx, hbehind⟩ := text_unique h.text hfields.noCrlf hrest (run_front (run_of_break h.brk) _) heq
  rw [hx]
  exact ⟨hfields, hbehind.symm⟩

lemma firstText_eq {block : List UInt8} (h : BlockParts block w x b R) : firstText block = x := by
  unfold firstText
  obtain ⟨y, u, hy, hcrlf⟩ := break_front h.brk
  rw [h.split, (takeWhile_lws h.lws h.ends).2, hy, List.takeWhile_append_of_pos (fun c hc => by rw [h.text c hc]; rfl)]
  simp [hcrlf]

lemma firstLine_iff {block : List UInt8} (hblock : IsBlock block) (T : List UInt8) :
    FirstLineOk block ↔ ∃ l, firstLine ((block ++ T).dropWhile vctIslws) = .ok l := by
  obtain ⟨w, x, b, R, hparts⟩ := block_parts hblock
  have hdrop : (block ++ T).dropWhile vctIslws = x ++ (b ++ R) ++ T := by
    rw [hparts.split, List.append_assoc]
    exact (takeWhile_lws hparts.lws (endsRun_append hparts.ends T)).2
  unfold FirstLineOk
  rw [hdrop, firstText_eq hparts]
  constructor
  · rintro ⟨f1, s1, f2, s2, f3, hfields⟩
    rw [List.append_assoc, List.append_assoc]
    exact ⟨_, firstLine_ok hfields (run_front (run_of_break hparts.brk) _)⟩
  · rintro ⟨l, hline⟩
    exact ⟨_, _, _, _, _, (firstLine_block hparts T hline).1⟩

/-- The `NUL`s behind the fields of the first line stay in front of the headers. -/
lemma set_front {X Y : List UInt8} {i j k : Nat} (hi : i < X.length) (hj : j < X.length) (hk : k < X.length) :
    (((((X ++ Y).set i 0).set j 0).set k 0).take X.length).length = X.length ∧
      ((((X ++ Y).set i 0).set j 0).set k 0).drop X.length = Y := by
  constructor
  · rw [List.length_take, List.length_set, List.length_set, List.length_set, List.length_append]
    omega
  · rw [List.drop_set_of_lt hk, List.drop_set_of_lt hj, List.drop_set_of_lt hi, List.drop_left]

/-- `http_dissect_hdrs` passes over a `CR` at the front. -/
lemma hdrs_front (hlast : R.getLast? = some chNl) (maxhdr slots : Nat) (T done : List UInt8) :
    ∃ done' U, U = (if R.head? = some chCr then R.tail else R) ∧ U.getLast? = some chNl ∧
      done'.length + U.length = done.length + R.length ∧
      Dissect.hdrs maxhdr slots done (R ++ T) R.length =
        Dissect.loop maxhdr slots { done := done', rest := U ++ T, n := U.length, hd := [], conds := false } := by
  unfold Dissect.hdrs
  cases R with
  | nil => cases hlast
  | cons c R =>
    by_cases hc : c = chCr
    · have hne : R ≠ [] := by
        rintro rfl
        rw [hc] at hlast
        exact absurd (Option.some.inj hlast) (by decide)
      rw [if_pos (show (c :: R).head? = some chCr by rw [hc]; rfl),
        if_pos (show (c :: R ++ T).head? = some chCr by rw [hc]; rfl)]
      refine ⟨done ++ [chCr], R, rfl, last_append_ne (X := [c]) hne hlast, ?_, rfl⟩
      simp only [List.length_append, List.length_cons, List.length_nil]
      omega
    · rw [if_neg (show ¬ (c :: R).head? = some chCr from fun h => hc (Option.some.inj h)),
        if_neg (show ¬ (c :: R ++ T).head? = some chCr from fun h => hc (Option.some.inj h))]
      exact ⟨done, c :: R, rfl, hlast, rfl, rfl⟩

/-- `http_splitline` without an error of its own comes to the headers of the block. -/
lemma splitline_loop {block : List UInt8} {l : FirstLine} (hblock : IsBlock block) (maxhdr slots : Nat) (T : List UInt8)
    (hline : firstLine ((block ++ T).dropWhile vctIslws) = .ok l) :
    ∃ done, done.length + (hdrPart block).length = block.length ∧ (hdrPart block).getLast? = some chNl ∧
      httpSplitline maxhdr slots block.length (block ++ T) =
        (let r := Dissect.loop maxhdr slots
          { done := done, rest := hdrPart block ++ T, n := (hdrPart block).length, hd := [], conds := false }
        { status := r.1, line := [l.f1, l.f2, l.f3], hd := r.2.hd, conds := r.2.conds, buf := r.2.done ++ r.2.rest,
          r := r.2.done.length }) := by
  obtain ⟨w, x, b, R, hparts⟩ := block_parts hblock
  have hpart := hdrPart_eq hparts
  have hbuf : block ++ T = w ++ (x ++ (b ++ R) ++ T) := by
    rw [hparts.split, List.append_assoc]
  obtain ⟨htake, hdrop⟩ := takeWhile_lws hparts.lws (endsRun_append hparts.ends T)
  rw [hbuf, hdrop] at hline
  obtain ⟨hfields, hrest⟩ := firstLine_block hparts T hline
  have hlen : l.f1.length + l.s1.length + l.f2.length + l.s2.length + l.f3.length = x.length := by
    rw [hfields.split]
    simp only [List.length_append]
    omega
  have hskip := skipcrlf_break T hparts.brk
  have hpos := break_pos hparts.brk
  have hp : w.length + l.f1.length + l.s1.length + l.f2.length + l.s2.length + l.f3.length + skipcrlf l.rest =
      (w ++ x ++ b).length := by
    rw [hrest, hskip, List.length_append, List.length_append]
    omega
  have hfront : skipcrlf l.rest ≠ 0 := by
    rw [hrest, hskip]
    omega
  have hX : w ++ (x ++ (b ++ R) ++ T) = (w ++ x ++ b) ++ (R ++ T) := by simp only [List.append_assoc]
  obtain ⟨hdone, hR⟩ := set_front (X := w ++ x ++ b) (Y := R ++ T) (i := w.length + l.f1.length)
    (j := w.length + l.f1.length + l.s1.length + l.f2.length)
    (k := w.length + l.f1.length + l.s1.length + l.f2.length + l.s2.length + l.f3.length) (by omega) (by omega) (by omega)
  have hblen : block.length = (w ++ x ++ b).length + R.length := by
    rw [hparts.split]
    simp only [List.length_append]
    omega
  have hn : block.length - (w ++ x ++ b).length = R.length := by omega
  obtain ⟨done, U, hU, hUlast, hUlen, hloop⟩ := hdrs_front hparts.last maxhdr slots T
    ((((((w ++ x ++ b) ++ (R ++ T)).set (w.length + l.f1.length) 0).set
      (w.length + l.f1.length + l.s1.length + l.f2.length) 0).set
      (w.length + l.f1.length + l.s1.length + l.f2.length + l.s2.length + l.f3.length) 0).take (w ++ x ++ b).length)
  rw [hpart, ← hU]
  refine ⟨done, by omega, hUlast, ?_⟩
  rw [hbuf]
  unfold httpSplitline
  simp only [htake, hdrop, hline, hp, hn]
  rw [hX, hR, hloop]

/-- What `htc_header_complete` has found is a block. -/
lemma block_of_complete {t t' : List UInt8} {n : Nat} (hn : htcHeaderComplete t = (n, t')) (hpos : 0 < n) :
    ∃ block T, t = block ++ T ∧ IsBlock block ∧ block.length = n := by
  rcases htcHeaderComplete_cases t with ⟨-, hc⟩ | ⟨-, hc⟩ | ⟨block, T, ht, hblock, -, hc⟩
  · rw [hc] at hn
    exact absurd (Prod.mk.inj hn).1.symm (Nat.ne_of_gt hpos)
  · rw [hc] at hn
    exact absurd (Prod.mk.inj hn).1.symm (Nat.ne_of_gt hpos)
  · rw [hc] at hn
    exact ⟨block, T, ht, hblock, (Prod.mk.inj hn).1⟩

lemma clearLws_eq : clearLws T = T ↔ ∀ c ∈ T.takeWhile vctIslws, c = chSpace := by
  unfold clearLws
  conv_lhs => rhs; rw [← List.takeWhile_append_dropWhile (p := vctIslws) (l := T)]
  rw [List.append_left_inj, eq_comm, List.eq_replicate_iff]
  exact and_iff_right rfl

/-- `http_splitline`, as far as where it comes to and the bytes behind the message go. -/
lemma splitline_end {block : List UInt8} (hblock : IsBlock block) (maxhdr slots : Nat) (T : List UInt8) :
    let d := httpSplitline maxhdr slots block.length (block ++ T)
    ¬ FirstLineOk block ∧ d.status ≠ 0 ∧ d.buf.drop block.length = T ∨
      FirstLineOk block ∧ ∃ fs S k, Dissects (hdrPart block) fs S k ∧ (d.status = 0 → d.r + S.length = block.length) ∧
        (k = true ∧ EarlierFit maxhdr slots (hdrPart block) → d.buf.drop block.length = clearLws T) ∧
        (¬ (k = true ∧ EarlierFit maxhdr slots (hdrPart block)) → d.buf.drop block.length = T) := by
  intro d
  rw [firstLine_iff hblock T]
  cases hline : firstLine ((block ++ T).dropWhile vctIslws) with
  | error e =>
    left
    have hd : d = { status := e, line := [], hd := [], conds := false, buf := block ++ T, r := 0 } := by
      simp only [d]
      unfold httpSplitline
      simp only [hline]
    rw [hd]
    refine ⟨?_, ?_, List.drop_left⟩
    · rintro ⟨l, hl⟩
      cases hl
    · rcases firstLine_error hline with rfl | rfl
      · exact show 400 ≠ 0 by decide
      · exact show 413 ≠ 0 by decide
  | ok l =>
    right
    obtain ⟨done, hdone, hlast, hrun⟩ := splitline_loop hblock maxhdr slots T hline
    obtain ⟨fs, S, k, hdissects⟩ := dissects_exists (Or.inr hlast)
    obtain ⟨haccepted, U, hU, hclear, hkeep⟩ := loop_spec hdissects maxhdr slots T done [] false
    rw [hdone] at haccepted hU
    refine ⟨⟨l, rfl⟩, fs, S, k, hdissects, fun h0 => ?_, fun hpast => ?_, fun hpast => ?_⟩
    · simp only [d, hrun] at h0 ⊢
      exact (haccepted h0).2.2
    · simp only [d, hrun]
      rw [hclear hpast]
      exact List.drop_left' hU
    · simp only [d, hrun]
      rw [hkeep hpast]
      exact List.drop_left' hU

theorem dissect_stops_at_end {t t' : List UInt8} {n : Nat} (hn : htcHeaderComplete t = (n, t')) (hpos : 0 < n)
    (maxhdr slots : Nat) (haccepted : (httpSplitline maxhdr slots n t).status = 0) :
    (httpSplitline maxhdr slots n t).r = n ↔ ¬ EarlyStop (hdrPart (t.take n)) := by
  obtain ⟨block, T, rfl, hblock, rfl⟩ := block_of_complete hn hpos
  rw [List.take_left]
  rcases splitline_end hblock maxhdr slots T with ⟨-, hno, -⟩ | ⟨-, fs, S, k, hdissects, hr, -, -⟩
  · exact absurd haccepted hno
  · have hend := hr haccepted
    rw [earlyStop_iff hdissects, not_not, ← List.length_eq_zero_iff]
    omega

/-- A request with two headers, and a `CR` too many between them. -/
def crMsg : List UInt8 :=
  bytes "GET / HTTP/1.1" ++ [13, 10] ++ bytes "A: b" ++ [13, 13, 10] ++ bytes "C: d" ++ [13, 10, 13, 10]

/-- The first line of a request for `/`. -/
def getLine (rest : List UInt8) : FirstLine := ⟨bytes "GET", [32], bytes "/", [32], bytes "HTTP/1.1", rest⟩

lemma crMsg_run : (httpSplitline 100 10 crMsg.length crMsg).status = 0 ∧
    (httpSplitline 100 10 crMsg.length crMsg).r + 8 = crMsg.length := by
  have hblock : IsBlock crMsg := by unfold IsBlock; decide
  have hline : firstLine ((crMsg ++ []).dropWhile vctIslws) = .ok (getLine (crMsg.drop 14)) := rfl
  have hpart : hdrPart crMsg = bytes "A: b" ++ [13, 13, 10] ++ bytes "C: d" ++ [13, 10, 13, 10] := by decide
  obtain ⟨done, hdone, -, hrun⟩ := splitline_loop hblock 100 10 [] hline
  have hloop : Dissect.loop 100 10 ⟨done, hdrPart crMsg ++ [], (hdrPart crMsg).length, [], false⟩ =
      (0, ⟨done ++ (bytes "A: b" ++ [0] ++ [13, 10]), bytes "C: d" ++ [13, 10, 13, 10], 8, [bytes "A: b"], false⟩) := by
    rw [hpart, ← List.append_assoc done]
    rfl
  rw [List.append_nil] at hrun
  rw [hrun, hloop]
  have hlen : (hdrPart crMsg).length = 15 := by decide
  have hseg : (bytes "A: b" ++ [0] ++ [13, 10]).length = 7 := by decide
  refine ⟨rfl, ?_⟩
  change (done ++ (bytes "A: b" ++ [0] ++ [13, 10])).length + 8 = crMsg.length
  rw [List.length_append, hseg]
  omega

/-- A request with a header that goes on in the next line. -/
def contMsg : List UInt8 :=
  bytes "GET / HTTP/1.1" ++ [13, 10] ++ (bytes "A: b" ++ ([13, 10, 32] ++ (bytes "c" ++ ([13, 10] ++ [13, 10]))))

lemma contMsg_part : hdrPart contMsg = bytes "A: b" ++ ([13, 10, 32] ++ (bytes "c" ++ ([13, 10] ++ [13, 10]))) :=
  by decide

lemma contMsg_dissects : Dissects (hdrPart contMsg) [bytes "A: b" ++ spaces 3 ++ bytes "c"] [] false := by
  have hfold : IsFold [13, 10, 32] := ⟨⟨[13, 10], [32], rfl, .crlf _, rfl⟩, forall_mem_of_all rfl⟩
  have hends : EndsRun (bytes "c" ++ ([13, 10] ++ [13, 10])) := ⟨99, [13, 10, 13, 10], by decide, by decide⟩
  have hA : NoCrlf (bytes "A: b") := forall_mem_of_all rfl
  have hc : NoCrlf (bytes "c") := forall_mem_of_all rfl
  rw [contMsg_part]
  refine .field (.fold hA hfold hends (.stop hc (.crlf [13, 10]) rfl)) (by decide) (.stop (b := [13, 10]) ?_)
  exact .stop (x := []) (fun c hmem => absurd hmem List.not_mem_nil) (.crlf []) rfl

lemma contMsg_open : ¬ EarlyStop (hdrPart contMsg) := by
  rw [earlyStop_iff contMsg_dissects, not_not]

lemma contMsg_accepted : (httpSplitline 100 10 contMsg.length contMsg).status = 0 := by
  have hblock : IsBlock contMsg := by unfold IsBlock; decide
  have hline : firstLine ((contMsg ++ []).dropWhile vctIslws) = .ok (getLine (contMsg.drop 14)) := rfl
  obtain ⟨done, -, -, hrun⟩ := splitline_loop hblock 100 10 [] hline
  rw [List.append_nil] at hrun
  rw [hrun, contMsg_part]
  rfl

theorem dissect_stops_at_end_cont : (httpSplitline 100 10 contMsg.length contMsg).r = contMsg.length :=
  (dissect_stops_at_end (show htcHeaderComplete contMsg = (contMsg.length, contMsg) by decide) (by decide) 100 10
    contMsg_accepted).mpr (by rw [List.take_length]; exact contMsg_open)

/-- The second header is not looked at. -/
theorem dissect_header_ignored :
    ¬ ((htcHeaderComplete crMsg).1 = crMsg.length → (httpSplitline 100 10 crMsg.length crMsg).status = 0 →
      (httpSplitline 100 10 crMsg.length crMsg).r = crMsg.length) := by
  obtain ⟨hstatus, hr⟩ := crMsg_run
  intro hclaim
  have hend := hclaim (by decide) hstatus
  omega

/-- A well-formed first line, a fold up to the end of the message that no early stop and no limit keeps the
dissection from, and white space behind the message that is not all spaces. -/
structure ClearsBehind (maxhdr slots : Nat) (block T : List UInt8) : Prop where
  line : FirstLineOk block
  last : PastEnd (hdrPart block)
  through : ¬ EarlyStop (hdrPart block)
  fits : EarlierFit maxhdr slots (hdrPart block)
  dirty : ∃ c ∈ T.takeWhile vctIslws, c ≠ chSpace

theorem dissect_keeps_pipeline {t t' : List UInt8} {n : Nat} (hn : htcHeaderComplete t = (n, t')) (hpos : 0 < n)
    (maxhdr slots : Nat) :
    (httpSplitline maxhdr slots n t).buf.drop n = t.drop n ↔ ¬ ClearsBehind maxhdr slots (t.take n) (t.drop n) := by
  obtain ⟨block, T, rfl, hblock, rfl⟩ := block_of_complete hn hpos
  rw [List.take_left, List.drop_left]
  have hspaces : (¬ ∃ c ∈ T.takeWhile vctIslws, c ≠ chSpace) ↔ clearLws T = T := by
    rw [clearLws_eq]
    simp only [not_exists, not_and, ne_eq, not_not]
  rcases splitline_end hblock maxhdr slots T with ⟨hline, -, hkept⟩ | ⟨hline, fs, S, k, hdissects, -, hclear, hkeep⟩
  · exact iff_of_true hkept (fun hdirty => hline hdirty.line)
  · have hpast : k = true ↔ PastEnd (hdrPart block) ∧ ¬ EarlyStop (hdrPart block) := by
      by_cases hstop : EarlyStop (hdrPart block)
      · rw [stop_no_past hdissects hstop]
        exact iff_of_false Bool.false_ne_true (fun h => h.2 hstop)
      · rw [pastEnd_iff hdissects hstop, and_iff_left hstop]
    by_cases hgoes : k = true ∧ EarlierFit maxhdr slots (hdrPart block)
    · rw [hclear hgoes, ← hspaces]
      obtain ⟨hend, hthrough⟩ := hpast.mp hgoes.1
      exact not_congr ⟨fun hdirty => ⟨hline, hend, hthrough, hgoes.2, hdirty⟩, ClearsBehind.dirty⟩
    · exact iff_of_true (hkeep hgoes) (fun h => hgoes ⟨hpast.mpr ⟨h.last, h.through⟩, h.fits⟩)

/-- A request whose header has a continuation line of one blank. -/
def foldMsg : List UInt8 := bytes "GET / HTTP/1.1" ++ [13, 10] ++ bytes "A: b" ++ [13, 10, 32, 13, 10, 13, 10]

/-- What comes behind it, with an empty line in front. -/
def foldPipeline : List UInt8 := [13, 10] ++ bytes "GET"

lemma foldMsg_run : (httpSplitline 100 10 foldMsg.length (foldMsg ++ foldPipeline)).buf.drop foldMsg.length =
    [32, 32] ++ bytes "GET" := by
  have hblock : IsBlock foldMsg := by unfold IsBlock; decide
  have hline : firstLine ((foldMsg ++ foldPipeline).dropWhile vctIslws) =
      .ok (getLine (foldMsg.drop 14 ++ foldPipeline)) := rfl
  have hpart : hdrPart foldMsg = bytes "A: b" ++ [13, 10, 32, 13, 10, 13, 10] := by decide
  obtain ⟨done, hdone, -, hrun⟩ := splitline_loop hblock 100 10 foldPipeline hline
  have hloop : Dissect.loop 100 10 ⟨done, hdrPart foldMsg ++ foldPipeline, (hdrPart foldMsg).length, [], false⟩ =
      (0, ⟨done ++ (bytes "A: b" ++ [0] ++ spaces 6), [32, 32] ++ bytes "GET", 0, [bytes "A: b"], false⟩) := by
    rw [hpart]
    rfl
  rw [hrun, hloop]
  refine List.drop_left' ?_
  have hlen : (hdrPart foldMsg).length = 11 := by decide
  have hseg : (bytes "A: b" ++ [0] ++ spaces 6).length = 11 := by decide
  rw [List.length_append, hseg, ← hlen]
  exact hdone

/-- A fold with text in it does not go on behind the message. -/
theorem dissect_keeps_pipeline_cont :
    (httpSplitline 100 10 contMsg.length (contMsg ++ foldPipeline)).buf.drop contMsg.length =
      (contMsg ++ foldPipeline).drop contMsg.length := by
  refine (dissect_keeps_pipeline
    (show htcHeaderComplete (contMsg ++ foldPipeline) = (contMsg.length, contMsg ++ foldPipeline) by decide) (by decide)
    100 10).mpr fun hclears => ?_
  have hlast := hclears.last
  rw [List.take_left, pastEnd_iff contMsg_dissects contMsg_open] at hlast
  cases hlast

/-- The empty line is two spaces afterwards. -/
theorem dissect_pipeline_cleared :
    ¬ ((htcHeaderComplete (foldMsg ++ foldPipeline)).1 = foldMsg.length →
      (httpSplitline 100 10 foldMsg.length (foldMsg ++ foldPipeline)).buf.drop foldMsg.length =
        (foldMsg ++ foldPipeline).drop foldMsg.length) := by
  intro hclaim
  have hsame := hclaim (by decide)
  rw [foldMsg_run, List.drop_left] at hsame
  exact absurd hsame (by decide)

end VarnishCache.Proofs
