import VarnishCache.Proofs.HttpDissectEnd

/-!
# Header lines

The logical lines of a header block, and when they are the headers that `http_dissect_hdrs` makes of it: no line has a
`CR` of its own in it, and no continuation line of blanks only has a line behind it that is none.
-/

namespace VarnishCache.Proofs

variable {b e w x brk R S T U Y Z txt tail : List UInt8} {k : Bool} {y : UInt8} {fs : List Txt} {i : Nat}

/-! ## The lines of a block -/

/-- A line and its line break. -/
structure HdrLine where
  txt : Txt
  brk : List UInt8
  deriving DecidableEq

/-- A `CR` in front of the `LF` is part of the line break. -/
def cutBreak (x : Txt) : HdrLine := if x.getLast? = some chCr then ⟨x.dropLast, [chCr, chNl]⟩ else ⟨x, [chNl]⟩

/-- The lines up to the empty one, the first of them from `cur` on. -/
def hdrLinesFrom (cur : Txt) : List UInt8 → List HdrLine
  | [] => []
  | c :: p =>
    if c ≠ chNl then hdrLinesFrom (cur ++ [c]) p
    else if (cutBreak cur).txt = [] then []
    else cutBreak cur :: hdrLinesFrom [] p

def hdrLines (R : List UInt8) : List HdrLine := hdrLinesFrom [] R

/-- The line continues the one before. -/
def HdrLine.continues (l : HdrLine) : Bool := headBlank l.txt

/-- The blanks at the front as spaces: with the line break they are what a continuation is folded by. -/
def spread (x : Txt) : Txt := spaces (x.takeWhile vctIssp).length ++ x.dropWhile vctIssp

/-- The logical lines, the first of them from `cur` and its line break on. -/
def joinLines (cur : Txt) (brk : List UInt8) : List HdrLine → List Txt
  | [] => [cur]
  | l :: ls =>
    if l.continues then joinLines (cur ++ spaces brk.length ++ spread l.txt) l.brk ls
    else cur :: joinLines l.txt l.brk ls

/-- Each logical line with the blanks at its end. -/
def logicalTexts : List HdrLine → List Txt
  | [] => []
  | l :: ls => joinLines l.txt l.brk ls

def logicalLines (ls : List HdrLine) : List Txt := (logicalTexts ls).map trimBlanks

def HdrLine.blank (l : HdrLine) : Bool := l.txt.all vctIssp

/-- A continuation line of blanks only, with a line behind it that is no continuation. -/
def BlankFold (ls : List HdrLine) : Prop :=
  ∃ A m n B, ls = A ++ m :: n :: B ∧ A ≠ [] ∧ m.blank = true ∧ n.continues = false

/-- What the lines look like in the block. -/
structure HdrLine.Ok (l : HdrLine) : Prop where
  txt : l.txt ≠ []
  lf : chNl ∉ l.txt
  brk : l.brk = [chNl] ∨ l.brk = [chCr, chNl]

/-- The bytes of the lines, with `e` behind them. -/
def render (ls : List HdrLine) (e : List UInt8) : List UInt8 := ls.flatMap (fun l => l.txt ++ l.brk) ++ e

lemma render_nil (e : List UInt8) : render [] e = e := rfl

lemma render_cons (l : HdrLine) (ls : List HdrLine) (e : List UInt8) :
    render (l :: ls) e = l.txt ++ (l.brk ++ render ls e) := by
  simp only [render, List.flatMap_cons, List.append_assoc]

lemma render_append (ls ms : List HdrLine) (e : List UInt8) : render (ls ++ ms) e = render ls (render ms e) := by
  simp only [render, List.flatMap_append, List.append_assoc]

lemma cutBreak_eq (x : Txt) : (cutBreak x).txt ++ (cutBreak x).brk = x ++ [chNl] := by
  unfold cutBreak
  split
  next h =>
    obtain ⟨v, rfl⟩ := List.getLast?_eq_some_iff.mp h
    rw [List.dropLast_concat, List.append_assoc]
    rfl
  next => rfl

lemma cutBreak_brk (x : Txt) : (cutBreak x).brk = [chNl] ∨ (cutBreak x).brk = [chCr, chNl] := by
  unfold cutBreak
  split
  · exact Or.inr rfl
  · exact Or.inl rfl

lemma cutBreak_txt (x : Txt) : (cutBreak x).txt <+: x := by
  unfold cutBreak
  split
  · exact List.dropLast_prefix x
  · exact List.prefix_rfl

lemma hdrLinesFrom_text (cur : Txt) (p : List UInt8) (hx : chNl ∉ x) :
    hdrLinesFrom cur (x ++ p) = hdrLinesFrom (cur ++ x) p := by
  induction x generalizing cur with
  | nil => rw [List.nil_append, List.append_nil]
  | cons c x ih =>
    have hc : c ≠ chNl := fun h => hx (h ▸ List.mem_cons_self)
    rw [List.cons_append, hdrLinesFrom, if_pos hc, ih _ (fun h => hx (List.mem_cons_of_mem _ h)), List.append_assoc,
      List.singleton_append]

/-- `htc_header_complete` goes over the bytes that are no `LF`. -/
lemma headerEnd_text (p : List UInt8) (hx : chNl ∉ x) (h : headerEnd (x ++ p) = some i) :
    ∃ j, headerEnd p = some j ∧ i = x.length + j := by
  induction x generalizing i with
  | nil => exact ⟨i, h, (Nat.zero_add i).symm⟩
  | cons c x ih =>
    have hc : c ≠ chNl := fun h => hx (h ▸ List.mem_cons_self)
    rw [List.cons_append, headerEnd] at h
    split at h
    · cases h
    · obtain ⟨i', hi', rfl⟩ := Option.map_eq_some_iff.mp h
      obtain ⟨j, hj, rfl⟩ := ih (fun h => hx (List.mem_cons_of_mem _ h)) hi'
      exact ⟨j, hj, by rw [List.length_cons, Nat.add_right_comm]⟩

/-- A complete block is its lines and an empty one. -/
lemma block_lines (h : headerEnd (chNl :: R) = some (R.length + 1)) :
    ∃ e, (e = [chNl] ∨ e = [chCr, chNl]) ∧ R = render (hdrLines R) e ∧ ∀ l ∈ hdrLines R, l.Ok := by
  induction hn : R.length using Nat.strong_induction_on generalizing R with
  | _ n ih =>
    rw [headerEnd, if_neg (by decide), if_neg (by decide)] at h
    split at h
    next j hj =>
      obtain rfl : j = R.length := Nat.succ_inj.mp (Option.some.inj h)
      rcases emptyLine_all hj with rfl | rfl
      · exact ⟨[chCr, chNl], Or.inr rfl, rfl, fun l hl => absurd hl List.not_mem_nil⟩
      · exact ⟨[chNl], Or.inl rfl, rfl, fun l hl => absurd hl List.not_mem_nil⟩
    next hempty =>
      obtain ⟨i, hi, heq⟩ := Option.map_eq_some_iff.mp h
      obtain rfl : i = R.length := Nat.succ_inj.mp heq
      have hlast := headerEnd_last hi
      obtain ⟨x, Z, rfl, hx⟩ := List.eq_append_cons_of_mem (List.mem_of_getLast? hlast)
      obtain ⟨j, hj, hlen⟩ := headerEnd_text _ hx hi
      have hlines : hdrLines (x ++ chNl :: Z) =
          if (cutBreak x).txt = [] then [] else cutBreak x :: hdrLines Z := by
        unfold hdrLines
        rw [hdrLinesFrom_text _ _ hx, hdrLinesFrom, if_neg (by simp), List.nil_append]
      have hne : (cutBreak x).txt ≠ [] := by
        intro hnil
        have hsplit := cutBreak_eq x
        rw [hnil, List.nil_append] at hsplit
        rw [show x ++ chNl :: Z = (x ++ [chNl]) ++ Z by rw [List.append_assoc]; rfl, ← hsplit] at hempty
        rcases cutBreak_brk x with hb | hb
        · rw [hb] at hempty
          cases hempty
        · rw [hb] at hempty
          cases hempty
      rw [if_neg hne] at hlines
      rw [List.length_append, List.length_cons, Nat.add_left_cancel_iff] at hlen
      obtain ⟨e, he, hrender, hok⟩ := ih Z.length (by rw [← hn, List.length_append, List.length_cons]; omega)
        (hlen ▸ hj) rfl
      refine ⟨e, he, ?_, ?_⟩
      · rw [hlines, render_cons, ← hrender, ← List.append_assoc, cutBreak_eq, List.append_assoc]
        rfl
      · rw [hlines]
        intro l hl
        rcases List.mem_cons.mp hl with rfl | hl
        · exact ⟨hne, fun hmem => hx ((cutBreak_txt x).mem hmem), cutBreak_brk x⟩
        · exact hok l hl

/-! ## A line and its continuations -/

/-- What continuation lines add to the line before, which ends in `brk`. -/
def contText (brk : List UInt8) : List HdrLine → Txt
  | [] => []
  | l :: cs => spaces brk.length ++ (spread l.txt ++ contText l.brk cs)

/-- The last of them is blanks only. -/
def endsBlank (cs : List HdrLine) : Bool := cs.getLast?.any HdrLine.blank

/-- A line that the code takes as it is. -/
structure HdrLine.Plain (l : HdrLine) : Prop extends HdrLine.Ok l where
  cr : chCr ∉ l.txt

lemma ls_split (ls : List HdrLine) :
    ∃ cs rest, ls = cs ++ rest ∧ (∀ l ∈ cs, l.continues = true) ∧ ∀ l ∈ rest.head?, l.continues = false := by
  refine ⟨ls.takeWhile HdrLine.continues, ls.dropWhile HdrLine.continues, (List.takeWhile_append_dropWhile).symm, ?_, ?_⟩
  · exact fun l hl => List.mem_takeWhile_imp hl
  · intro l hl
    have hhead := List.head?_dropWhile_not HdrLine.continues ls
    rw [Option.mem_def.mp hl] at hhead
    exact hhead

lemma joinLines_append (cur : Txt) (brk : List UInt8) {cs rest : List HdrLine} (hcs : ∀ l ∈ cs, l.continues = true)
    (hrest : ∀ l ∈ rest.head?, l.continues = false) :
    joinLines cur brk (cs ++ rest) = (cur ++ contText brk cs) :: logicalTexts rest := by
  induction cs generalizing cur brk with
  | nil =>
    rw [contText, List.append_nil, List.nil_append]
    cases rest with
    | nil => rfl
    | cons l rest =>
      rw [joinLines, if_neg (Bool.not_eq_true _ ▸ hrest l rfl)]
      rfl
  | cons l cs ih =>
    rw [List.cons_append, joinLines, if_pos (hcs l List.mem_cons_self),
      ih _ _ (fun m hm => hcs m (List.mem_cons_of_mem _ hm)), contText]
    simp only [List.append_assoc]

/-- The white space in front of text, or all of it, is found in one way only. -/
lemma lws_unique (hw : AllLws w) (hx : AllLws x) (hY : EndsRun Y) (hZ : EndsRun Z) (heq : w ++ Y = x ++ Z) :
    w = x ∧ Y = Z := by
  have hno : ∀ {v U : List UInt8}, AllLws v → EndsRun U → (v ++ U).takeWhile vctIslws = v := by
    rintro v U hv ⟨y, U, rfl, hy⟩
    rw [List.takeWhile_append_of_pos hv, List.takeWhile_cons_of_neg (by rw [hy]; exact Bool.false_ne_true),
      List.append_nil]
  have hsame : w = x := by
    rw [← hno hw hY, heq, hno hx hZ]
  rw [hsame] at heq
  exact ⟨hsame, List.append_cancel_left heq⟩

/-- White space goes at least as far as it is white space. -/
lemma lws_longer (hx : AllLws x) (hY : EndsRun Y) (heq : w ++ Y = x ++ Z) : ∃ v, w = x ++ v ∧ v ++ Y = Z := by
  rcases List.append_eq_append_iff.mp heq with ⟨v, rfl, rfl⟩ | ⟨v, rfl, hv⟩
  · cases v with
    | nil => exact ⟨[], by rw [List.append_nil, List.append_nil], rfl⟩
    | cons y v =>
      obtain ⟨z, Y', heq', hz⟩ := hY
      obtain ⟨rfl, -⟩ := List.cons.inj heq'
      rw [hx y (List.mem_append_right _ List.mem_cons_self)] at hz
      cases hz
  · exact ⟨v, rfl, hv.symm⟩

lemma lineBreak_lws (hb : b = [chNl] ∨ b = [chCr, chNl]) : AllLws b := by
  rcases hb with rfl | rfl
  · exact break_lws (.lf [])
  · exact break_lws (.crlf [])

lemma lineBreak_break (hb : b = [chNl] ∨ b = [chCr, chNl]) (Z : List UInt8) : IsBreak b Z := by
  rcases hb with rfl | rfl
  · exact .lf Z
  · exact .crlf Z

lemma plain_noCrlf {l : HdrLine} (h : l.Plain) : NoCrlf l.txt := by
  intro y hy
  unfold vctIscrlf
  rw [Bool.or_eq_false_iff, decide_eq_false_iff_not, decide_eq_false_iff_not]
  exact ⟨fun hcr => h.cr (hcr ▸ hy), fun hlf => h.lf (hlf ▸ hy)⟩

lemma blank_spread {x : Txt} (hx : x.all vctIssp = true) : spread x = spaces x.length := by
  unfold spread
  rw [List.all_eq_true] at hx
  rw [List.takeWhile_eq_self_iff.mpr hx, List.dropWhile_eq_nil_iff.mpr hx, List.append_nil]

lemma blanks_lws (hx : ∀ c ∈ x, vctIssp c = true) : AllLws x := fun c hc => blank_lws (hx c hc)

lemma allLws_append (hw : AllLws w) (hx : AllLws x) : AllLws (w ++ x) := by
  intro c hc
  rcases List.mem_append.mp hc with hc | hc
  · exact hw c hc
  · exact hx c hc

/-- The text of a line from its first byte on that is no blank. -/
lemma text_endsRun {l : HdrLine} (h : l.Plain) (hblank : l.blank = false) : EndsRun (l.txt.dropWhile vctIssp) := by
  cases hd : l.txt.dropWhile vctIssp with
  | nil =>
    have hall := List.dropWhile_eq_nil_iff.mp hd
    rw [← List.all_eq_true] at hall
    rw [HdrLine.blank, hall] at hblank
    cases hblank
  | cons y u =>
    have hne : l.txt.dropWhile vctIssp ≠ [] := by
      rw [hd]
      exact List.cons_ne_nil _ _
    have hy := List.head_dropWhile_not vctIssp hne
    simp only [hd, List.head_cons] at hy
    have hmem : y ∈ l.txt := (List.dropWhile_suffix vctIssp).mem (by rw [hd]; exact List.mem_cons_self)
    refine ⟨y, u, rfl, ?_⟩
    rw [vctIslws_eq]
    rw [plain_noCrlf h y hmem, Bool.false_or]
    exact Bool.not_eq_true _ ▸ hy

/-- How far a fold goes over continuation lines: up to the text of one of them, or over all. -/
inductive FoldTo (w Y brk : List UInt8) (cs : List HdrLine) (tail : List UInt8) : Prop where
  | text (x b : List UInt8) (ds : List HdrLine) (hY : Y = x ++ (b ++ render ds tail)) (hends : EndsRun x) (hx : NoCrlf x)
    (hb : b = [chNl] ∨ b = [chCr, chNl]) (hds : ∀ l ∈ ds, l.Plain ∧ l.continues = true) (hcs : cs ≠ [])
    (htext : contText brk cs = spaces w.length ++ (x ++ contText b ds)) (hblank : endsBlank cs = endsBlank ds)
  | tail (hY : Y = tail) (hlt : (contText brk cs).length < w.length) (hblank : cs ≠ [] → endsBlank cs = true)

lemma endsBlank_cons (l : HdrLine) {cs : List HdrLine} (h : cs ≠ []) : endsBlank (l :: cs) = endsBlank cs := by
  obtain ⟨m, cs, rfl⟩ := List.exists_cons_of_ne_nil h
  rfl

lemma fold_lines {cs : List HdrLine} (hcs : ∀ l ∈ cs, l.Plain ∧ l.continues = true)
    (hbrk : brk = [chNl] ∨ brk = [chCr, chNl]) (hw : AllLws w) (hY : EndsRun Y) (htail : AllLws tail ∨ EndsRun tail)
    (heq : w ++ Y = brk ++ render cs tail) : FoldTo w Y brk cs tail := by
  induction cs generalizing brk w with
  | nil =>
    rw [render_nil] at heq
    rcases htail with htail | htail
    · obtain ⟨y, u, rfl, hy⟩ := hY
      have hlws := allLws_append (lineBreak_lws hbrk) htail y (by
        rw [← heq]
        exact List.mem_append_right _ List.mem_cons_self)
      rw [hlws] at hy
      cases hy
    · obtain ⟨rfl, rfl⟩ := lws_unique hw (lineBreak_lws hbrk) hY htail heq
      exact .tail rfl (break_pos (lineBreak_break hbrk [])) (fun h => absurd rfl h)
  | cons l cs ih =>
    obtain ⟨hl, hcont⟩ := hcs l List.mem_cons_self
    have hrest : ∀ m ∈ cs, m.Plain ∧ m.continues = true := fun m hm => hcs m (List.mem_cons_of_mem _ hm)
    rw [render_cons] at heq
    cases hblank : l.blank with
    | true =>
      -- a line of blanks goes with the fold
      have hall : ∀ c ∈ l.txt, vctIssp c = true := List.all_eq_true.mp hblank
      have hlws := allLws_append (lineBreak_lws hbrk) (blanks_lws hall)
      rw [← List.append_assoc] at heq
      obtain ⟨v, rfl, hv⟩ := lws_longer hlws hY heq
      have hvlws : AllLws v := fun c hc => hw c (List.mem_append_right _ hc)
      have hlen : (brk ++ l.txt ++ v).length = brk.length + l.txt.length + v.length := by
        rw [List.length_append, List.length_append]
      have htext : contText brk (l :: cs) = spaces (brk.length + l.txt.length) ++ contText l.brk cs := by
        rw [contText, blank_spread hblank, ← List.append_assoc, spaces, spaces, ← List.replicate_add, spaces]
      cases ih hrest hl.brk hvlws hv with
      | text x b ds hY' hends hx hb hds hne htext' hblank' =>
        refine .text x b ds hY' hends hx hb hds (List.cons_ne_nil _ _) ?_ ?_
        · rw [htext, htext', hlen, ← List.append_assoc, spaces, spaces, ← List.replicate_add, spaces]
        · rw [endsBlank_cons l hne, hblank']
      | tail hY' hlt hblank' =>
        refine .tail hY' ?_ (fun _ => ?_)
        · rw [htext, hlen, List.length_append, length_spaces]
          omega
        · by_cases hne : cs = []
          · rw [hne]
            exact hblank
          · rw [endsBlank_cons l hne, hblank' hne]
    | false =>
      have hends := text_endsRun hl hblank
      have hall : ∀ c ∈ l.txt.takeWhile vctIssp, vctIssp c = true := fun c hc => List.mem_takeWhile_imp hc
      have hlws := allLws_append (lineBreak_lws hbrk) (blanks_lws hall)
      have hsplit : l.txt = l.txt.takeWhile vctIssp ++ l.txt.dropWhile vctIssp := (List.takeWhile_append_dropWhile).symm
      rw [hsplit, List.append_assoc, ← List.append_assoc] at heq
      obtain ⟨rfl, rfl⟩ := lws_unique hw hlws hY (endsRun_append hends _) heq
      refine .text _ l.brk cs rfl hends (fun c hc => plain_noCrlf hl c ((List.dropWhile_suffix _).mem hc)) hl.brk hrest
        (List.cons_ne_nil _ _) ?_ ?_
      · rw [contText, spread, List.length_append, spaces, spaces, spaces, List.replicate_add]
        simp only [List.append_assoc]
      · by_cases hne : cs = []
        · rw [hne]
          exact hblank
        · exact endsBlank_cons l hne

/-- Where the scan merges the line behind the continuations. -/
def Merges (cs : List HdrLine) (tail : List UInt8) : Prop := endsBlank cs = true ∧ EndsRun tail

/-- What the scan makes of the logical line `g`, which may have a continuation of blanks only at its end. -/
structure ScanLine (g txt : Txt) (merges blank : Prop) (tail Z : List UInt8) (k : Bool) : Prop where
  merged : merges → (trimBlanks g).length < (trimBlanks txt).length
  kept : ¬ merges → trimBlanks txt = trimBlanks g
  stops : ¬ merges → k = false → Z = tail ∧ txt.length = g.length
  goesOn : ¬ merges → k = true → ¬ EndsRun tail ∧ blank

lemma contText_blank {cs : List HdrLine} (h : ∀ l ∈ cs, ∀ c ∈ l.txt, vctIssp c = true) (brk : List UInt8) :
    ∀ c ∈ contText brk cs, vctIssp c = true := by
  induction cs generalizing brk with
  | nil => exact fun c hc => absurd hc List.not_mem_nil
  | cons l cs ih =>
    have hall : l.txt.all vctIssp = true := List.all_eq_true.mpr (h l List.mem_cons_self)
    intro c hc
    rw [contText, blank_spread hall] at hc
    rcases List.mem_append.mp hc with hc | hc
    · exact blank_spaces _ c hc
    rcases List.mem_append.mp hc with hc | hc
    · exact blank_spaces _ c hc
    · exact ih (fun m hm => h m (List.mem_cons_of_mem _ hm)) l.brk c hc

lemma render_tail (cs : List HdrLine) (e : List UInt8) : ∃ v, render cs e = v ++ e := ⟨_, rfl⟩

lemma mem_render {l : HdrLine} {cs : List HdrLine} (hl : l ∈ cs) {c : UInt8} (hc : c ∈ l.txt) (tail : List UInt8) :
    c ∈ render cs tail :=
  List.mem_append_left _ (List.mem_flatMap.mpr ⟨l, hl, List.mem_append_left _ hc⟩)

lemma endsRun_trim (hx : EndsRun x) (U : List UInt8) : trimBlanks (x ++ U) ≠ [] := by
  obtain ⟨y, u, rfl, hy⟩ := hx
  intro hnil
  have hblank := trimBlanks_nil hnil y List.mem_cons_self
  rw [(not_lws hy).2] at hblank
  cases hblank

/-- Text in front of the scan is text in front of the header. -/
lemma scanTo_text (h : ScanTo R txt b Z k) (hR : EndsRun R) : trimBlanks txt ≠ [] := by
  obtain ⟨y, u, rfl, hy⟩ := hR
  have hno := not_lws hy
  have hx : ∀ {x Y : List UInt8}, y :: u = x ++ Y → (∃ z v, Y = z :: v ∧ vctIscrlf z = true) →
      ∃ x', x = y :: x' := by
    intro x Y heq hY
    cases x with
    | nil =>
      obtain ⟨z, v, rfl, hz⟩ := hY
      obtain ⟨rfl, -⟩ := List.cons.inj heq
      rw [hno.1] at hz
      cases hz
    | cons z x =>
      obtain ⟨rfl, -⟩ := List.cons.inj heq
      exact ⟨x, rfl⟩
  generalize heq : y :: u = R at h
  cases h with
  | stop hx' hb hZ =>
    obtain ⟨x', rfl⟩ := hx heq (break_front hb)
    have hne := endsRun_trim ⟨y, x', rfl, hy⟩ []
    rwa [List.append_nil] at hne
  | fold hx' hw hY h =>
    obtain ⟨x', rfl⟩ := hx heq (run_front (run_of_fold hw) _)
    exact endsRun_trim ⟨y, x', rfl, hy⟩ _
  | past hx' hw =>
    obtain ⟨x', rfl⟩ := hx heq (fold_front hw)
    exact endsRun_trim ⟨y, x', rfl, hy⟩ _

lemma scan_lines (h : ScanTo R txt b Z k) {cs : List HdrLine} (hR : R = x ++ (brk ++ render cs tail)) (hx : NoCrlf x)
    (hbrk : brk = [chNl] ∨ brk = [chCr, chNl]) (hcs : ∀ l ∈ cs, l.Plain ∧ l.continues = true)
    (htail : AllLws tail ∨ EndsRun tail) (hhead : headBlank tail = false) :
    ScanLine (x ++ contText brk cs) txt (Merges cs tail) (endsBlank cs = true) tail Z k := by
  induction h generalizing x brk cs with
  | @stop x' b Z hx' hb hZ =>
    obtain ⟨rfl, heq⟩ := text_unique hx' hx (break_front (lineBreak_break hbrk _)) (break_front hb) hR
    obtain ⟨rfl, rfl⟩ := break_unique hb (lineBreak_break hbrk _) heq
    obtain rfl : cs = [] := by
      cases cs with
      | nil => rfl
      | cons l cs =>
        obtain ⟨hl, hcont⟩ := hcs l List.mem_cons_self
        obtain ⟨y, u, hy⟩ := List.exists_cons_of_ne_nil hl.txt
        rw [render_cons, hy] at hZ
        rw [HdrLine.continues, hy] at hcont
        change vctIssp y = false at hZ
        change vctIssp y = true at hcont
        rw [hZ] at hcont
        cases hcont
    rw [contText, List.append_nil]
    refine ⟨fun h => absurd h.1 Bool.false_ne_true, fun _ => rfl, fun _ _ => ⟨rfl, rfl⟩, fun _ hk => ?_⟩
    cases hk
  | @fold x' w Y txt b Z k hx' hw hY h ih =>
    obtain ⟨rfl, heq⟩ := text_unique hx' hx (break_front (lineBreak_break hbrk _)) (run_front (run_of_fold hw) Y) hR
    cases fold_lines hcs hbrk hw.lws hY htail heq with
    | text v b' ds hY' hends hv hb' hds _ htext hblank =>
      obtain ⟨hmerged, hkept, hstops, hgoesOn⟩ := ih hY' hv hb' hds
      have hsame : Merges cs tail ↔ Merges ds tail := by rw [Merges, Merges, hblank]
      have htxt : trimBlanks txt ≠ [] := scanTo_text h hY
      have hg : trimBlanks (v ++ contText b' ds) ≠ [] := endsRun_trim hends _
      have hleft : trimBlanks (x' ++ (spaces w.length ++ txt)) = x' ++ (spaces w.length ++ trimBlanks txt) := by
        rw [← List.append_assoc, trimBlanks_append_of_ne _ htxt, List.append_assoc]
      have hright : trimBlanks (x' ++ contText brk cs) =
          x' ++ (spaces w.length ++ trimBlanks (v ++ contText b' ds)) := by
        rw [htext, ← List.append_assoc, trimBlanks_append_of_ne _ hg, List.append_assoc]
      rw [← hsame] at hmerged hkept hstops hgoesOn
      refine ⟨fun hm => ?_, fun hm => by rw [hleft, hright, hkept hm], fun hm hk => ?_, fun hm hk => ?_⟩
      · have hlt := hmerged hm
        rw [hleft, hright]
        simp only [List.length_append]
        omega
      · obtain ⟨hZ, hlen⟩ := hstops hm hk
        refine ⟨hZ, ?_⟩
        rw [htext]
        simp only [List.length_append] at hlen ⊢
        omega
      · rw [hblank]
        exact hgoesOn hm hk
    | tail hY' hlt hblank =>
      rw [hY'] at hY h
      have hne : cs ≠ [] := by
        rintro rfl
        have hfirst := fold_first hw (lineBreak_break hbrk _) heq
        rw [render_nil, hhead] at hfirst
        cases hfirst
      have hmerges : Merges cs tail := ⟨hblank hne, hY⟩
      refine ⟨fun _ => ?_, fun hm => absurd hmerges hm, fun hm => absurd hmerges hm, fun hm => absurd hmerges hm⟩
      have htxt := scanTo_text h hY
      have hpos := List.length_pos_of_ne_nil htxt
      have hle := trimBlanks_length (x' ++ contText brk cs)
      rw [← List.append_assoc, trimBlanks_append_of_ne _ htxt]
      simp only [List.length_append, length_spaces] at hle ⊢
      omega
  | @past x' w hx' hw =>
    obtain ⟨rfl, rfl⟩ := text_unique hx' hx (break_front (lineBreak_break hbrk _)) (fold_front hw) hR
    have hno : ¬ EndsRun tail := by
      rintro ⟨y, u, rfl, hy⟩
      obtain ⟨v, hv⟩ := render_tail cs (y :: u)
      have hlws := hw.lws y (by
        rw [hv]
        exact List.mem_append_right _ (List.mem_append_right _ List.mem_cons_self))
      rw [hlws] at hy
      cases hy
    have hblank : ∀ l ∈ cs, ∀ c ∈ l.txt, vctIssp c = true := by
      intro l hl c hc
      have hlws := hw.lws c (List.mem_append_right _ (mem_render hl hc tail))
      rw [vctIslws_eq] at hlws
      rw [plain_noCrlf (hcs l hl).1 c hc, Bool.false_or] at hlws
      exact hlws
    refine ⟨fun hm => absurd hm.2 hno, fun _ => ?_, fun _ hk => ?_, fun _ _ => ⟨hno, ?_⟩⟩
    · rw [trimBlanks_append _ (blank_spaces _), trimBlanks_append _ (contText_blank hblank brk)]
    · cases hk
    · cases hlast : cs.getLast? with
      | none =>
        rw [List.getLast?_eq_none_iff.mp hlast] at hw
        have hfirst := fold_first (Y := []) hw (lineBreak_break hbrk tail) (List.append_nil _)
        rw [hhead] at hfirst
        cases hfirst
      | some l =>
        unfold endsBlank
        rw [hlast]
        exact List.all_eq_true.mpr (hblank l (List.mem_of_getLast? hlast))

/-! ## All lines -/

lemma not_blankFold_nil : ¬ BlankFold [] := by
  rintro ⟨A, m, n, B, heq, -⟩
  exact List.append_ne_nil_of_right_ne_nil A (List.cons_ne_nil _ _) heq.symm

lemma blank_continues {l : HdrLine} (h : l.Ok) (hblank : l.blank = true) : l.continues = true := by
  obtain ⟨y, u, hy⟩ := List.exists_cons_of_ne_nil h.txt
  have hall : ∀ c ∈ l.txt, vctIssp c = true := List.all_eq_true.mp hblank
  unfold HdrLine.continues
  rw [hy] at hall ⊢
  exact hall y List.mem_cons_self

lemma blankFold_cons (l : HdrLine) {cs rest : List HdrLine} (hok : ∀ m ∈ cs ++ rest, m.Ok)
    (hcs : ∀ m ∈ cs, m.continues = true) (hrest : ∀ m ∈ rest.head?, m.continues = false) :
    BlankFold (l :: (cs ++ rest)) ↔ endsBlank cs = true ∧ rest ≠ [] ∨ BlankFold rest := by
  constructor
  · rintro ⟨A, m, n, B, heq, hA, hm, hn⟩
    obtain ⟨a, A, rfl⟩ := List.exists_cons_of_ne_nil hA
    have heq' : cs ++ rest = A ++ m :: n :: B := (List.cons.inj heq).2
    have hmem : m ∈ cs ++ rest := by
      rw [heq']
      exact List.mem_append_right _ List.mem_cons_self
    have hcont := blank_continues (hok m hmem) hm
    have hhead : ∀ B', rest ≠ m :: B' := by
      rintro B' rfl
      rw [hrest m rfl] at hcont
      cases hcont
    rcases List.append_eq_append_iff.mp heq' with ⟨v, rfl, hv⟩ | ⟨v, rfl, hv⟩
    · cases v with
      | nil => exact absurd hv (hhead _)
      | cons z v => exact Or.inr ⟨z :: v, m, n, B, hv, List.cons_ne_nil _ _, hm, hn⟩
    · cases v with
      | nil => exact absurd hv.symm (hhead _)
      | cons z v =>
        obtain ⟨hz, hv⟩ := List.cons.inj hv
        rw [← hz] at hcs ⊢
        cases v with
        | nil =>
          refine Or.inl ⟨?_, ?_⟩
          · unfold endsBlank
            rw [List.getLast?_append]
            exact hm
          · rintro rfl
            cases hv
        | cons z v =>
          rw [hcs n (by rw [(List.cons.inj hv).1]; simp)] at hn
          cases hn
  · rintro (⟨hblank, hne⟩ | ⟨A, m, n, B, rfl, -, hm, hn⟩)
    · obtain ⟨n, B, rfl⟩ := List.exists_cons_of_ne_nil hne
      unfold endsBlank at hblank
      cases hlast : cs.getLast? with
      | none =>
        rw [hlast] at hblank
        cases hblank
      | some m =>
        obtain ⟨A, rfl⟩ := List.getLast?_eq_some_iff.mp hlast
        rw [hlast] at hblank
        exact ⟨l :: A, m, n, B, by simp, List.cons_ne_nil _ _, hblank, hrest n rfl⟩
    · exact ⟨l :: (cs ++ A), m, n, B, by simp, List.cons_ne_nil _ _, hm, hn⟩

/-- A line that is no continuation starts with text. -/
lemma render_endsRun {rest : List HdrLine} (hplain : ∀ l ∈ rest, l.Plain) (hrest : ∀ l ∈ rest.head?, l.continues = false)
    (he : e = [chNl] ∨ e = [chCr, chNl]) : (rest = [] ∧ AllLws (render rest e)) ∨ rest ≠ [] ∧ EndsRun (render rest e) := by
  cases rest with
  | nil => exact Or.inl ⟨rfl, lineBreak_lws he⟩
  | cons l rest =>
    have hl := hplain l List.mem_cons_self
    obtain ⟨y, u, hy⟩ := List.exists_cons_of_ne_nil hl.txt
    have hblank := hrest l rfl
    unfold HdrLine.continues at hblank
    have hcrlf := plain_noCrlf hl
    rw [hy] at hblank hcrlf
    change vctIssp y = false at hblank
    refine Or.inr ⟨List.cons_ne_nil _ _, y, u ++ (l.brk ++ render rest e), ?_, ?_⟩
    · rw [render_cons, hy]
      rfl
    · rw [vctIslws_eq]
      rw [hcrlf y List.mem_cons_self, hblank]
      rfl

/-- There is no header in the empty line. -/
lemma scanTo_lineBreak (h : ScanTo R txt b Z k) (hR : R = e) (he : e = [chNl] ∨ e = [chCr, chNl]) :
    txt = [] ∧ k = false := by
  have hbreak := lineBreak_break he []
  have hfront : ∀ {x Y : List UInt8}, NoCrlf x → (∃ y u, Y = y :: u ∧ vctIscrlf y = true) → x ++ Y = e →
      x = [] ∧ Y = e := by
    intro x Y hx hY heq
    have hno : NoCrlf [] := fun c hc => absurd hc List.not_mem_nil
    have hfront := break_front hbreak
    rw [List.append_nil] at hfront
    exact text_unique hx hno hfront hY heq
  cases h with
  | stop hx hb hZ => exact ⟨(hfront hx (break_front hb) hR).1, rfl⟩
  | @fold x w Y txt b Z k hx hw hY h =>
    obtain ⟨-, heq⟩ := hfront hx (run_front (run_of_fold hw) Y) hR
    obtain ⟨y, u, rfl, hy⟩ := hY
    have hlws := lineBreak_lws he y (by
      rw [← heq]
      exact List.mem_append_right _ List.mem_cons_self)
    rw [hlws] at hy
    cases hy
  | @past x w hx hw =>
    obtain ⟨-, rfl⟩ := hfront hx (fold_front hw) hR
    have hhead := fold_first (Y := []) hw hbreak rfl
    cases hhead

/-- The first logical line of `ls` and what is behind it, as the scan goes over them. -/
structure LineScan (ls : List HdrLine) (e txt Z : List UInt8) (k : Bool) (g : Txt) (rest : List HdrLine)
    (merges : Prop) :
    Prop where
  logical : logicalTexts ls = g :: logicalTexts rest
  blankFold : BlankFold ls ↔ merges ∨ BlankFold rest
  plain : ∀ l ∈ rest, l.Plain
  blank : endsBlank rest = true → endsBlank ls = true
  behind : ∀ m ∈ rest.getLast?, ls.getLast? = some m
  last : ¬ EndsRun (render rest e) → rest = []
  length : rest = [] → k = true → ∀ m ∈ ls.getLast?, txt.length = g.length + (m.brk.length + e.length)
  scan : ScanLine g txt merges (rest = [] → endsBlank ls = true) (render rest e) Z k

lemma length_spread (x : Txt) : (spread x).length = x.length := by
  rw [spread, List.length_append, length_spaces, ← List.length_append, List.takeWhile_append_dropWhile]

/-- A line and its continuations are as long as their logical line, but for the line break behind them. -/
lemma length_cont (l : HdrLine) (cs : List HdrLine) (e : List UInt8) {m : HdrLine} (hm : m ∈ (l :: cs).getLast?) :
    (l.brk ++ render cs e).length = (contText l.brk cs).length + (m.brk.length + e.length) := by
  induction cs generalizing l with
  | nil =>
    obtain rfl : l = m := Option.some.inj hm
    rw [render_nil, contText, List.length_append, List.length_nil, Nat.zero_add]
  | cons c cs ih =>
    rw [List.getLast?_cons_cons] at hm
    have hrec := ih c hm
    rw [render_cons, contText]
    simp only [List.length_append, length_spaces, length_spread] at hrec ⊢
    omega

lemma lineScan_exists (h : ScanTo R txt b Z k) (he : e = [chNl] ∨ e = [chCr, chNl]) {l : HdrLine} {ls : List HdrLine}
    (hR : R = render (l :: ls) e) (hplain : ∀ m ∈ l :: ls, m.Plain) :
    ∃ g rest merges, LineScan (l :: ls) e txt Z k g rest merges := by
  obtain ⟨cs, rest, rfl, hcs, hrest⟩ := ls_split ls
  have hl := hplain l List.mem_cons_self
  have hls : ∀ m ∈ cs ++ rest, m.Plain := fun m hm => hplain m (List.mem_cons_of_mem _ hm)
  have hrestplain : ∀ m ∈ rest, m.Plain := fun m hm => hls m (List.mem_append_right _ hm)
  have htail := render_endsRun hrestplain hrest he
  have hends : EndsRun (render rest e) ↔ rest ≠ [] := by
    rcases htail with ⟨hnil, hlws⟩ | ⟨hne, hends⟩
    · refine iff_of_false ?_ (fun hne => hne hnil)
      rintro ⟨y, u, hy, hno⟩
      rw [hlws y (by rw [hy]; exact List.mem_cons_self)] at hno
      cases hno
    · exact iff_of_true hends hne
  have hhead : headBlank (render rest e) = false := by
    rcases htail with ⟨rfl, -⟩ | ⟨-, y, u, hy, hno⟩
    · have hbreak := headBlank_break (lineBreak_break he [])
      rw [List.append_nil] at hbreak
      exact hbreak
    · rw [hy]
      exact (not_lws hno).2
  rw [render_cons, render_append] at hR
  obtain ⟨hmerged, hkept, hstops, hgoesOn⟩ := scan_lines h hR (plain_noCrlf hl) hl.brk
    (fun m hm => ⟨hls m (List.mem_append_left _ hm), hcs m hm⟩) (htail.imp And.right And.right) hhead
  refine ⟨l.txt ++ contText l.brk cs, rest, Merges cs (render rest e), joinLines_append _ _ hcs hrest, ?_, hrestplain,
    ?_, ?_, ?_, ?_, hmerged, hkept, hstops, fun hm hk => ⟨(hgoesOn hm hk).1, ?_⟩⟩
  · rw [blankFold_cons l (fun m hm => (hls m hm).toOk) hcs hrest, Merges, hends]
  · intro hblank
    unfold endsBlank at hblank ⊢
    rw [← List.cons_append, List.getLast?_append]
    cases hlast : rest.getLast? with
    | none =>
      rw [hlast] at hblank
      cases hblank
    | some m =>
      rw [hlast] at hblank
      exact hblank
  · intro m hm
    rw [← List.cons_append, List.getLast?_append, Option.mem_def.mp hm]
    rfl
  · intro hno
    rw [hends, not_not] at hno
    exact hno
  · rintro rfl hk m hm
    rw [List.append_nil] at hm
    obtain ⟨-, -, -, -, hpast⟩ := scanTo_rest h
    obtain ⟨rfl, rfl, -⟩ := hpast hk
    have hlen := scanTo_length h
    have hcont := length_cont l cs e hm
    rw [hR, List.length_append, render_nil, hcont] at hlen
    rw [List.length_append]
    simp only [List.length_nil, Nat.add_zero] at hlen
    omega
  · rintro rfl
    have hblank := (hgoesOn hm hk).2
    have hne : cs ≠ [] := by
      rintro rfl
      cases hblank
    rw [List.append_nil, endsBlank_cons l hne, hblank]

/-- The headers are the logical lines, unless a line is merged into the one before. -/
lemma dissects_lines (h : Dissects R fs S k) (he : e = [chNl] ∨ e = [chCr, chNl]) {ls : List HdrLine}
    (hR : R = render ls e) (hplain : ∀ l ∈ ls, l.Plain) : fs = logicalLines ls ↔ ¬ BlankFold ls := by
  unfold logicalLines
  induction h generalizing ls with
  | done =>
    have hne : render ls e ≠ [] := by
      refine List.append_ne_nil_of_right_ne_nil _ ?_
      rcases he with rfl | rfl
      · exact List.cons_ne_nil _ _
      · exact List.cons_ne_nil _ _
    exact absurd hR.symm hne
  | @stop R b Z h =>
    cases ls with
    | nil => exact iff_of_true rfl not_blankFold_nil
    | cons l ls =>
      have hl := hplain l List.mem_cons_self
      obtain ⟨y, u, hy⟩ := List.exists_cons_of_ne_nil hl.txt
      obtain ⟨L, -, -, hstop, -⟩ := scanTo_rest h
      obtain ⟨z, v, hz, hcrlf⟩ := break_front (hstop rfl).1
      rw [scanTo_empty h rfl, hz, render_cons, hy] at hR
      obtain ⟨rfl, -⟩ := List.cons.inj hR
      rw [plain_noCrlf hl z (by rw [hy]; exact List.mem_cons_self)] at hcrlf
      cases hcrlf
  | @field R txt b Z S fs k h htxt _ ih =>
    cases ls with
    | nil => exact absurd (scanTo_lineBreak h hR he).1 htxt
    | cons l ls =>
      obtain ⟨g, rest, merges, hlines⟩ := lineScan_exists h he hR hplain
      rw [hlines.logical, hlines.blankFold, List.map_cons]
      by_cases hm : merges
      · refine iff_of_false (fun heq => ?_) (fun hno => hno (Or.inl hm))
        have hlt := hlines.scan.merged hm
        rw [(List.cons.inj heq).1] at hlt
        exact Nat.lt_irrefl _ hlt
      · rw [or_iff_right hm, hlines.scan.kept hm, List.cons_eq_cons, and_iff_right rfl]
        exact ih (hlines.scan.stops hm rfl).1 hlines.plain
  | @past R txt h =>
    cases ls with
    | nil => exact absurd (scanTo_lineBreak h hR he).2 Bool.true_eq_false.mp
    | cons l ls =>
      obtain ⟨g, rest, merges, hlines⟩ := lineScan_exists h he hR hplain
      rw [hlines.logical, hlines.blankFold, List.map_cons]
      by_cases hm : merges
      · refine iff_of_false (fun heq => ?_) (fun hno => hno (Or.inl hm))
        have hlt := hlines.scan.merged hm
        rw [(List.cons.inj heq).1] at hlt
        exact Nat.lt_irrefl _ hlt
      · obtain rfl := hlines.last (hlines.scan.goesOn hm rfl).1
        rw [or_iff_right hm, hlines.scan.kept hm]
        exact iff_of_true rfl not_blankFold_nil

/-- The limits on the headers. One that ends with a line of blanks only is counted with the white space behind it,
of which there are `m` bytes. -/
structure WithinLimits (maxhdr slots m : Nat) (ls : List HdrLine) : Prop where
  count : (logicalTexts ls).length ≤ slots
  size : ∀ g ∈ logicalTexts ls, g.length ≤ maxhdr
  last : endsBlank ls = true → ∀ g ∈ (logicalTexts ls).getLast?, g.length + m ≤ maxhdr

lemma loop_accepts (h : Dissects R fs S k) (he : e = [chNl] ∨ e = [chCr, chNl]) {ls : List HdrLine}
    (hR : R = render ls e) (hplain : ∀ l ∈ ls, l.Plain) (hno : ¬ BlankFold ls) {maxhdr slots m : Nat}
    (hlimits : WithinLimits maxhdr slots m ls)
    (hm : ∀ l ∈ ls.getLast?, l.brk.length + e.length + (T.takeWhile vctIslws).length ≤ m)
    (done : List UInt8) (hd : List Txt) (conds : Bool) :
    (Dissect.loop maxhdr slots { done := done, rest := R ++ T, n := R.length, hd := hd, conds := conds }).1 = 0 := by
  induction h generalizing slots done hd conds ls with
  | done => rw [loop_end _ _ rfl]
  | stop h => rw [loop_stop h]
  | @field R txt b Z S fs k h htxt _ ih =>
    cases ls with
    | nil => exact absurd (scanTo_lineBreak h hR he).1 htxt
    | cons l ls =>
      obtain ⟨g, rest, merges, hlines⟩ := lineScan_exists h he hR hplain
      have hmerge : ¬ merges := fun hmerge => hno (hlines.blankFold.mpr (Or.inl hmerge))
      obtain ⟨hZ, hlen⟩ := hlines.scan.stops hmerge rfl
      have hsize := hlimits.size g (by rw [hlines.logical]; exact List.mem_cons_self)
      have hcount := hlimits.count
      rw [hlines.logical, List.length_cons] at hcount
      obtain ⟨slots, rfl⟩ : ∃ m, slots = m + 1 := ⟨slots - 1, by omega⟩
      rw [loop_field h htxt (by omega)]
      refine ih hZ hlines.plain (fun hfold => hno (hlines.blankFold.mpr (Or.inr hfold))) ⟨?_, ?_, ?_⟩ ?_ _ _ _
      · omega
      · exact fun g' hg' => hlimits.size g' (by rw [hlines.logical]; exact List.mem_cons_of_mem _ hg')
      · intro hblank g' hg'
        refine hlimits.last (hlines.blank hblank) g' ?_
        rw [hlines.logical, List.getLast?_cons, Option.mem_def.mp hg']
        rfl
      · exact fun l' hl' => hm l' (hlines.behind l' hl')
  | @past R txt h =>
    cases ls with
    | nil => exact absurd (scanTo_lineBreak h hR he).2 Bool.true_eq_false.mp
    | cons l ls =>
      obtain ⟨g, rest, merges, hlines⟩ := lineScan_exists h he hR hplain
      have hmerge : ¬ merges := fun hmerge => hno (hlines.blankFold.mpr (Or.inl hmerge))
      obtain ⟨hends, hblank⟩ := hlines.scan.goesOn hmerge rfl
      obtain rfl := hlines.last hends
      have hlogical : logicalTexts (l :: ls) = [g] := hlines.logical
      have hlast := hlimits.last (hblank rfl) g (by rw [hlogical]; rfl)
      obtain ⟨l', hl'⟩ : ∃ l', (l :: ls).getLast? = some l' := ⟨_, List.getLast?_cons⟩
      have hlen := hlines.length rfl rfl l' hl'
      have hwhite := hm l' hl'
      have hcount := hlimits.count
      rw [hlogical, List.length_singleton] at hcount
      obtain ⟨slots, rfl⟩ : ∃ m, slots = m + 1 := ⟨slots - 1, by omega⟩
      rw [loop_past h (by omega)]

/-! ## A `CR` in a line -/

lemma mem_trimBlanks {c : UInt8} {x : Txt} (hc : c ∈ x) (hblank : vctIssp c = false) : c ∈ trimBlanks x := by
  have hsplit : x.rdropWhile vctIssp ++ x.rtakeWhile vctIssp = x := by
    unfold List.rdropWhile List.rtakeWhile
    rw [← List.reverse_append, List.takeWhile_append_dropWhile, List.reverse_reverse]
  rw [← hsplit] at hc
  rcases List.mem_append.mp hc with hc | hc
  · exact hc
  · rw [List.mem_rtakeWhile_imp hc] at hblank
    cases hblank

lemma mem_spread {c : UInt8} {x : Txt} (hc : c ∈ x) (hblank : vctIssp c = false) : c ∈ spread x := by
  rw [← List.takeWhile_append_dropWhile (p := vctIssp) (l := x)] at hc
  rcases List.mem_append.mp hc with hc | hc
  · rw [List.mem_takeWhile_imp hc] at hblank
    cases hblank
  · exact List.mem_append_right _ hc

lemma mem_joinLines {c : UInt8} {ls : List HdrLine} {cur : Txt} (hblank : vctIssp c = false)
    (h : c ∈ cur ∨ ∃ l ∈ ls, c ∈ l.txt) (brk : List UInt8) : ∃ f ∈ joinLines cur brk ls, c ∈ f := by
  induction ls generalizing cur brk with
  | nil =>
    rcases h with h | ⟨l, hl, -⟩
    · exact ⟨_, List.mem_singleton_self _, h⟩
    · cases hl
  | cons l ls ih =>
    have hcases : c ∈ cur ∨ c ∈ l.txt ∨ ∃ m ∈ ls, c ∈ m.txt := by
      rcases h with h | ⟨m, hm, hc⟩
      · exact Or.inl h
      · rcases List.mem_cons.mp hm with rfl | hm
        · exact Or.inr (Or.inl hc)
        · exact Or.inr (Or.inr ⟨m, hm, hc⟩)
    rw [joinLines]
    split
    next =>
      refine ih ?_ l.brk
      rcases hcases with h | h | h
      · exact Or.inl (List.mem_append_left _ (List.mem_append_left _ h))
      · exact Or.inl (List.mem_append_right _ (mem_spread h hblank))
      · exact Or.inr h
    next =>
      rcases hcases with h | h
      · exact ⟨_, List.mem_cons_self, h⟩
      · obtain ⟨f, hf, hc⟩ := ih h l.brk
        exact ⟨f, List.mem_cons_of_mem _ hf, hc⟩

lemma mem_logicalLines {c : UInt8} {ls : List HdrLine} (hblank : vctIssp c = false) (h : ∃ l ∈ ls, c ∈ l.txt) :
    ∃ f ∈ logicalLines ls, c ∈ f := by
  obtain ⟨l, hl, hc⟩ := h
  cases ls with
  | nil => cases hl
  | cons m ls =>
    have hcases : c ∈ m.txt ∨ ∃ l ∈ ls, c ∈ l.txt := by
      rcases List.mem_cons.mp hl with rfl | hl
      · exact Or.inl hc
      · exact Or.inr ⟨l, hl, hc⟩
    obtain ⟨f, hf, hmem⟩ := mem_joinLines hblank hcases m.brk
    exact ⟨trimBlanks f, List.mem_map_of_mem hf, mem_trimBlanks hmem hblank⟩

lemma scanTo_noCrlf (h : ScanTo R txt b Z k) : NoCrlf txt := by
  induction h with
  | stop hx => exact hx
  | fold hx _ _ _ ih => exact noCrlf_append hx (noCrlf_append (noCrlf_spaces _) ih)
  | past hx => exact noCrlf_append hx (noCrlf_spaces _)

/-- No line break gets into a header. -/
lemma dissects_noCrlf (h : Dissects R fs S k) : ∀ f ∈ fs, NoCrlf f := by
  have htrim : ∀ {x : Txt}, NoCrlf x → NoCrlf (trimBlanks x) :=
    fun hx c hc => hx c ((List.rdropWhile_prefix vctIssp _).mem hc)
  induction h with
  | done => exact fun f hf => absurd hf List.not_mem_nil
  | stop => exact fun f hf => absurd hf List.not_mem_nil
  | field h _ _ ih =>
    intro f hf
    rcases List.mem_cons.mp hf with rfl | hf
    · exact htrim (scanTo_noCrlf h)
    · exact ih f hf
  | past h =>
    intro f hf
    rw [List.mem_singleton.mp hf]
    exact htrim (scanTo_noCrlf h)

/-! ## The message -/

/-- The first line, with its line break. -/
def startLine (block : List UInt8) : HdrLine := cutBreak ((block.dropWhile vctIslws).takeWhile (· != chNl))

/-- The lines behind it. -/
def blockLines (block : List UInt8) : List HdrLine := hdrLines ((block.dropWhile vctIslws).dropWhile (· != chNl)).tail

/-- The lines are read as they are meant. -/
structure ReadsLines (block : List UInt8) : Prop where
  start : chCr ∉ (startLine block).txt
  lines : ∀ l ∈ blockLines block, chCr ∉ l.txt
  folds : ¬ BlankFold (blockLines block)

/-- The bytes of white space from the last line break of the message on, and behind it. -/
def whiteTail (block T : List UInt8) : Nat := (block.rtakeWhile vctIscrlf).length + (T.takeWhile vctIslws).length

/-- Without a `CR` of its own the first line goes up to the line break that `http_splitline` finds. -/
lemma startLine_parts {block : List UInt8} (h : BlockParts block w x b R) (hstart : chCr ∉ (startLine block).txt) :
    (b = [chNl] ∨ b = [chCr, chNl]) ∧ blockLines block = hdrLines R := by
  have hdrop : block.dropWhile vctIslws = x ++ (b ++ R) := by
    rw [h.split]
    exact (takeWhile_lws h.lws h.ends).2
  have hx : ∀ c ∈ x, (c != chNl) = true := by
    intro c hc
    have hno := h.text c hc
    rw [bne_iff_ne]
    rintro rfl
    cases hno
  unfold startLine at hstart
  unfold blockLines
  rw [hdrop, List.takeWhile_append_of_pos hx] at hstart
  rw [hdrop, List.dropWhile_append_of_pos hx]
  generalize hR : R = R' at h
  cases h.brk with
  | crlf => exact ⟨Or.inr rfl, rfl⟩
  | lf => exact ⟨Or.inl rfl, rfl⟩
  | cr c Z hc =>
    -- the `CR` is in the first line, and not at its end
    have htake : ([chCr] ++ c :: Z).takeWhile (· != chNl) = chCr :: c :: Z.takeWhile (· != chNl) := by
      simp [hc, show (chCr != chNl) = true from rfl]
    rw [hR, htake] at hstart
    refine absurd ?_ hstart
    unfold cutBreak
    split
    next =>
      rw [List.dropLast_append_of_ne_nil (List.cons_ne_nil _ _), List.dropLast_cons_of_ne_nil (List.cons_ne_nil _ _)]
      exact List.mem_append_right _ List.mem_cons_self
    next => exact List.mem_append_right _ List.mem_cons_self

lemma isspace_text {c : UInt8} (hsp : vctIssp c = false) (hctl : vctIsctl c = false) : isspace c = false := by
  unfold vctIssp at hsp
  unfold vctIsctl at hctl
  unfold isspace
  simp only [Bool.or_eq_false_iff, decide_eq_false_iff_not] at hsp hctl
  have hlow : ¬ c ≤ 0x0d := by
    rw [UInt8.le_iff_toNat_le]
    have hge := hctl.1
    rw [UInt8.lt_iff_toNat_lt] at hge
    change ¬ c.toNat < 32 at hge
    change ¬ c.toNat ≤ 13
    omega
  rw [Bool.or_eq_false_iff, decide_eq_false_iff_not, decide_eq_false hlow, Bool.and_false]
  exact ⟨hsp.1, rfl⟩

/-- Behind the first line `htc_header_complete` has found the end of the block. -/
lemma headerEnd_block {block : List UInt8} (hblock : IsBlock block) (h : BlockParts block w x b R)
    (hline : FirstLineOk block) (hb : b = [chNl] ∨ b = [chCr, chNl]) : headerEnd (chNl :: R) = some (R.length + 1) := by
  have hstrip : stripped block = x ++ (b ++ R) := by
    obtain ⟨f1, s1, f2, s2, f3, hfields⟩ := hline
    obtain ⟨y, u, hy, hlws⟩ := h.ends
    have hspace : isspace y = false := by
      rw [firstText_eq h] at hfields
      rw [hfields.split] at hy
      cases f1 with
      | nil =>
        obtain ⟨hne, hall⟩ := hfields.between
        obtain ⟨z, v, rfl⟩ := List.exists_cons_of_ne_nil hne
        rw [← (List.cons.inj hy).1, hall z List.mem_cons_self] at hlws
        cases hlws
      | cons z f1 =>
        obtain ⟨hsp, hctl⟩ := hfields.first z List.mem_cons_self
        rw [← (List.cons.inj hy).1]
        exact isspace_text hsp hctl
    rw [h.split, stripped_append_of_allSpace (fun c hc => lws_space (h.lws c hc)), hy, stripped,
      List.dropWhile_cons_of_neg (by rw [hspace]; exact Bool.false_ne_true)]
  have hx : chNl ∉ x := fun hmem => absurd (h.text chNl hmem) (by decide)
  unfold IsBlock at hblock
  rw [hstrip] at hblock
  rcases hb with rfl | rfl
  · obtain ⟨j, hj, hlen⟩ := headerEnd_text _ hx hblock
    simp only [List.length_append, List.length_singleton] at hlen
    obtain rfl : j = R.length + 1 := by omega
    exact hj
  · have hcr : chNl ∉ x ++ [chCr] := by
      rw [List.mem_append, List.mem_singleton]
      exact not_or.mpr ⟨hx, by decide⟩
    rw [show x ++ ([chCr, chNl] ++ R) = x ++ [chCr] ++ chNl :: R by rw [List.append_assoc]; rfl] at hblock
    obtain ⟨j, hj, hlen⟩ := headerEnd_text _ hcr hblock
    simp only [List.length_append, List.length_cons] at hlen
    obtain rfl : j = R.length + 1 := by omega
    exact hj

/-- The white space from the end of the last line on. -/
lemma whiteTail_last {block : List UInt8} (h : BlockParts block w x b R) {ls : List HdrLine} (hR : R = render ls e)
    (he : e = [chNl] ∨ e = [chCr, chNl]) {l : HdrLine} (hl : l ∈ ls.getLast?) (hplain : l.Plain) (T : List UInt8) :
    l.brk.length + e.length + (T.takeWhile vctIslws).length ≤ whiteTail block T := by
  obtain ⟨ms, rfl⟩ := List.getLast?_eq_some_iff.mp hl
  have hcrlf : ∀ {v : List UInt8}, v = [chNl] ∨ v = [chCr, chNl] → ∀ c ∈ v, vctIscrlf c = true := by
    intro v hv c hc
    rcases hv with rfl | rfl
    · rw [List.mem_singleton.mp hc]
      rfl
    · rcases List.mem_cons.mp hc with rfl | hc
      · rfl
      · rw [List.mem_singleton.mp hc]
        rfl
  have hall : ∀ c ∈ l.brk ++ e, vctIscrlf c = true := by
    intro c hc
    exact (List.mem_append.mp hc).elim (hcrlf hplain.brk c) (hcrlf he c)
  have hsplit : block = (w ++ (x ++ (b ++ (render ms l.txt)))) ++ (l.brk ++ e) := by
    rw [h.split, hR, render_append, render_cons, render_nil]
    simp only [render, List.append_assoc]
  have hlen : l.brk.length + e.length ≤ (block.rtakeWhile vctIscrlf).length := by
    unfold List.rtakeWhile
    rw [hsplit, List.reverse_append, List.takeWhile_append_of_pos (fun c hc => hall c (List.mem_reverse.mp hc)),
      List.length_reverse, List.length_append, List.length_reverse, List.length_append]
    omega
  unfold whiteTail
  omega

theorem dissect_logical_lines {t t' : List UInt8} {n : Nat} (hn : htcHeaderComplete t = (n, t')) (hpos : 0 < n)
    (maxhdr slots : Nat) :
    let block := t.take n
    let d := httpSplitline maxhdr slots n t
    let ls := blockLines block
    (FirstLineOk block → WithinLimits maxhdr slots (whiteTail block (t.drop n)) ls → ReadsLines block →
        d.status = 0 ∧ d.hd = logicalLines ls) ∧
      (chCr ∉ (startLine block).txt → d.status = 0 → (d.hd = logicalLines ls ↔ ReadsLines block)) := by
  obtain ⟨block, T, rfl, hblock, rfl⟩ := block_of_complete hn hpos
  rw [List.take_left, List.drop_left]
  intro block d ls
  obtain ⟨w, x, b, R, hparts⟩ := block_parts hblock
  -- what the header lines are, where the first line is well formed and has no `CR` of its own
  have hmain : FirstLineOk block → chCr ∉ (startLine block).txt →
      (WithinLimits maxhdr slots (whiteTail block T) ls → (∀ l ∈ ls, chCr ∉ l.txt) → ¬ BlankFold ls →
        d.status = 0 ∧ d.hd = logicalLines ls) ∧
      (d.status = 0 → (d.hd = logicalLines ls ↔ (∀ l ∈ ls, chCr ∉ l.txt) ∧ ¬ BlankFold ls)) := by
    intro hline hstart
    obtain ⟨hbrk, hls⟩ := startLine_parts hparts hstart
    obtain ⟨e, he, hrender, hok⟩ := block_lines (headerEnd_block hblock hparts hline hbrk)
    obtain ⟨l, hfirst⟩ := (firstLine_iff hblock T).mp hline
    obtain ⟨done, -, hUlast, hrun⟩ := splitline_loop hblock maxhdr slots T hfirst
    obtain ⟨fs, S, k, hdissects⟩ := dissects_exists (Or.inr hUlast)
    rw [← hls] at hrender hok
    change R = render ls e at hrender
    change ∀ l ∈ ls, l.Ok at hok
    have haccepted : d.status = 0 → d.hd = fs := by
      intro h0
      have hspec := (loop_spec hdissects maxhdr slots T done [] false).accepted
      simp only [d, hrun] at h0 ⊢
      exact (hspec h0).1
    have hlines : (∀ l ∈ ls, chCr ∉ l.txt) → ∃ e', (e' = [chNl] ∨ e' = [chCr, chNl]) ∧ e'.length ≤ e.length ∧
        hdrPart block = render ls e' ∧ ∀ l ∈ ls, l.Plain := by
      intro hcr
      have hplain : ∀ l ∈ ls, l.Plain := fun l hl => ⟨hok l hl, hcr l hl⟩
      rw [hdrPart_eq hparts]
      split
      next hhead =>
        -- only an empty block starts with a `CR` then
        have hcons := List.eq_cons_of_mem_head? hhead
        rw [hrender] at hcons ⊢
        cases hcase : ls with
        | nil =>
          rw [hcase, render_nil] at hcons
          rw [render_nil]
          rcases he with rfl | rfl
          · cases hcons
          · exact ⟨[chNl], Or.inl rfl, by decide, rfl, fun l hl => absurd hl List.not_mem_nil⟩
        | cons l ls' =>
          have hl : l ∈ ls := by
            rw [hcase]
            exact List.mem_cons_self
          obtain ⟨y, u, hy⟩ := List.exists_cons_of_ne_nil (hok l hl).txt
          rw [hcase, render_cons, hy] at hcons
          have hmem := hcr l hl
          rw [hy, (List.cons.inj hcons).1] at hmem
          exact absurd List.mem_cons_self hmem
      next => exact ⟨e, he, le_refl _, hrender, hplain⟩
    constructor
    · intro hlimits hcr hno
      obtain ⟨e', he', hle, hUrender, hplain⟩ := hlines hcr
      have h0 : d.status = 0 := by
        simp only [d, hrun]
        refine loop_accepts hdissects he' hUrender hplain hno hlimits (fun l' hl' => ?_) done [] false
        have hwhite : _ ≤ whiteTail block T :=
          whiteTail_last hparts hrender he hl' (hplain l' (List.mem_of_getLast? hl')) T
        omega
      exact ⟨h0, (haccepted h0).trans ((dissects_lines hdissects he' hUrender hplain).mpr hno)⟩
    · intro h0
      rw [haccepted h0]
      by_cases hcr : ∀ l ∈ ls, chCr ∉ l.txt
      · obtain ⟨e', he', -, hUrender, hplain⟩ := hlines hcr
        rw [dissects_lines hdissects he' hUrender hplain, and_iff_right hcr]
      · refine iff_of_false (fun hsame => ?_) (fun hreads => hcr hreads.1)
        push Not at hcr
        obtain ⟨f, hf, hmem⟩ := mem_logicalLines (show vctIssp chCr = false by rfl) hcr
        rw [← hsame] at hf
        exact absurd (dissects_noCrlf hdissects f hf chCr hmem) (by decide)
  refine ⟨fun hline hlimits hreads => (hmain hline hreads.start).1 hlimits hreads.lines hreads.folds, ?_⟩
  intro hstart h0
  have hline : FirstLineOk block := by
    rcases splitline_end hblock maxhdr slots T with ⟨-, hno, -⟩ | ⟨hline, -⟩
    · exact absurd h0 hno
    · exact hline
  rw [(hmain hline hstart).2 h0]
  exact ⟨fun h => ⟨hstart, h.1, h.2⟩, fun h => ⟨h.lines, h.folds⟩⟩

/-- Two headers, the first one with a continuation line that has text in it. -/
def twoMsg : List UInt8 :=
  bytes "GET / HTTP/1.1" ++ [13, 10] ++
    (bytes "A: b" ++ [13, 10] ++ bytes " c " ++ [10] ++ bytes "D: e" ++ [13, 10, 13, 10])

lemma twoMsg_lines :
    blockLines twoMsg = [⟨bytes "A: b", [13, 10]⟩, ⟨bytes " c ", [10]⟩, ⟨bytes "D: e", [13, 10]⟩] := by decide

lemma twoMsg_reads : ReadsLines twoMsg := by
  refine ⟨by decide, by rw [twoMsg_lines]; decide, ?_⟩
  rw [twoMsg_lines]
  rintro ⟨A, m, n, B, heq, hA, hm, hn⟩
  -- the only continuation line has text in it
  match A, hA, heq with
  | [a], _, heq =>
    simp only [List.cons_append, List.nil_append, List.cons.injEq] at heq
    rw [← heq.2.1] at hm
    exact absurd hm (by decide)
  | a :: b :: [], _, heq => simp at heq
  | a :: b :: c :: A, _, heq => simp at heq

theorem dissect_logical_lines_two :
    let d := httpSplitline 9 2 twoMsg.length twoMsg
    d.status = 0 ∧ d.hd = [bytes "A: b" ++ spaces 3 ++ bytes "c", bytes "D: e"] := by
  have hline : FirstLineOk twoMsg := by
    refine ⟨bytes "GET", [32], bytes "/", [32], bytes "HTTP/1.1", ?_⟩
    have h1 : ∀ c ∈ bytes "GET", vctIssp c = false ∧ vctIsctl c = false := forall_mem_of_all rfl
    have h2 : ∀ c ∈ bytes "/", vctIslws c = false ∧ vctIsctl c = false := forall_mem_of_all rfl
    have h3 : ∀ c ∈ bytes "HTTP/1.1", vctIscrlf c = false ∧ (vctIssep c = true ∨ vctIsctl c = false) :=
      forall_mem_of_all rfl
    exact ⟨by decide, h1, ⟨by simp, by simp⟩, ⟨by decide, h2⟩, ⟨by simp, by simp⟩, by decide, h3⟩
  have hlimits : WithinLimits 9 2 (whiteTail twoMsg (twoMsg.drop twoMsg.length)) (blockLines twoMsg) := by
    rw [twoMsg_lines]
    exact ⟨by decide, by decide, fun h => absurd h (by decide)⟩
  have hmain := (dissect_logical_lines (show htcHeaderComplete twoMsg = (twoMsg.length, twoMsg) by decide)
    (by decide) 9 2).1
  rw [List.take_length] at hmain
  obtain ⟨hstatus, hhd⟩ := hmain hline hlimits twoMsg_reads
  refine ⟨hstatus, hhd.trans ?_⟩
  rw [twoMsg_lines]
  decide

/-- Two headers, and a continuation line of one blank between them. -/
def blankMsg : List UInt8 :=
  bytes "GET / HTTP/1.1" ++ [13, 10] ++ (bytes "A: b" ++ [13, 10, 32, 13, 10] ++ bytes "C: d" ++ [13, 10, 13, 10])

lemma blankMsg_run : (httpSplitline 100 10 blankMsg.length blankMsg).hd = [bytes "A: b" ++ spaces 5 ++ bytes "C: d"] := by
  have hblock : IsBlock blankMsg := by unfold IsBlock; decide
  have hline : firstLine ((blankMsg ++ []).dropWhile vctIslws) = .ok (getLine (blankMsg.drop 14)) := rfl
  have hpart : hdrPart blankMsg = bytes "A: b" ++ [13, 10, 32, 13, 10] ++ bytes "C: d" ++ [13, 10, 13, 10] := by decide
  obtain ⟨done, -, -, hrun⟩ := splitline_loop hblock 100 10 [] hline
  rw [List.append_nil] at hrun
  rw [hrun, hpart]
  rfl

lemma blankMsg_lines :
    blockLines blankMsg = [⟨bytes "A: b", [13, 10]⟩, ⟨[32], [13, 10]⟩, ⟨bytes "C: d", [13, 10]⟩] := by decide

/-- One header comes out of two. -/
theorem dissect_lines_merged :
    ¬ (htcHeaderComplete blankMsg = (blankMsg.length, blankMsg) →
        WithinLimits 100 10 (whiteTail blankMsg []) (blockLines blankMsg) →
        (httpSplitline 100 10 blankMsg.length blankMsg).hd = logicalLines (blockLines blankMsg)) := by
  intro hclaim
  have hlimits : WithinLimits 100 10 (whiteTail blankMsg []) (blockLines blankMsg) := by
    rw [blankMsg_lines]
    exact ⟨by decide, by decide, fun h => absurd h (by decide)⟩
  have hsame := hclaim (by decide) hlimits
  rw [blankMsg_run, blankMsg_lines] at hsame
  exact absurd hsame (by decide)

end VarnishCache.Proofs
