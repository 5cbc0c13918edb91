import VarnishCache.HttpDissect
import VarnishCache.Proofs.HttpConn

/-!
# What `http_dissect_hdrs` makes of the bytes

A header goes on over runs of white space whose first line break has a blank behind it, and ends at the first other line
break. When such a run comes to `t.e` it takes the white space behind it along.
-/

namespace VarnishCache.Proofs

variable {a b b' c c' w x A B R S T U X Y Z seg txt : List UInt8} {k : Bool} {n m q : Nat} {y z : UInt8} {fs : List Txt}

/-! ## Line breaks and white space -/

/-- The line break that `vct_skipcrlf` skips, before `Z`. -/
inductive IsBreak : List UInt8 → List UInt8 → Prop where
  | crlf (Z : List UInt8) : IsBreak [chCr, chNl] Z
  | lf (Z : List UInt8) : IsBreak [chNl] Z
  | cr (c : UInt8) (Z : List UInt8) (hc : c ≠ chNl) : IsBreak [chCr] (c :: Z)

/-- No line break in it. -/
def NoCrlf (x : List UInt8) : Prop := ∀ c ∈ x, vctIscrlf c = false

def AllLws (w : List UInt8) : Prop := ∀ c ∈ w, vctIslws c = true

def headBlank (Z : List UInt8) : Bool := Z.head?.any vctIssp

/-- The next byte ends a run of white space. -/
def EndsRun (Z : List UInt8) : Prop := ∃ c Z', Z = c :: Z' ∧ vctIslws c = false

/-- A line break with a blank behind it, and any white space. -/
structure IsFold (w : List UInt8) : Prop where
  start : ∃ b Z, w = b ++ Z ∧ IsBreak b Z ∧ headBlank Z = true
  lws : AllLws w

def spaces (n : Nat) : List UInt8 := List.replicate n chSpace

lemma break_head (h : IsBreak b Z) : ∃ y u, b = y :: u ∧ vctIscrlf y = true := by
  cases h with
  | crlf => exact ⟨_, _, rfl, rfl⟩
  | lf => exact ⟨_, _, rfl, rfl⟩
  | cr => exact ⟨_, _, rfl, rfl⟩

lemma break_ne_nil (h : IsBreak b Z) : b ≠ [] := by
  obtain ⟨y, u, rfl, -⟩ := break_head h
  exact List.cons_ne_nil _ _

lemma break_pos (h : IsBreak b Z) : 0 < b.length := List.length_pos_of_ne_nil (break_ne_nil h)

lemma break_lws (h : IsBreak b Z) : AllLws b := by
  intro y hy
  cases h with
  | crlf =>
    rcases List.mem_cons.mp hy with rfl | hy
    · rfl
    · rw [List.mem_singleton.mp hy]
      rfl
  | lf =>
    rw [List.mem_singleton.mp hy]
    rfl
  | cr =>
    rw [List.mem_singleton.mp hy]
    rfl

lemma skipcrlf_break (T : List UInt8) (h : IsBreak b Z) : skipcrlf (b ++ (Z ++ T)) = b.length := by
  cases h with
  | crlf => rfl
  | lf => rfl
  | cr c Z hc => simp [skipcrlf, hc]

/-- A line break is read off the bytes in one way only. -/
lemma break_unique (h : IsBreak b Z) (h' : IsBreak b' Y) (heq : b ++ Z = b' ++ Y) : b = b' ∧ Z = Y := by
  have hlen : b.length = b'.length := by
    rw [← skipcrlf_break [] h, ← skipcrlf_break [] h', List.append_nil, List.append_nil, heq]
  exact List.append_inj heq hlen

lemma exists_break (hy : vctIscrlf y = true) (hlast : (y :: R).getLast? = some chNl) :
    ∃ b Z, y :: R = b ++ Z ∧ IsBreak b Z := by
  unfold vctIscrlf at hy
  rw [Bool.or_eq_true, decide_eq_true_iff, decide_eq_true_iff] at hy
  rcases hy with rfl | rfl
  · cases R with
    | nil =>
      rw [List.getLast?_singleton, Option.some.injEq] at hlast
      exact absurd hlast (by decide)
    | cons c R =>
      by_cases hc : c = chNl
      · exact ⟨[chCr, chNl], R, by rw [hc]; rfl, .crlf R⟩
      · exact ⟨[chCr], c :: R, rfl, .cr c R hc⟩
  · exact ⟨[chNl], R, rfl, .lf R⟩

lemma vctIslws_eq (c : UInt8) : vctIslws c = (vctIscrlf c || vctIssp c) := by
  unfold vctIslws vctIscrlf vctIssp
  cases decide (c = chCr) <;> cases decide (c = chNl) <;> cases decide (c = chSpace) <;> cases decide (c = 0x09) <;> rfl

lemma blank_lws (h : vctIssp y = true) : vctIslws y = true := by
  rw [vctIslws_eq, h, Bool.or_true]

lemma blank_not_crlf (h : vctIssp y = true) : vctIscrlf y = false := by
  unfold vctIssp at h
  rw [Bool.or_eq_true, decide_eq_true_iff, decide_eq_true_iff] at h
  rcases h with rfl | rfl
  · rfl
  · rfl

lemma not_lws (h : vctIslws y = false) : vctIscrlf y = false ∧ vctIssp y = false := by
  rw [vctIslws_eq] at h
  rw [Bool.or_eq_false_iff] at h
  exact h

/-- White space up to a byte that is none, or up to the end. -/
lemma lws_split (R : List UInt8) : ∃ w Y, R = w ++ Y ∧ AllLws w ∧ (Y = [] ∨ EndsRun Y) := by
  refine ⟨R.takeWhile vctIslws, R.dropWhile vctIslws, (List.takeWhile_append_dropWhile).symm, ?_, ?_⟩
  · exact fun y hy => List.mem_takeWhile_imp hy
  · cases h : R.dropWhile vctIslws with
    | nil => exact Or.inl rfl
    | cons y Y =>
      have hne : R.dropWhile vctIslws ≠ [] := by
        rw [h]
        exact List.cons_ne_nil _ _
      have hy := List.head_dropWhile_not vctIslws hne
      simp only [h, List.head_cons] at hy
      exact Or.inr ⟨y, Y, rfl, Bool.not_eq_true _ ▸ hy⟩

/-- Text up to a line break, or up to the end. -/
lemma text_split (R : List UInt8) :
    ∃ x Y, R = x ++ Y ∧ NoCrlf x ∧ (Y = [] ∨ ∃ y Y', Y = y :: Y' ∧ vctIscrlf y = true) := by
  refine ⟨R.takeWhile (fun y => !vctIscrlf y), R.dropWhile (fun y => !vctIscrlf y),
    (List.takeWhile_append_dropWhile).symm, ?_, ?_⟩
  · intro y hy
    have hy' := List.mem_takeWhile_imp hy
    simpa using hy'
  · cases h : R.dropWhile (fun y => !vctIscrlf y) with
    | nil => exact Or.inl rfl
    | cons y Y =>
      have hne : R.dropWhile (fun y => !vctIscrlf y) ≠ [] := by
        rw [h]
        exact List.cons_ne_nil _ _
      have hy := List.head_dropWhile_not (fun y => !vctIscrlf y) hne
      simp only [h, List.head_cons] at hy
      exact Or.inr ⟨y, Y, rfl, by simpa using hy⟩

lemma clearLws_append (hw : AllLws w) (U : List UInt8) : clearLws (w ++ U) = spaces w.length ++ clearLws U := by
  unfold clearLws spaces
  rw [List.takeWhile_append_of_pos hw, List.dropWhile_append_of_pos hw, List.length_append, List.replicate_add,
    List.append_assoc]

lemma clearLws_ends (h : EndsRun U) : clearLws U = U := by
  obtain ⟨y, U, rfl, hy⟩ := h
  simp [clearLws, hy]

lemma lwsRun_append (hw : AllLws w) (U : List UInt8) :
    ((w ++ U).takeWhile vctIslws).length = w.length + (U.takeWhile vctIslws).length := by
  rw [List.takeWhile_append_of_pos hw, List.length_append]

lemma endsRun_append (h : EndsRun Y) (T : List UInt8) : EndsRun (Y ++ T) := by
  obtain ⟨y, Y, rfl, hy⟩ := h
  exact ⟨y, Y ++ T, rfl, hy⟩

/-! ## The scan for the end of a header -/

lemma hdrScan_text (n : Nat) (seg U : List UInt8) (q : Nat) (hx : NoCrlf x) :
    hdrScan (x.length + n) seg (x ++ U) q = hdrScan n (seg ++ x) U q := by
  induction x generalizing seg with
  | nil => rw [List.length_nil, Nat.zero_add, List.nil_append, List.append_nil]
  | cons y x ih =>
    have hy : vctIscrlf y = false := hx y List.mem_cons_self
    rw [List.length_cons, Nat.add_right_comm, List.cons_append, hdrScan, hy]
    rw [if_pos (by rfl), ih _ (fun z hz => hx z (List.mem_cons_of_mem _ hz)), List.append_assoc, List.singleton_append]

lemma noCrlf_spaces (n : Nat) : NoCrlf (spaces n) := by
  intro y hy
  rw [List.eq_of_mem_replicate hy]
  rfl

/-- At a line break that ends the header. -/
lemma hdrScan_break (T : List UInt8) (hb : IsBreak b Z) (hZ : headBlank Z = false) :
    hdrScan (b ++ Z).length seg (b ++ (Z ++ T)) q = ⟨seg ++ b, Z ++ T, Z.length, seg.length⟩ := by
  have hskip := skipcrlf_break T hb
  have hpos := break_pos hb
  obtain ⟨m, hm⟩ : ∃ m, (b ++ Z).length = m + 1 := by
    refine ⟨(b ++ Z).length - 1, ?_⟩
    rw [List.length_append]
    omega
  have hrest : m + 1 - b.length = Z.length := by
    rw [← hm, List.length_append, Nat.add_sub_cancel_left]
  obtain ⟨y, u, rfl, hy⟩ := break_head hb
  have hstop : m + 1 ≤ (y :: u).length ∨ (!vctIssp (((y :: u ++ (Z ++ T)).drop (y :: u).length).headD 0)) = true := by
    rw [List.drop_left]
    cases Z with
    | nil =>
      left
      rw [← hm, List.append_nil]
    | cons z Z =>
      right
      have hz : vctIssp z = false := hZ
      rw [List.cons_append, List.headD_cons, hz]
      rfl
  rw [hm, List.cons_append, hdrScan, hy]
  rw [List.cons_append] at hskip hstop
  simp only [Bool.not_true, Bool.false_eq_true, if_false, hskip]
  rw [if_pos hstop, ← List.cons_append, List.take_left, List.drop_left, hrest]

/-- At a line that continues. -/
lemma hdrScan_fold (hw : IsFold w) :
    hdrScan (w.length + n) seg (w ++ U) q =
      hdrScan n (seg ++ spaces w.length) (clearLws U) (seg.length + w.length + (U.takeWhile vctIslws).length) := by
  obtain ⟨⟨b, Z, rfl, hb, hZ⟩, hlws⟩ := hw
  have hskip := skipcrlf_break U hb
  obtain ⟨z, Z, rfl, hz⟩ : ∃ z Z', Z = z :: Z' ∧ vctIssp z = true := by
    cases Z with
    | nil => cases hZ
    | cons z Z => exact ⟨z, Z, rfl, hZ⟩
  obtain ⟨y, u, rfl, hy⟩ := break_head hb
  have hgo : ¬ ((u ++ z :: Z).length + n + 1 ≤ (y :: u).length ∨
      (!vctIssp (((y :: u ++ (z :: Z ++ U)).drop (y :: u).length).headD 0)) = true) := by
    rw [List.drop_left, List.cons_append, List.headD_cons, hz]
    simp only [List.length_append, List.length_cons, Bool.not_true, Bool.false_eq_true, or_false]
    omega
  have htail : AllLws (u ++ z :: Z) := fun c hc => hlws c (List.mem_cons_of_mem _ hc)
  have hlen : (y :: u ++ z :: Z).length + n = (u ++ z :: Z).length + n + 1 := by
    rw [List.cons_append, List.length_cons, Nat.add_right_comm]
  rw [hlen, List.append_assoc, List.cons_append, hdrScan, hy]
  rw [List.cons_append] at hskip hgo
  simp only [Bool.not_true, Bool.false_eq_true, if_false, hskip]
  rw [if_neg hgo, ← List.append_assoc, clearLws_append htail, lwsRun_append htail]
  have hword : (spaces (u ++ z :: Z).length).length = (u ++ z :: Z).length := List.length_replicate
  have htext := fun seg q => hdrScan_text n seg (clearLws U) q (noCrlf_spaces (u ++ z :: Z).length)
  simp only [hword] at htext
  rw [htext, List.append_assoc]
  congr 1
  rw [List.cons_append, List.length_cons]
  omega

/-! ## One header -/

/-- The scan over `R`, up to `t.e`: the text of the header, its line break and what is behind it, and whether the
white space behind `t.e` goes with it. -/
inductive ScanTo : List UInt8 → Txt → List UInt8 → List UInt8 → Bool → Prop where
  | stop {x b Z : List UInt8} (hx : NoCrlf x) (hb : IsBreak b Z) (hZ : headBlank Z = false) :
    ScanTo (x ++ (b ++ Z)) x b Z false
  | fold {x w Y txt b Z : List UInt8} {k : Bool} (hx : NoCrlf x) (hw : IsFold w) (hY : EndsRun Y)
    (h : ScanTo Y txt b Z k) : ScanTo (x ++ (w ++ Y)) (x ++ (spaces w.length ++ txt)) b Z k
  | past {x w : List UInt8} (hx : NoCrlf x) (hw : IsFold w) : ScanTo (x ++ w) (x ++ spaces w.length) [] [] true

lemma last_append_ne (hY : Y ≠ []) (hlast : (X ++ Y).getLast? = some chNl) : Y.getLast? = some chNl := by
  rw [List.getLast?_append] at hlast
  cases h : Y.getLast? with
  | none => exact absurd (List.getLast?_eq_none_iff.mp h) hY
  | some y =>
    rw [h, Option.some_or] at hlast
    exact hlast

lemma scanTo_exists (hR : R.getLast? = some chNl) : ∃ txt b Z k, ScanTo R txt b Z k := by
  induction hn : R.length using Nat.strong_induction_on generalizing R with
  | _ n ih =>
    obtain ⟨x, Y, rfl, hx, hY⟩ := text_split R
    rcases hY with rfl | ⟨y, Y, rfl, hy⟩
    · -- a list without a line break does not end in one
      rw [List.append_nil] at hR
      have hmem := hx chNl (List.mem_of_getLast? hR)
      exact absurd hmem (by decide)
    · have hlast := last_append_ne (List.cons_ne_nil _ _) hR
      obtain ⟨b, Z, hsplit, hb⟩ := exists_break hy hlast
      rw [hsplit] at hlast hn ⊢
      by_cases hZ : headBlank Z = true
      · obtain ⟨v, Y', rfl, hv, hY'⟩ := lws_split Z
        have hlws : AllLws (b ++ v) := by
          intro c hc
          rcases List.mem_append.mp hc with hc | hc
          · exact break_lws hb c hc
          · exact hv c hc
        rw [← List.append_assoc b v Y']
        rcases hY' with rfl | hY'
        · rw [List.append_nil] at hb hZ ⊢
          exact ⟨_, _, _, _, .past hx ⟨⟨b, v, rfl, hb, hZ⟩, hlws⟩⟩
        · have hw : IsFold (b ++ v) := by
            obtain ⟨y', Y'', rfl, hy'⟩ := hY'
            have hvne : v ≠ [] := by
              rintro rfl
              have hblank : vctIssp y' = true := hZ
              rw [(not_lws hy').2] at hblank
              cases hblank
            obtain ⟨z, v', rfl⟩ := List.exists_cons_of_ne_nil hvne
            refine ⟨⟨b, z :: v', rfl, ?_, hZ⟩, hlws⟩
            cases hb with
            | crlf => exact .crlf _
            | lf => exact .lf _
            | cr _ _ hc => exact .cr _ _ hc
          have hlt : Y'.length < n := by
            have hpos := break_pos hb
            rw [← hn]
            simp only [List.length_append]
            omega
          have hYne : Y' ≠ [] := by
            obtain ⟨y', Y'', rfl, -⟩ := hY'
            exact List.cons_ne_nil _ _
          have hlast' : Y'.getLast? = some chNl := last_append_ne hYne (last_append_ne (by
            obtain ⟨y', Y'', rfl, -⟩ := hY'
            simp) hlast)
          obtain ⟨txt, b', Z', k, hscan⟩ := ih Y'.length hlt hlast' rfl
          exact ⟨_, _, _, _, .fold hx hw hY' hscan⟩
      · exact ⟨_, _, _, _, .stop hx hb (Bool.not_eq_true _ ▸ hZ)⟩

lemma length_spaces (n : Nat) : (spaces n).length = n := List.length_replicate

/-- What the `while` loop makes of it. -/
lemma hdrScan_scanTo (h : ScanTo R txt b Z k) (T seg : List UInt8) (q : Nat) :
    hdrScan R.length seg (R ++ T) q =
      if k then ⟨seg ++ txt, clearLws T, 0, (seg ++ txt).length + (T.takeWhile vctIslws).length⟩
      else ⟨seg ++ txt ++ b, Z ++ T, Z.length, (seg ++ txt).length⟩ := by
  induction h generalizing seg q with
  | stop hx hb hZ =>
    rw [List.length_append, List.append_assoc, hdrScan_text _ _ _ _ hx, List.append_assoc, hdrScan_break T hb hZ]
    rfl
  | @fold x w Y txt b Z k hx hw hY h ih =>
    rw [List.length_append, List.append_assoc, hdrScan_text _ _ _ _ hx, List.length_append, List.append_assoc,
      hdrScan_fold hw, clearLws_ends (endsRun_append hY T), ih]
    simp only [List.append_assoc]
  | @past x w hx hw =>
    rw [List.length_append, List.append_assoc, hdrScan_text _ _ _ _ hx]
    have hfold : hdrScan (w.length + 0) (seg ++ x) (w ++ T) q =
        hdrScan 0 (seg ++ x ++ spaces w.length) (clearLws T)
          ((seg ++ x).length + w.length + (T.takeWhile vctIslws).length) := hdrScan_fold hw
    rw [Nat.add_zero] at hfold
    rw [hfold, hdrScan]
    simp only [if_true, List.append_assoc, List.length_append, length_spaces, Nat.add_assoc]

/-- What is in front of the rest, with a line break at its end. -/
lemma scanTo_rest (h : ScanTo R txt b Z k) :
    ∃ L, R = L ++ Z ∧ L.length = txt.length + b.length ∧ (k = false → IsBreak b Z ∧ headBlank Z = false) ∧
      (k = true → b = [] ∧ Z = [] ∧ txt.getLast? = some chSpace) := by
  induction h with
  | @stop x b Z hx hb hZ =>
    refine ⟨x ++ b, by rw [List.append_assoc], List.length_append, fun _ => ⟨hb, hZ⟩, ?_⟩
    intro hk
    cases hk
  | @fold x w Y txt b Z k hx hw hY h ih =>
    obtain ⟨L, rfl, hlen, hstop, hpast⟩ := ih
    refine ⟨x ++ (w ++ L), by simp only [List.append_assoc], ?_, hstop, ?_⟩
    · simp only [List.length_append, length_spaces, hlen]
      omega
    · intro hk
      obtain ⟨hb, hZ, hlast⟩ := hpast hk
      refine ⟨hb, hZ, ?_⟩
      rw [← List.append_assoc, List.getLast?_append, hlast]
      rfl
  | @past x w hx hw =>
    refine ⟨x ++ w, by rw [List.append_nil], by simp [length_spaces], fun hk => ?_, fun _ => ⟨rfl, rfl, ?_⟩⟩
    · cases hk
    · obtain ⟨⟨b, Z, rfl, hb, -⟩, -⟩ := hw
      have hpos := break_pos hb
      obtain ⟨m, hm⟩ : ∃ m, (b ++ Z).length = m + 1 := by
        refine ⟨(b ++ Z).length - 1, ?_⟩
        rw [List.length_append]
        omega
      rw [hm, spaces, List.replicate_succ', List.getLast?_append, List.getLast?_append]
      rfl

lemma scanTo_last (h : ScanTo R txt b Z k) (hR : R.getLast? = some chNl) : Z = [] ∨ Z.getLast? = some chNl := by
  obtain ⟨L, rfl, -⟩ := scanTo_rest h
  by_cases hZ : Z = []
  · exact Or.inl hZ
  · exact Or.inr (last_append_ne hZ hR)

/-! ## All headers -/

/-- The text without the blanks at its end. -/
def trimBlanks (x : Txt) : Txt := x.rdropWhile vctIssp

lemma trimBlanks_append (x : Txt) {v : Txt} (hv : ∀ c ∈ v, vctIssp c = true) : trimBlanks (x ++ v) = trimBlanks x := by
  unfold trimBlanks List.rdropWhile
  rw [List.reverse_append, List.dropWhile_append_of_pos]
  intro c hc
  exact hv c (List.mem_reverse.mp hc)

lemma trimBlanks_length (x : Txt) : (trimBlanks x).length ≤ x.length := by
  unfold trimBlanks List.rdropWhile
  rw [List.length_reverse]
  exact (List.dropWhile_suffix _).length_le.trans (le_of_eq List.length_reverse)

lemma blank_spaces (n : Nat) : ∀ c ∈ spaces n, vctIssp c = true := by
  intro c hc
  rw [List.eq_of_mem_replicate hc]
  rfl

lemma trimBlanks_lt {x : Txt} (hlast : x.getLast? = some chSpace) : (trimBlanks x).length < x.length := by
  obtain ⟨v, rfl⟩ := List.getLast?_eq_some_iff.mp hlast
  have hle := trimBlanks_length v
  have htrim : trimBlanks (v ++ [chSpace]) = trimBlanks v := trimBlanks_append v (blank_spaces 1)
  rw [htrim, List.length_append]
  exact Nat.lt_succ_of_le hle

/-- The headers that come of the bytes `R` up to `t.e`, the bytes that are left when an empty line is found before, and
whether the white space behind `t.e` goes with the last header. -/
inductive Dissects : List UInt8 → List Txt → List UInt8 → Bool → Prop where
  | done : Dissects [] [] [] false
  | stop {R b Z : List UInt8} (h : ScanTo R [] b Z false) : Dissects R [] Z false
  | field {R txt b Z S : List UInt8} {fs : List Txt} {k : Bool} (h : ScanTo R txt b Z false) (htxt : txt ≠ [])
    (hrest : Dissects Z fs S k) : Dissects R (trimBlanks txt :: fs) S k
  | past {R txt : List UInt8} (h : ScanTo R txt [] [] true) : Dissects R [trimBlanks txt] [] true

lemma dissects_exists (hR : R = [] ∨ R.getLast? = some chNl) : ∃ fs S k, Dissects R fs S k := by
  induction hn : R.length using Nat.strong_induction_on generalizing R with
  | _ n ih =>
    rcases hR with rfl | hR
    · exact ⟨_, _, _, .done⟩
    · obtain ⟨txt, b, Z, k, hscan⟩ := scanTo_exists hR
      obtain ⟨L, hsplit, hlen, hstop, hpast⟩ := scanTo_rest hscan
      cases k with
      | true =>
        obtain ⟨rfl, rfl, -⟩ := hpast rfl
        exact ⟨_, _, _, .past hscan⟩
      | false =>
        by_cases htxt : txt = []
        · rw [htxt] at hscan
          exact ⟨_, _, _, .stop hscan⟩
        · have hpos := break_pos (hstop rfl).1
          have hlt : Z.length < n := by
            rw [← hn, hsplit, List.length_append]
            omega
          obtain ⟨fs, S, k, hrest⟩ := ih Z.length hlt (scanTo_last hscan hR) rfl
          exact ⟨_, _, _, .field hscan htxt hrest⟩

/-- There is one header at the front of `R`, if there is one. -/
lemma scanTo_unique {txt' : List UInt8} {k' : Bool} (h : ScanTo R txt b Z k) (h' : ScanTo R txt' b' Y k') :
    txt = txt' ∧ Z = Y ∧ k = k' := by
  have hscan := (hdrScan_scanTo h [] [] 0).symm.trans (hdrScan_scanTo h' [] [] 0)
  obtain ⟨L, hL, hlen, hstop, hpast⟩ := scanTo_rest h
  obtain ⟨L', hL', hlen', hstop', hpast'⟩ := scanTo_rest h'
  cases k with
  | true =>
    obtain ⟨rfl, rfl, -⟩ := hpast rfl
    cases k' with
    | true =>
      obtain ⟨rfl, rfl, -⟩ := hpast' rfl
      simp only [if_true, HdrScan.mk.injEq, List.nil_append] at hscan
      exact ⟨hscan.1, rfl, rfl⟩
    | false =>
      have hpos := break_pos (hstop' rfl).1
      simp only [if_true, Bool.false_eq_true, if_false, HdrScan.mk.injEq, List.nil_append] at hscan
      have hseg := congrArg List.length hscan.1
      have hq := hscan.2.2.2
      simp only [List.length_append, List.takeWhile_nil, List.length_nil] at hseg hq
      omega
  | false =>
    have hpos := break_pos (hstop rfl).1
    cases k' with
    | true =>
      obtain ⟨rfl, rfl, -⟩ := hpast' rfl
      simp only [if_true, Bool.false_eq_true, if_false, HdrScan.mk.injEq, List.nil_append] at hscan
      have hseg := congrArg List.length hscan.1
      have hq := hscan.2.2.2
      simp only [List.length_append, List.takeWhile_nil, List.length_nil] at hseg hq
      omega
    | false =>
      simp only [Bool.false_eq_true, if_false, HdrScan.mk.injEq, List.nil_append, List.append_nil] at hscan
      exact ⟨(List.append_inj hscan.1 hscan.2.2.2).1, hscan.2.1, rfl⟩

/-- Each header of `R` that ends in it has a slot, and is not longer than the limit. -/
inductive EarlierFit (maxhdr : Nat) : Nat → List UInt8 → Prop where
  | last {slots : Nat} {R : List UInt8} (h : ∀ txt b Z, ¬ ScanTo R txt b Z false) : EarlierFit maxhdr slots R
  | header {slots : Nat} {R txt b Z : List UInt8} (h : ScanTo R txt b Z false) (hlen : txt.length ≤ maxhdr)
    (hrest : EarlierFit maxhdr slots Z) : EarlierFit maxhdr (slots + 1) R

lemma earlierFit_header {maxhdr slots : Nat} (h : ScanTo R txt b Z false) :
    EarlierFit maxhdr slots R ↔ ∃ m, slots = m + 1 ∧ txt.length ≤ maxhdr ∧ EarlierFit maxhdr m Z := by
  constructor
  · intro hfit
    cases hfit with
    | last hno => exact absurd h (hno _ _ _)
    | @header m _ txt' b' Z' h' hlen hrest =>
      obtain ⟨rfl, rfl, -⟩ := scanTo_unique h h'
      exact ⟨m, rfl, hlen, hrest⟩
  · rintro ⟨m, rfl, hlen, hrest⟩
    exact .header h hlen hrest

lemma earlierFit_past (maxhdr slots : Nat) (h : ScanTo R txt b Z true) : EarlierFit maxhdr slots R := by
  refine .last fun txt' b' Z' h' => ?_
  cases (scanTo_unique h h').2.2

/-- A `NUL` inside of the first part. -/
lemma set_parts {i : Nat} (X Y : List UInt8) (hi : i < X.length) :
    ((X ++ Y).set i 0).take X.length = X.set i 0 ∧ ((X ++ Y).set i 0).drop X.length = Y := by
  rw [List.set_append_left _ _ hi]
  have hlen : (X.set i 0).length = X.length := List.length_set
  constructor
  · exact List.take_left' hlen
  · exact List.drop_left' hlen

/-- What the loop leaves of `R` and of the bytes `T` behind it. -/
structure LoopSpec (maxhdr slots : Nat) (R : List UInt8) (fs : List Txt) (S : List UInt8) (k : Bool)
    (T done : List UInt8) (hd : List Txt)
    (r : Nat × Dissect) : Prop where
  accepted : r.1 = 0 → r.2.hd = hd ++ fs ∧ r.2.rest = (if k then clearLws T else S ++ T) ∧
    r.2.done.length + S.length = done.length + R.length
  buf : ∃ U, U.length = done.length + R.length ∧
    (k = true ∧ EarlierFit maxhdr slots R → r.2.done ++ r.2.rest = U ++ clearLws T) ∧
    (¬ (k = true ∧ EarlierFit maxhdr slots R) → r.2.done ++ r.2.rest = U ++ T)

/-- Where the scan has found text, the loop cuts it off, and goes on if there is a slot. -/
lemma loop_text {d : Dissect} {s : HdrScan} (maxhdr slots : Nat) (hn : d.n ≠ 0) (hs : hdrScan d.n [] d.rest 0 = s)
    (hlong : ¬ maxhdr < s.q) (hq : s.q ≠ 0) :
    Dissect.loop maxhdr slots d =
      match slots with
      | 0 =>
        (413,
          { d with
            rest := (s.seg ++ s.rest).set (trimBlanks ((s.seg ++ s.rest).take s.q)).length 0
            conds := d.conds || Dissect.ifDash (s.seg ++ s.rest) })
      | slots + 1 =>
        Dissect.loop maxhdr slots
          { done := d.done ++ ((s.seg ++ s.rest).set (trimBlanks ((s.seg ++ s.rest).take s.q)).length 0).take s.seg.length
            rest := ((s.seg ++ s.rest).set (trimBlanks ((s.seg ++ s.rest).take s.q)).length 0).drop s.seg.length
            n := s.n
            hd := d.hd ++ [trimBlanks ((s.seg ++ s.rest).take s.q)]
            conds := d.conds || Dissect.ifDash (s.seg ++ s.rest) } := by
  rw [Dissect.loop.eq_def]
  simp only [if_neg hn, hs, if_neg hlong, if_neg hq]
  rfl

/-- Where it has found a header that is too long. -/
lemma loop_long {d : Dissect} {s : HdrScan} (maxhdr slots : Nat) (hn : d.n ≠ 0) (hs : hdrScan d.n [] d.rest 0 = s)
    (hlong : maxhdr < s.q) : Dissect.loop maxhdr slots d = (413, { d with rest := s.seg ++ s.rest }) := by
  rw [Dissect.loop.eq_def]
  simp only [if_neg hn, hs, if_pos hlong]

lemma loop_end {d : Dissect} (maxhdr slots : Nat) (hn : d.n = 0) : Dissect.loop maxhdr slots d = (0, d) := by
  rw [Dissect.loop.eq_def]
  simp only [if_pos hn]

lemma scanTo_pos (h : ScanTo R txt b Z k) (htxt : txt ≠ []) : R.length ≠ 0 := by
  obtain ⟨L, hsplit, hlen, -⟩ := scanTo_rest h
  have hpos := List.length_pos_of_ne_nil htxt
  rw [hsplit, List.length_append, hlen]
  omega

lemma scanTo_length (h : ScanTo R txt b Z k) : R.length = txt.length + b.length + Z.length := by
  obtain ⟨L, hsplit, hlen, -⟩ := scanTo_rest h
  rw [hsplit, List.length_append, hlen]

/-- At an empty line. -/
lemma loop_stop (h : ScanTo R [] b Z false) (maxhdr slots : Nat) (T done : List UInt8) (hd : List Txt) (conds : Bool) :
    Dissect.loop maxhdr slots { done := done, rest := R ++ T, n := R.length, hd := hd, conds := conds } =
      (0, { done := done ++ b, rest := Z ++ T, n := Z.length, hd := hd, conds := conds }) := by
  obtain ⟨L, -, -, hstop, -⟩ := scanTo_rest h
  have hpos := break_pos (hstop rfl).1
  have hlen := scanTo_length h
  have hscan := hdrScan_scanTo h T [] 0
  rw [Dissect.loop.eq_def]
  simp only [if_neg (show R.length ≠ 0 by omega), hscan, Bool.false_eq_true, if_false, List.nil_append,
    List.length_nil, Nat.not_lt_zero, if_true]

lemma trimBlanks_in (txt : Txt) (hb : b ≠ []) : (trimBlanks txt).length < (txt ++ b).length := by
  have hle := trimBlanks_length txt
  have hpos := List.length_pos_of_ne_nil hb
  rw [List.length_append]
  omega

/-- At a header that has a slot, and at one that has none. -/
lemma loop_field (h : ScanTo R txt b Z false) (htxt : txt ≠ []) {maxhdr : Nat} (hlong : ¬ maxhdr < txt.length)
    (slots : Nat)
    (T done : List UInt8) (hd : List Txt) (conds : Bool) :
    Dissect.loop maxhdr slots { done := done, rest := R ++ T, n := R.length, hd := hd, conds := conds } =
      match slots with
      | 0 =>
        (413,
          { done := done
            rest := (txt ++ b).set (trimBlanks txt).length 0 ++ (Z ++ T)
            n := R.length
            hd := hd
            conds := conds || Dissect.ifDash (txt ++ b ++ (Z ++ T)) })
      | slots + 1 =>
        Dissect.loop maxhdr slots
          { done := done ++ (txt ++ b).set (trimBlanks txt).length 0
            rest := Z ++ T
            n := Z.length
            hd := hd ++ [trimBlanks txt]
            conds := conds || Dissect.ifDash (txt ++ b ++ (Z ++ T)) } := by
  obtain ⟨L, -, -, hstop, -⟩ := scanTo_rest h
  have hi := trimBlanks_in txt (break_ne_nil (hstop rfl).1)
  have hscan := hdrScan_scanTo h T [] 0
  simp only [Bool.false_eq_true, if_false, List.nil_append] at hscan
  have htake : (txt ++ b ++ (Z ++ T)).take txt.length = txt := by
    rw [List.append_assoc, List.take_left]
  obtain ⟨hset, hdrop⟩ := set_parts (txt ++ b) (Z ++ T) hi
  rw [loop_text (d := ⟨done, R ++ T, R.length, hd, conds⟩) _ _ (scanTo_pos h htxt) hscan hlong
    (Nat.ne_of_gt (List.length_pos_of_ne_nil htxt))]
  cases slots with
  | zero => simp only [htake, List.set_append_left _ _ hi]
  | succ slots => simp only [htake, hset, hdrop]

/-- At a header that goes on behind `t.e`. -/
lemma loop_past (h : ScanTo R txt [] [] true) {maxhdr : Nat} {T : List UInt8}
    (hlong : ¬ maxhdr < txt.length + (T.takeWhile vctIslws).length) (slots : Nat) (done : List UInt8) (hd : List Txt)
    (conds : Bool) :
    Dissect.loop maxhdr slots { done := done, rest := R ++ T, n := R.length, hd := hd, conds := conds } =
      match slots with
      | 0 =>
        (413,
          { done := done
            rest := txt.set (trimBlanks txt).length 0 ++ clearLws T
            n := R.length
            hd := hd
            conds := conds || Dissect.ifDash (txt ++ clearLws T) })
      | _ + 1 =>
        (0,
          { done := done ++ txt.set (trimBlanks txt).length 0
            rest := clearLws T
            n := 0
            hd := hd ++ [trimBlanks txt]
            conds := conds || Dissect.ifDash (txt ++ clearLws T) }) := by
  obtain ⟨L, -, -, -, hpast⟩ := scanTo_rest h
  have hi := trimBlanks_lt (hpast rfl).2.2
  have htxt : txt ≠ [] := List.ne_nil_of_length_pos (Nat.zero_lt_of_lt hi)
  have hscan := hdrScan_scanTo h T [] 0
  simp only [if_true, List.nil_append] at hscan
  have htake : trimBlanks ((txt ++ clearLws T).take (txt.length + (T.takeWhile vctIslws).length)) = trimBlanks txt := by
    have hrun : (clearLws T).take (T.takeWhile vctIslws).length = spaces (T.takeWhile vctIslws).length :=
      List.take_left' (length_spaces _)
    rw [List.take_length_add_append, hrun, trimBlanks_append _ (blank_spaces _)]
  obtain ⟨hset, hdrop⟩ := set_parts txt (clearLws T) hi
  rw [loop_text (d := ⟨done, R ++ T, R.length, hd, conds⟩) _ _ (scanTo_pos h htxt) hscan hlong (by dsimp only; omega)]
  cases slots with
  | zero => simp only [htake, List.set_append_left _ _ hi]
  | succ slots =>
    simp only [htake, hset, hdrop]
    rw [loop_end _ _ rfl]

lemma loop_spec (h : Dissects R fs S k) (maxhdr slots : Nat) (T done : List UInt8) (hd : List Txt) (conds : Bool) :
    LoopSpec maxhdr slots R fs S k T done hd
      (Dissect.loop maxhdr slots { done := done, rest := R ++ T, n := R.length, hd := hd, conds := conds }) := by
  have hrefused : ∀ {r : Dissect} {P : Prop}, (413, r).1 = 0 → P :=
    fun h0 => absurd (show 413 = 0 from h0) (by decide)
  have hkept : ∀ {P Q : Prop}, false = true ∧ P → Q := fun h => absurd h.1 Bool.false_ne_true
  induction h generalizing slots done hd conds with
  | done =>
    rw [loop_end _ _ rfl]
    exact ⟨fun _ => ⟨(List.append_nil _).symm, rfl, rfl⟩, done, rfl, hkept, fun _ => rfl⟩
  | @stop R b Z h =>
    have hlen := scanTo_length h
    rw [List.length_nil, Nat.zero_add] at hlen
    rw [loop_stop h]
    refine ⟨fun _ => ⟨(List.append_nil _).symm, rfl, ?_⟩, done ++ b ++ Z, ?_, hkept, fun _ => ?_⟩
    · rw [List.length_append, hlen, Nat.add_assoc]
    · rw [List.length_append, List.length_append, hlen, Nat.add_assoc]
    · rw [List.append_assoc (done ++ b)]
  | @field R txt b Z S fs k h htxt hrest ih =>
    have hlen := scanTo_length h
    by_cases hlong : maxhdr < txt.length
    · have hscan := hdrScan_scanTo h T [] 0
      simp only [Bool.false_eq_true, if_false, List.nil_append] at hscan
      rw [loop_long (d := ⟨done, R ++ T, R.length, hd, conds⟩) _ _ (scanTo_pos h htxt) hscan hlong]
      refine ⟨hrefused, done ++ (txt ++ b ++ Z), ?_, ?_, fun _ => ?_⟩
      · simp only [List.length_append]
        omega
      · rintro ⟨-, hfit⟩
        obtain ⟨m, -, hle, -⟩ := (earlierFit_header h).mp hfit
        omega
      · simp only [List.append_assoc]
    · rw [loop_field h htxt hlong]
      cases slots with
      | zero =>
        refine ⟨hrefused, done ++ ((txt ++ b).set (trimBlanks txt).length 0 ++ Z), ?_, ?_, fun _ => ?_⟩
        · simp only [List.length_append, List.length_set]
          omega
        · rintro ⟨-, hfit⟩
          obtain ⟨m, hm, -⟩ := (earlierFit_header h).mp hfit
          omega
        · simp only [List.append_assoc]
      | succ slots =>
        dsimp only
        obtain ⟨haccepted, U, hU, hclear, hkeep⟩ := ih slots (done ++ (txt ++ b).set (trimBlanks txt).length 0)
          (hd ++ [trimBlanks txt]) (conds || Dissect.ifDash (txt ++ b ++ (Z ++ T)))
        simp only [List.length_append, List.length_set] at haccepted hU
        have hfits : EarlierFit maxhdr (slots + 1) R ↔ EarlierFit maxhdr slots Z := by
          rw [earlierFit_header h]
          constructor
          · rintro ⟨m, hm, -, hfit⟩
            obtain rfl := Nat.succ_inj.mp hm
            exact hfit
          · exact fun hfit => ⟨slots, rfl, by omega, hfit⟩
        refine ⟨fun h0 => ?_, U, by omega, ?_⟩
        · obtain ⟨hhd, hrest', hdone⟩ := haccepted h0
          exact ⟨by rw [hhd, List.append_assoc, List.singleton_append], hrest', by omega⟩
        · rw [hfits]
          exact ⟨hclear, hkeep⟩
  | @past R txt h =>
    have hlen := scanTo_length h
    simp only [List.length_nil, Nat.add_zero] at hlen
    have hfit : ∀ {P : Prop}, ¬ (true = true ∧ EarlierFit maxhdr slots R) → P :=
      fun hno => absurd ⟨rfl, earlierFit_past maxhdr slots h⟩ hno
    by_cases hlong : maxhdr < txt.length + (T.takeWhile vctIslws).length
    · have hscan := hdrScan_scanTo h T [] 0
      simp only [if_true, List.nil_append] at hscan
      have htxt : txt ≠ [] := by
        rintro rfl
        obtain ⟨L, -, -, -, hpast⟩ := scanTo_rest h
        cases (hpast rfl).2.2
      rw [loop_long (d := ⟨done, R ++ T, R.length, hd, conds⟩) _ _ (scanTo_pos h htxt) hscan hlong]
      refine ⟨hrefused, done ++ txt, ?_, fun _ => (List.append_assoc _ _ _).symm, hfit⟩
      rw [List.length_append, hlen]
    · rw [loop_past h hlong]
      cases slots with
      | zero =>
        refine ⟨hrefused, done ++ txt.set (trimBlanks txt).length 0, ?_, fun _ => (List.append_assoc _ _ _).symm, hfit⟩
        rw [List.length_append, List.length_set, hlen]
      | succ slots =>
        refine ⟨fun _ => ⟨rfl, rfl, ?_⟩, done ++ txt.set (trimBlanks txt).length 0, ?_, fun _ => rfl, hfit⟩
        · rw [List.length_append, List.length_set, hlen, List.length_nil, Nat.add_zero]
        · rw [List.length_append, List.length_set, hlen]

end VarnishCache.Proofs
