import VarnishCache.Argv

/-!
# Arguments through the CLI

What the child makes of the arguments that `mcf_askchild` sends. Quoting keeps arguments apart, but an empty one is
lost, and an octal escape of less than three digits takes octal digits that follow it for its own.
-/

namespace VarnishCache.Proofs

open VarnishCache

variable {hex : List UInt8 → Option Nat} {flag : VavFlags} {quote : Bool} {a b rest w : List UInt8} {c r : UInt8} {n : Nat}

lemma forall_byte {p : UInt8 → Prop} (h : ∀ n : Nat, n < 256 → p (UInt8.ofNat n)) (c : UInt8) : p c := by
  simpa using h c.toNat c.toNat_lt

lemma vavLoop_skip (argv : List (List UInt8)) (a b : List UInt8) :
    vavLoop hex flag argv a.length (a ++ b) = vavLoop hex flag argv 0 b := by
  induction a with
  | nil => rfl
  | cons c a ih => exact ih

/-- Bytes that a scan has passed add up. -/
lemma passed_zero (o : Option (Except VavError Nat)) : o.map (Except.map (· + 0)) = o := by
  cases o with
  | none => rfl
  | some e => cases e <;> rfl

lemma passed_passed (o : Option (Except VavError Nat)) (k m : Nat) :
    (o.map (Except.map (· + k))).map (Except.map (· + m)) = o.map (Except.map (· + (k + m))) := by
  cases o with
  | none => rfl
  | some e =>
    cases e with
    | error e => rfl
    | ok n => simp [Except.map, Nat.add_assoc]

lemma passed_ok {o : Option (Except VavError Nat)} {k n : Nat} (h : o.map (Except.map (· + k)) = some (.ok n)) :
    ∃ m, o = some (.ok m) ∧ m + k = n := by
  obtain ⟨e, rfl, he⟩ := Option.map_eq_some_iff.mp h
  cases e with
  | error e => cases he
  | ok m =>
    cases he
    exact ⟨m, rfl, rfl⟩

lemma vavScan_skip (a b : List UInt8) :
    vavScan sscanfHex flag quote a.length (a ++ b) =
      (vavScan sscanfHex flag quote 0 b).map (Except.map (· + a.length)) := by
  induction a with
  | nil => exact (passed_zero _).symm
  | cons c a ih => rw [List.cons_append, List.length_cons, vavScan_past, ih, passed_passed]

lemma vavBackSlashDecode_skip (a b : List UInt8) (n : Nat) :
    vavBackSlashDecode sscanfHex a.length (a.length + n) (a ++ b) = vavBackSlashDecode sscanfHex 0 n b := by
  induction a with
  | nil => simp
  | cons c a ih =>
    rw [List.cons_append, List.length_cons, Nat.add_right_comm]
    exact ih

/-- Between quotes, the bytes `w` in front of `rest` are taken for the byte `r`. -/
def Reads (w rest : List UInt8) (r : UInt8) : Prop :=
  (w = [r] ∧ r ≠ chBackslash ∧ r ≠ chQuote) ∨
    ∃ d t, w = chBackslash :: d :: t ∧ vavBackSlash sscanfHex (w ++ rest) = some (w.length, r)

/-- The flags in the child. -/
abbrev noFlags : VavFlags := { comment := false, comma := false, noesc := false }

lemma Reads.scan (h : Reads w rest r) :
    vavScan sscanfHex noFlags true 0 (w ++ rest) =
      (vavScan sscanfHex noFlags true 0 rest).map (Except.map (· + w.length)) := by
  rcases h with ⟨rfl, hb, hq⟩ | ⟨d, t, rfl, hw⟩
  · rw [List.singleton_append, vavScan_cons]
    simp [hb, hq]
  · rw [List.cons_append, vavScan_cons, ← List.cons_append, hw]
    have hskip : vavScan sscanfHex noFlags true (d :: t).length (d :: t ++ rest) = _ := vavScan_skip (d :: t) rest
    simp only [and_self, if_true, List.length_cons, List.cons_append] at hskip ⊢
    rw [hskip, passed_passed]

lemma Reads.decode (h : Reads w rest r) :
    vavBackSlashDecode sscanfHex 0 (w.length + n) (w ++ rest) = (vavBackSlashDecode sscanfHex 0 n rest).map (r :: ·) := by
  rcases h with ⟨rfl, hb, hq⟩ | ⟨d, t, rfl, hw⟩
  · rw [List.singleton_append, List.length_singleton, Nat.add_comm, vavBackSlashDecode_cons]
    simp [hb]
  · rw [List.cons_append, List.length_cons, Nat.add_right_comm, vavBackSlashDecode_cons, ← List.cons_append, hw]
    have hskip := vavBackSlashDecode_skip (d :: t) rest n
    simp only [ne_eq, not_true_eq_false, if_false, List.length_cons] at hskip ⊢
    rw [hskip]

/-- The control characters, whose octal escape has less than three digits. -/
def shortOctal (c : UInt8) : Bool := c < 0x20 && c ≠ 0x09 && c ≠ chNl && c ≠ chCr

/-- How many of the bytes `a` after `c` the escape for `c` takes in. -/
def taken (c : UInt8) (a : List UInt8) : Nat :=
  if shortOctal c then ((a.take (3 - (octal c).length)).takeWhile isOctal).length else 0

def octalValue (digits : List UInt8) : UInt8 := digits.foldl (fun c d => c <<< 3 ||| (d - 0x30)) 0

/-- What becomes of a quoted argument. -/
def heard : List UInt8 → List UInt8
  | [] => []
  | c :: a =>
    (if shortOctal c then octalValue (octal c ++ a.take (taken c a)) else c) :: heard (a.drop (taken c a))
termination_by a => a.length
decreasing_by simp

lemma heard_nil : heard [] = [] := by rw [heard]

lemma heard_cons (c : UInt8) (a : List UInt8) : heard (c :: a) =
    (if shortOctal c then octalValue (octal c ++ a.take (taken c a)) else c) :: heard (a.drop (taken c a)) := by
  rw [heard]

/-- A byte whose escape has two bytes, as it was and as it is read. -/
def shortEscape (c : UInt8) : Bool :=
  (quoteByte c).length = 2 && (quoteByte c).getD 0 0 = chBackslash &&
    [0x6e, 0x72, 0x74, chQuote, chBackslash].contains ((quoteByte c).getD 1 0) &&
      vavBackSlash sscanfHex (quoteByte c) = some (2, c)

set_option synthInstance.maxSize 1000 in
set_option synthInstance.maxHeartbeats 100000 in
/-- What the escape of a byte looks like, for each of the 256 bytes. -/
lemma quoteByte_bytes (c : UInt8) :
    ((isOctal c = true → quoteByte c = [c]) ∧
      (shortOctal c = true → quoteByte c = chBackslash :: octal c ∧ (octal c).length ≤ 2 ∧ (octal c).all isOctal = true) ∧
      (shortOctal c = false → (quoteByte c = [c] ∧ c ≠ chBackslash ∧ c ≠ chQuote) ∨
        shortEscape c = true ∨ quoteByte c = chBackslash :: octal c ∧ (octal c).length = 3 ∧
          (octal c).all isOctal = true)) ∧
    ((isOctal c = true → c ≠ 0x6e ∧ c ≠ 0x72 ∧ c ≠ 0x74 ∧ c ≠ chQuote ∧ c ≠ chBackslash) ∧
      (quoteByte c ≠ [] ∧ isOctal ((quoteByte c).headD 0) = isOctal c) ∧
      (quoteByte c).all (fun b => b ≠ chNl ∧ b ≠ chCr) = true ∧ octalValue (octal c) = c) ∧
    ((isGraph c && c ≠ chQuote && c ≠ chBackslash) = true →
      isspace c = false ∧ shortOctal c = false ∧ c ≠ chQuote ∧ c ≠ chBackslash) := by
  revert c
  refine forall_byte ?_
  decide +kernel

lemma quoteByte_table (c : UInt8) :
    (isOctal c = true → quoteByte c = [c]) ∧
    (shortOctal c = true → quoteByte c = chBackslash :: octal c ∧ (octal c).length ≤ 2 ∧ (octal c).all isOctal = true) ∧
    (shortOctal c = false → (quoteByte c = [c] ∧ c ≠ chBackslash ∧ c ≠ chQuote) ∨
      shortEscape c = true ∨ quoteByte c = chBackslash :: octal c ∧ (octal c).length = 3 ∧
        (octal c).all isOctal = true) :=
  (quoteByte_bytes c).1

lemma quoteByte_first (c : UInt8) :
    (isOctal c = true → c ≠ 0x6e ∧ c ≠ 0x72 ∧ c ≠ 0x74 ∧ c ≠ chQuote ∧ c ≠ chBackslash) ∧
    (quoteByte c ≠ [] ∧ isOctal ((quoteByte c).headD 0) = isOctal c) ∧
    (quoteByte c).all (fun b => b ≠ chNl ∧ b ≠ chCr) = true ∧ octalValue (octal c) = c :=
  (quoteByte_bytes c).2.1

lemma quoteByte_octal (h : isOctal c = true) : quoteByte c = [c] := (quoteByte_table c).1 h

lemma quoteByte_short (h : shortOctal c = true) : quoteByte c = chBackslash :: octal c :=
  ((quoteByte_table c).2.1 h).1

lemma octal_short (h : shortOctal c = true) : (octal c).length ≤ 2 ∧ ∀ d ∈ octal c, isOctal d = true := by
  rw [← List.all_eq_true]
  exact ((quoteByte_table c).2.1 h).2

lemma octalValue_octal (c : UInt8) : octalValue (octal c) = c := (quoteByte_first c).2.2.2

/-- A byte that needs no look at what comes after it. -/
lemma quoteByte_long (h : shortOctal c = false) : (quoteByte c = [c] ∧ c ≠ chBackslash ∧ c ≠ chQuote) ∨
    shortEscape c = true ∨ quoteByte c = chBackslash :: octal c ∧ (octal c).length = 3 ∧
      ∀ d ∈ octal c, isOctal d = true := by
  rw [← List.all_eq_true]
  exact (quoteByte_table c).2.2 h

lemma vavBackSlash_pair {d : UInt8} (hd : d ∈ [0x6e, 0x72, 0x74, chQuote, chBackslash]) (rest : List UInt8) :
    vavBackSlash sscanfHex (chBackslash :: d :: rest) = vavBackSlash sscanfHex [chBackslash, d] := by
  simp only [List.mem_cons, List.not_mem_nil, or_false] at hd
  rcases hd with rfl | rfl | rfl | rfl | rfl <;> rfl

/-- Octal digits up to the third, or up to a byte that is none. -/
lemma takeWhile_digits {ds : List UInt8} (hds : ∀ d ∈ ds, isOctal d = true) (hlen : ds.length ≤ 3)
    (hend : ds.length = 3 ∨ ∀ d, rest.head? = some d → isOctal d = false) :
    ((ds ++ rest).take 3).takeWhile isOctal = ds := by
  rw [List.take_append, List.take_of_length_le hlen, List.takeWhile_append_of_pos hds]
  rcases hend with h3 | hrest
  · simp [h3]
  · cases rest with
    | nil => simp
    | cons d rest =>
      have hd := hrest d rfl
      cases hm : 3 - ds.length with
      | zero => simp
      | succ m => simp [hd]

lemma vavBackSlash_octal {ds : List UInt8} (hds : ∀ d ∈ ds, isOctal d = true) (hne : ds ≠ []) (hlen : ds.length ≤ 3)
    (hend : ds.length = 3 ∨ ∀ d, rest.head? = some d → isOctal d = false) :
    vavBackSlash sscanfHex (chBackslash :: ds ++ rest) = some ((chBackslash :: ds).length, octalValue ds) := by
  obtain ⟨d, ds', rfl⟩ := List.exists_cons_of_ne_nil hne
  have hd := hds d List.mem_cons_self
  have hne := (quoteByte_first d).1 hd
  have hdigits := takeWhile_digits hds hlen hend
  unfold vavBackSlash
  have hget : (chBackslash :: d :: ds' ++ rest).getD 1 0 = d := rfl
  have hdrop : (chBackslash :: d :: ds' ++ rest).drop 1 = d :: ds' ++ rest := rfl
  rw [hget, hdrop]
  simp only [hne, hd, if_false, if_true, hdigits]
  rw [List.length_cons, Nat.add_comm]
  rfl

lemma reads_long (h : shortOctal c = false) (rest : List UInt8) : Reads (quoteByte c) rest c := by
  rcases quoteByte_long h with ⟨hq, hb, hq'⟩ | hs | ⟨hq, hlen, hds⟩
  · exact Or.inl ⟨hq, hb, hq'⟩
  · simp only [shortEscape, Bool.and_eq_true, decide_eq_true_eq, List.contains_iff_mem] at hs
    obtain ⟨⟨⟨hlen, hhead⟩, hmem⟩, hval⟩ := hs
    obtain ⟨b, d, hq⟩ := List.length_eq_two.mp hlen
    rw [hq] at hhead hmem hval ⊢
    obtain rfl : b = chBackslash := hhead
    exact Or.inr ⟨d, [], rfl, (vavBackSlash_pair hmem rest).trans hval⟩
  · have hread : vavBackSlash sscanfHex (chBackslash :: octal c ++ rest) = _ :=
      vavBackSlash_octal hds (by rw [← List.length_pos_iff, hlen]; decide) hlen.le (Or.inl hlen)
    rw [hq]
    obtain ⟨d, t, ht⟩ := List.exists_cons_of_length_eq_add_one hlen
    refine Or.inr ⟨d, t, by rw [ht], ?_⟩
    rw [hread, octalValue_octal]

/-- The argument between quotes. -/
abbrev quoted (a : List UInt8) : List UInt8 := a.flatMap quoteByte

lemma quoted_octal (h : ∀ d ∈ a, isOctal d = true) : quoted a = a := by
  induction a with
  | nil => rfl
  | cons d a ih =>
    have htail := ih (fun e he => h e (List.mem_cons_of_mem d he))
    unfold quoted at htail ⊢
    rw [List.flatMap_cons, quoteByte_octal (h d List.mem_cons_self), htail]
    rfl

/-- The digits that are taken in are the first ones of `a`, and after them comes another byte or they are enough. -/
lemma takeWhile_take (p : UInt8 → Bool) (a : List UInt8) (m : Nat) :
    a.take ((a.take m).takeWhile p).length = (a.take m).takeWhile p ∧ (((a.take m).takeWhile p).length = m ∨
      ∀ d, (a.drop ((a.take m).takeWhile p).length).head? = some d → p d = false) := by
  induction a generalizing m with
  | nil => simp
  | cons c a ih =>
    cases m with
    | zero => simp
    | succ m =>
      obtain ⟨htake, hend⟩ := ih m
      by_cases hc : p c = true
      · rw [List.take_succ_cons, List.takeWhile_cons_of_pos hc, List.length_cons, List.take_succ_cons, htake,
          List.drop_succ_cons]
        refine ⟨rfl, hend.imp ?_ id⟩
        intro h
        rw [h]
      · rw [List.take_succ_cons, List.takeWhile_cons_of_neg hc]
        refine ⟨rfl, Or.inr ?_⟩
        intro d hd
        cases hd
        simpa using hc

lemma quoted_head {d : UInt8} (h : (quoted a ++ chQuote :: rest).head? = some d) (ha : ∀ e, a.head? = some e →
    isOctal e = false) : isOctal d = false := by
  cases a with
  | nil =>
    cases h
    rfl
  | cons e a =>
    have he := ha e rfl
    have hfirst := (quoteByte_first e).2.1
    obtain ⟨f, l, hl⟩ := List.exists_cons_of_ne_nil hfirst.1
    rw [quoted, List.flatMap_cons, hl] at h
    cases h
    rw [hl] at hfirst
    exact hfirst.2.trans he

/-- The escape for a control character, with the digits after it. -/
lemma reads_short (h : shortOctal c = true) (a rest : List UInt8) :
    Reads (quoteByte c ++ a.take (taken c a)) (quoted (a.drop (taken c a)) ++ chQuote :: rest)
      (octalValue (octal c ++ a.take (taken c a))) ∧ ∀ d ∈ a.take (taken c a), isOctal d = true := by
  obtain ⟨hlen, hoct⟩ := octal_short h
  have htaken : taken c a = ((a.take (3 - (octal c).length)).takeWhile isOctal).length := if_pos h
  obtain ⟨htake, hend⟩ := takeWhile_take isOctal a (3 - (octal c).length)
  rw [← htaken] at htake hend
  have hdigits : ∀ d ∈ a.take (taken c a), isOctal d = true := by
    rw [htake]
    intro d hd
    exact List.mem_takeWhile_imp hd
  have hle : (a.take (taken c a)).length ≤ 3 - (octal c).length := by
    rw [htake]
    exact (List.takeWhile_sublist _).length_le.trans (List.length_take_le _ _)
  have hall : ∀ d ∈ octal c ++ a.take (taken c a), isOctal d = true := by
    intro d hd
    rcases List.mem_append.mp hd with hd | hd
    · exact hoct d hd
    · exact hdigits d hd
  have hne : octal c ≠ [] := by
    unfold octal
    split
    · exact List.cons_ne_nil _ _
    · split <;> exact List.cons_ne_nil _ _
  obtain ⟨d, t, ht⟩ := List.exists_cons_of_ne_nil hne
  refine ⟨Or.inr ⟨d, t ++ a.take (taken c a), ?_, ?_⟩, hdigits⟩
  · rw [quoteByte_short h, ht]
    rfl
  · rw [quoteByte_short h, List.cons_append]
    refine vavBackSlash_octal hall (by simp [hne]) (by rw [List.length_append]; omega) ?_
    rcases hend with hk | hk
    · left
      rw [List.length_append, htake, ← htaken, hk]
      omega
    · right
      intro e he
      exact quoted_head he hk

lemma quoted_split (h : ∀ d ∈ a.take n, isOctal d = true) : quoted a = a.take n ++ quoted (a.drop n) := by
  have hsplit : quoted a = quoted (a.take n) ++ quoted (a.drop n) := by
    rw [quoted, quoted, quoted, ← List.flatMap_append, List.take_append_drop]
  rw [hsplit, quoted_octal h]

/-- The bytes for `c` and for the digits that its escape takes in, in front of the rest. -/
lemma quoted_cons (c : UInt8) (a rest : List UInt8) : ∃ w r, heard (c :: a) = r :: heard (a.drop (taken c a)) ∧
    quoted (c :: a) = w ++ quoted (a.drop (taken c a)) ∧ Reads w (quoted (a.drop (taken c a)) ++ chQuote :: rest) r := by
  cases hc : shortOctal c with
  | true =>
    obtain ⟨hreads, hdigits⟩ := reads_short hc a rest
    refine ⟨_, _, ?_, ?_, hreads⟩
    · rw [heard_cons, if_pos hc]
    · have htail := quoted_split hdigits
      unfold quoted at htail ⊢
      rw [List.flatMap_cons, htail, List.append_assoc]
  | false =>
    have hnone : taken c a = 0 := by simp [taken, hc]
    refine ⟨quoteByte c, c, ?_, ?_, reads_long hc _⟩
    · rw [heard_cons, hc]
      rfl
    · rw [hnone, List.drop_zero]
      exact List.flatMap_cons

/-- A quoted argument is scanned up to its closing quote, whatever its bytes are taken for. -/
lemma quoted_scan (a rest : List UInt8) :
    vavScan sscanfHex noFlags true 0 (quoted a ++ chQuote :: rest) = some (.ok (quoted a).length) ∧
      vavBackSlashDecode sscanfHex 0 (quoted a).length (quoted a ++ chQuote :: rest) = some (heard a) := by
  induction a using heard.induct with
  | case1 =>
    refine ⟨?_, ?_⟩
    · change vavScan sscanfHex noFlags true 0 (chQuote :: rest) = some (.ok 0)
      rw [vavScan_cons, if_neg (by decide), if_neg (by decide), if_pos (by decide)]
    · rw [heard_nil]
      exact vavBackSlashDecode_none
  | case2 c a ih =>
    obtain ⟨w, r, hheard, hw, hreads⟩ := quoted_cons c a rest
    obtain ⟨hscan, hdecode⟩ := ih
    rw [hw, List.append_assoc]
    refine ⟨?_, ?_⟩
    · rw [hreads.scan, hscan, List.length_append, Nat.add_comm]
      rfl
    · rw [List.length_append, hreads.decode, hdecode, hheard]
      rfl

/-- The bytes of arguments that are sent as they are. -/
def isPlain (c : UInt8) : Bool := isGraph c && c ≠ chQuote && c ≠ chBackslash

lemma isPlain_byte (h : isPlain c = true) : isspace c = false ∧ shortOctal c = false ∧ c ≠ chQuote ∧ c ≠ chBackslash :=
  (quoteByte_bytes c).2.2 h

lemma vsbQuote_eq (a : List UInt8) :
    (vsbQuote a = a ∧ ∀ c ∈ a, isPlain c = true) ∨ vsbQuote a = chQuote :: quoted a ++ [chQuote] ∧ a ≠ [] := by
  unfold vsbQuote
  split
  · rename_i hany
    right
    refine ⟨rfl, ?_⟩
    rintro rfl
    cases hany
  · rename_i hany
    left
    refine ⟨rfl, ?_⟩
    intro c hc
    have hnot : ¬ ((!isGraph c || decide (c = chQuote) || decide (c = chBackslash)) = true) := by
      intro h
      exact hany (List.any_eq_true.mpr ⟨c, hc, h⟩)
    simpa [isPlain, and_assoc] using hnot

lemma heard_plain (h : ∀ c ∈ a, isPlain c = true) : heard a = a := by
  induction a with
  | nil => exact heard_nil
  | cons c a ih =>
    have hc := (isPlain_byte (h c List.mem_cons_self)).2.1
    have hnone : taken c a = 0 := by simp [taken, hc]
    rw [heard_cons, hc, hnone, List.drop_zero, ih (fun e he => h e (List.mem_cons_of_mem c he))]
    rfl

/-- An argument without quotes ends at the space after it, or at the end of the line. -/
lemma plain_scan (h : ∀ c ∈ a, isspace c = false ∧ c ≠ chBackslash) (hr : rest = [] ∨ ∃ s, rest = chSpace :: s) :
    vavScan hex noFlags false 0 (a ++ rest) = some (.ok a.length) ∧
      vavBackSlashDecode hex 0 a.length (a ++ rest) = some a := by
  induction a with
  | nil =>
    refine ⟨?_, vavBackSlashDecode_none⟩
    rcases hr with rfl | ⟨s, rfl⟩
    · rfl
    · rw [List.nil_append, vavScan_cons, if_neg (by decide), if_pos rfl, if_pos (by decide)]
      rfl
  | cons c a ih =>
    obtain ⟨hspace, hb⟩ := h c List.mem_cons_self
    obtain ⟨hscan, hdecode⟩ := ih (fun e he => h e (List.mem_cons_of_mem c he))
    refine ⟨?_, ?_⟩
    · rw [List.cons_append, vavScan_cons, hscan]
      simp [hb, hspace, Except.map]
    · rw [List.cons_append, List.length_cons, vavBackSlashDecode_cons, hdecode]
      simp [hb]

lemma vavLoop_past (argv : List (List UInt8)) {s : List UInt8} {k : Nat} (h : s.length ≤ k) :
    vavLoop hex flag argv k s = some (.ok argv) := by
  induction s generalizing k with
  | nil => exact vavLoop_nil
  | cons c s ih =>
    cases k with
    | zero => cases h
    | succ k => exact ih (Nat.le_of_succ_le_succ h)

/-- One plain argument, and the space after it. -/
lemma vavLoop_plain (argv : List (List UInt8)) (ha : a ≠ []) (hq : a.head? ≠ some chQuote)
    (h : ∀ c ∈ a, isspace c = false ∧ c ≠ chBackslash) (hr : rest = [] ∨ ∃ s, rest = chSpace :: s) :
    vavLoop hex noFlags argv 0 (a ++ rest) = vavLoop hex noFlags (argv ++ [cstr a]) 0 (rest.drop 1) := by
  obtain ⟨c, t, rfl⟩ := List.exists_cons_of_ne_nil ha
  obtain ⟨hscan, hdecode⟩ : vavScan hex noFlags false 0 (c :: t ++ rest) = some (.ok (c :: t).length) ∧
      vavBackSlashDecode hex 0 (c :: t).length (c :: t ++ rest) = some (c :: t) := plain_scan h hr
  have hspace : isspace c = false := (h c List.mem_cons_self).1
  have hquote : c ≠ chQuote := fun hc => hq (congrArg some hc)
  have harg : vavArg hex noFlags (c :: t ++ rest) (c :: t).length = some (cstr (c :: t)) := by
    rw [vavArg, hdecode]
    rfl
  rw [List.cons_append] at hscan harg ⊢
  rw [vavLoop_cons]
  simp only [hspace, hquote, Bool.false_eq_true, if_false, false_and, decide_false, Bool.false_and, hscan, harg]
  rcases hr with rfl | ⟨s, rfl⟩
  · have hpast : t.length ≤ (c :: t).length := Nat.le_succ _
    rw [List.append_nil, List.drop_nil, vavLoop_past _ hpast, vavLoop_nil]
  · have hskip : vavLoop hex noFlags (argv ++ [cstr (c :: t)]) (t ++ [chSpace]).length (t ++ [chSpace] ++ s) = _ :=
      vavLoop_skip _ (t ++ [chSpace]) s
    rw [List.length_append, List.append_assoc] at hskip
    exact hskip

/-- One argument that is not empty, and the space after it. -/
lemma vavLoop_arg (argv : List (List UInt8)) (ha : a ≠ []) (rest : List UInt8) :
    vavLoop sscanfHex noFlags argv 0 (vsbQuote a ++ chSpace :: rest) =
      vavLoop sscanfHex noFlags (argv ++ [cstr (heard a)]) 0 rest := by
  rcases vsbQuote_eq a with ⟨hq, hplain⟩ | ⟨hq, -⟩
  · have hbytes : ∀ c ∈ a, isspace c = false ∧ c ≠ chBackslash := fun c hc =>
      ⟨(isPlain_byte (hplain c hc)).1, (isPlain_byte (hplain c hc)).2.2.2⟩
    have hhead : a.head? ≠ some chQuote := fun hh => (isPlain_byte (hplain _ (List.mem_of_head? hh))).2.2.1 rfl
    rw [hq, heard_plain hplain]
    exact vavLoop_plain argv ha hhead hbytes (.inr ⟨rest, rfl⟩)
  · obtain ⟨hscan, hdecode⟩ := quoted_scan a (chSpace :: rest)
    have harg : vavArg sscanfHex noFlags (quoted a ++ chQuote :: chSpace :: rest) (quoted a).length =
        some (cstr (heard a)) := by
      rw [vavArg, hdecode]
      rfl
    have hline : vsbQuote a ++ chSpace :: rest = chQuote :: (quoted a ++ chQuote :: chSpace :: rest) := by
      simp [hq]
    have hspace : isspace chQuote = false := by decide
    rw [hline, vavLoop_cons]
    simp only [hspace, Bool.false_eq_true, if_false, false_and, decide_true, Bool.not_false, Bool.and_self, if_true,
      hscan, harg]
    have hskip : vavLoop sscanfHex noFlags (argv ++ [cstr (heard a)]) (quoted a ++ [chQuote]).length
        (quoted a ++ [chQuote] ++ chSpace :: rest) = _ := vavLoop_skip _ (quoted a ++ [chQuote]) (chSpace :: rest)
    rw [List.length_append, List.append_assoc] at hskip
    exact hskip.trans (by rw [vavLoop_cons]; rfl)

/-- The line that the child reads, without its end. -/
lemma vluLine_mcfAskchild (av : List (List UInt8)) :
    vluLine (mcfAskchild av) = av.flatMap (fun a => vsbQuote a ++ [chSpace]) := by
  have hbyte : ∀ c, (quoteByte c).all (fun b => b ≠ chNl ∧ b ≠ chCr) = true := by
    intro c
    exact (quoteByte_first c).2.2.1
  have hplain : ∀ c, isPlain c = true → c ≠ chNl ∧ c ≠ chCr := by
    intro c hc
    have hspace := (isPlain_byte hc).1
    refine ⟨?_, ?_⟩ <;> rintro rfl <;> cases hspace
  have hquote : ∀ a, ∀ b ∈ vsbQuote a, b ≠ chNl ∧ b ≠ chCr := by
    intro a b hb
    rcases vsbQuote_eq a with ⟨hq, hp⟩ | ⟨hq, -⟩
    · rw [hq] at hb
      exact hplain b (hp b hb)
    · rw [hq] at hb
      simp only [quoted, List.cons_append, List.mem_cons, List.mem_append, List.mem_flatMap, List.not_mem_nil, or_false]
        at hb
      rcases hb with rfl | ⟨c, -, hc⟩ | rfl
      · decide
      · simpa using List.all_eq_true.mp (hbyte c) b hc
      · decide
  unfold vluLine mcfAskchild
  rw [List.takeWhile_append_of_pos]
  · simp
  · intro b hb
    obtain ⟨a, -, hb⟩ := List.mem_flatMap.mp hb
    rcases List.mem_append.mp hb with hb | hb
    · simpa using hquote a b hb
    · obtain rfl := List.mem_singleton.mp hb
      decide

lemma vavLoop_args (argv av : List (List UInt8)) :
    vavLoop sscanfHex noFlags argv 0 (av.flatMap (fun a => vsbQuote a ++ [chSpace])) =
      some (.ok (argv ++ (av.filter (· ≠ [])).map (fun a => cstr (heard a)))) := by
  induction av generalizing argv with
  | nil => simp [vavLoop_nil]
  | cons a av ih =>
    rw [List.flatMap_cons, List.append_assoc, List.singleton_append]
    by_cases ha : a = []
    · subst ha
      have hempty : vsbQuote [] = [] := rfl
      rw [hempty, List.nil_append, vavLoop_cons, if_pos (by decide), ih]
      simp
    · rw [vavLoop_arg argv ha, ih]
      simp [ha]

/-- What the child gets: the arguments that are not empty, as they are heard. -/
lemma childArgv_eq (av : List (List UInt8)) :
    childArgv av = some (.ok ((av.filter (· ≠ [])).map (fun a => cstr (heard a)))) := by
  unfold childArgv vavParse
  rw [vluLine_mcfAskchild, vavLoop_args]
  rfl

/-- No control character, but for tab, newline and carriage return, has an octal digit right after it. -/
def OctalSafe (a : List UInt8) : Prop := a.IsChain (fun c d => ¬ (shortOctal c = true ∧ isOctal d = true))

instance (a : List UInt8) : Decidable (OctalSafe a) := inferInstanceAs (Decidable (List.IsChain _ a))

lemma heard_length_le (a : List UInt8) : (heard a).length ≤ a.length := by
  induction a using heard.induct with
  | case1 => rw [heard_nil]
  | case2 c a ih =>
    rw [heard_cons, List.length_cons, List.length_cons]
    rw [List.length_drop] at ih
    omega

lemma taken_pos {d : UInt8} (hc : shortOctal c = true) (hd : isOctal d = true) : 0 < taken c (d :: a) := by
  have hlen := (octal_short hc).1
  obtain ⟨m, hm⟩ : ∃ m, 3 - (octal c).length = m + 1 := ⟨2 - (octal c).length, by omega⟩
  rw [taken, if_pos hc, hm, List.take_succ_cons, List.takeWhile_cons_of_pos hd]
  exact Nat.succ_pos _

/-- The first byte and the one after it. -/
lemma octalSafe_cons : OctalSafe (c :: a) ↔ taken c a = 0 ∧ OctalSafe a := by
  cases a with
  | nil => simp [OctalSafe, taken]
  | cons d a =>
    have htaken : taken c (d :: a) = 0 ↔ ¬ (shortOctal c = true ∧ isOctal d = true) := by
      constructor
      · rintro h ⟨hc, hd⟩
        exact (taken_pos hc hd).ne' h
      · intro h
        cases hc : shortOctal c with
        | false => simp [taken, hc]
        | true =>
          have hd : ¬ isOctal d = true := fun hd => h ⟨hc, hd⟩
          rw [taken, if_pos hc]
          cases 3 - (octal c).length with
          | zero => rfl
          | succ m => simp [hd]
    rw [htaken]
    exact List.isChain_cons_cons

lemma heard_eq (h : OctalSafe a) : heard a = a := by
  induction a with
  | nil => exact heard_nil
  | cons c a ih =>
    obtain ⟨hnone, htail⟩ := octalSafe_cons.mp h
    rw [heard_cons, hnone, List.take_zero, List.append_nil, octalValue_octal, List.drop_zero, ih htail, ite_self]

lemma octalSafe_of_length (h : (heard a).length = a.length) : OctalSafe a := by
  induction a with
  | nil => exact List.isChain_nil
  | cons c a ih =>
    have hle := heard_length_le (a.drop (taken c a))
    rw [heard_cons, List.length_cons, List.length_cons] at h
    rw [List.length_drop] at hle
    by_cases hnone : taken c a = 0
    · rw [hnone, List.drop_zero] at h
      exact octalSafe_cons.mpr ⟨hnone, ih (by omega)⟩
    · cases a with
      | nil => simp [taken] at hnone
      | cons d a =>
        rw [List.length_cons] at h hle
        omega

lemma cstr_heard_eq_iff (hnul : 0 ∉ a) : cstr (heard a) = a ↔ OctalSafe a := by
  constructor
  · intro h
    refine octalSafe_of_length (le_antisymm (heard_length_le a) ?_)
    calc a.length = (cstr (heard a)).length := by rw [h]
      _ ≤ (heard a).length := (List.takeWhile_sublist _).length_le
  · intro h
    rw [heard_eq h, cstr, List.takeWhile_eq_self_iff]
    intro c hc
    simpa using ne_of_mem_of_not_mem hc hnul

/-- The child gets the arguments as they were sent when none is empty and none has a control character with an octal
digit after it, and only then. -/
theorem askchild_lossless_iff (av : List (List UInt8)) (hnul : ∀ a ∈ av, 0 ∉ a) :
    childArgv av = some (.ok av) ↔ ∀ a ∈ av, a ≠ [] ∧ OctalSafe a := by
  rw [childArgv_eq, Option.some.injEq, Except.ok.injEq]
  constructor
  · intro h
    have hlen : (av.filter (· ≠ [])).length = av.length := by
      rw [← List.length_map (fun a => cstr (heard a)), h]
    have hall := List.length_filter_eq_length_iff.mp hlen
    have hfilter : av.filter (· ≠ []) = av := List.filter_eq_self.mpr hall
    have hmap : av.map (fun a => cstr (heard a)) = av.map id := by
      rw [List.map_id]
      rw [hfilter] at h
      exact h
    intro a ha
    exact ⟨by simpa using hall a ha, (cstr_heard_eq_iff (hnul a ha)).mp (List.map_inj_left.mp hmap a ha)⟩
  · intro h
    have hfilter : av.filter (· ≠ []) = av := by
      rw [List.filter_eq_self]
      intro a ha
      simpa using (h a ha).1
    rw [hfilter]
    refine (List.map_congr_left ?_).trans (List.map_id av)
    intro a ha
    exact (cstr_heard_eq_iff (hnul a ha)).mpr (h a ha).2

/-- `ban.url`, an argument with a space and a quote, and one with a byte from 0x80 on. -/
theorem askchild_lossless_quoted :
    childArgv [bytes "ban.url", [0x61, 0x20, 0x22], [0x80, 0x37]] =
      some (.ok [bytes "ban.url", [0x61, 0x20, 0x22], [0x80, 0x37]]) :=
  (askchild_lossless_iff _ (by decide)).mpr (by decide)

/-- An empty argument is lost, and the bytes 1 and `2` come as a newline. -/
theorem askchild_loses_arguments :
    childArgv [[0x61], [], [0x01, 0x32]] = some (.ok [[0x61], [0x0a]]) ∧
      childArgv [[0x61], [], [0x01, 0x32]] ≠ some (.ok [[0x61], [], [0x01, 0x32]]) := by
  decide

end VarnishCache.Proofs
