import VarnishCache.Proofs.Argv
import VarnishCache.Proofs.BanSpec

/-!
# The text of `ban.list` as a command

`ban_render` prints the arguments of a `ban` command, one blank apart. The command line splits the
text into the same arguments exactly if each of them is a plain word: an escape, a quote or a blank
inside of an argument costs a byte more than the argument has.
-/

namespace VarnishCache.Proofs

/-- Arguments with one blank between them. -/
def joinWords : List (List UInt8) → List UInt8
  | [] => []
  | [w] => w
  | w :: ws => w ++ 0x20 :: joinWords ws

/-- The arguments of a `ban` command. -/
def banArgs : List (List UInt8 × List UInt8 × List UInt8) → List (List UInt8)
  | [] => []
  | [t] => [t.1, t.2.1, t.2.2]
  | t :: ts => t.1 :: t.2.1 :: t.2.2 :: bytes "&&" :: banArgs ts

lemma joinWords_one (w : List UInt8) : joinWords [w] = w := rfl

lemma joinWords_cons (w v : List UInt8) (ws : List (List UInt8)) :
    joinWords (w :: v :: ws) = w ++ 0x20 :: joinWords (v :: ws) := rfl

lemma banArgs_one (t : List UInt8 × List UInt8 × List UInt8) : banArgs [t] = [t.1, t.2.1, t.2.2] := rfl

lemma banArgs_cons (t u : List UInt8 × List UInt8 × List UInt8) (ts : List (List UInt8 × List UInt8 × List UInt8)) :
    banArgs (t :: u :: ts) = t.1 :: t.2.1 :: t.2.2 :: bytes "&&" :: banArgs (u :: ts) := rfl

/-- The variable of a test without the bytes that `BAN_AddTest` does not look at. -/
def banCanon (a1 : List UInt8) : List UInt8 :=
  match pvars.find? (fun pv => pv.name.isPrefixOf a1) with
  | some pv => pv.name ++ banHeaderName a1
  | none => a1

def banPrinted (t : List UInt8 × List UInt8 × List UInt8) : List UInt8 × List UInt8 × List UInt8 :=
  (banCanon t.1, t.2.1, t.2.2)

/-! ## Splitting -/

section Vav

variable {hex : List UInt8 → Option Nat}

/-- Plain words come back from the line that they make. -/
lemma vavParse_joinWords {ws : List (List UInt8)} (h : ∀ w ∈ ws, PlainWord w ∧ 0 ∉ w) :
    vavParse hex noFlags (joinWords ws) = some (.ok ws) := by
  have hloop : ∀ argv, vavLoop hex noFlags argv 0 (joinWords ws) = some (.ok (argv ++ ws)) := by
    induction ws with
    | nil =>
      intro argv
      change vavLoop hex noFlags argv 0 [] = _
      rw [vavLoop_nil, List.append_nil]
    | cons w ws ih =>
      intro argv
      have hw := h w List.mem_cons_self
      have hrec := ih fun v hv => h v (List.mem_cons_of_mem _ hv)
      have hplain {r : List UInt8} (hr : r = [] ∨ ∃ s, r = chSpace :: s) :
          vavLoop hex noFlags argv 0 (w ++ r) = vavLoop hex noFlags (argv ++ [cstr w]) 0 (r.drop 1) :=
        vavLoop_plain argv hw.1.1 hw.1.2.1 hw.1.2.2 hr
      cases ws with
      | nil =>
        have hlast := hplain (.inl rfl)
        rw [List.append_nil, List.drop_nil, vavLoop_nil, cstr_of_not_mem hw.2] at hlast
        exact hlast
      | cons v vs =>
        rw [joinWords_cons, hplain (.inr ⟨_, rfl⟩), List.drop_succ_cons, List.drop_zero, hrec, List.append_assoc,
          List.singleton_append, cstr_of_not_mem hw.2]
  exact hloop []

instance (w : List UInt8) : Decidable (PlainWord w) := inferInstanceAs (Decidable (_ ∧ _ ∧ _))

/-- What an argument costs on the line: its bytes, and one more unless it is plain. -/
def wordCost (w : List UInt8) : Nat := w.length + if PlainWord w then 0 else 1

lemma wordCost_le (w : List UInt8) : wordCost w ≤ w.length + 1 := by
  rw [wordCost]
  split <;> omega

lemma wordCost_cstr_le (w : List UInt8) : wordCost (cstr w) ≤ wordCost w := by
  by_cases h0 : 0 ∈ w
  · have hlt : (cstr w).length < w.length := by
      have hle := (List.takeWhile_sublist (fun c : UInt8 => decide (c ≠ 0)) (l := w)).length_le
      refine lt_of_le_of_ne hle ?_
      intro he
      have hw : cstr w = w := (List.takeWhile_sublist _).eq_of_length he
      rw [← hw] at h0
      have := List.mem_takeWhile_imp h0
      simp at this
    have := wordCost_le (cstr w)
    have hw : w.length ≤ wordCost w := Nat.le_add_right _ _
    omega
  · rw [cstr_of_not_mem h0]

/-- An escape has two bytes at least. -/
lemma vavBackSlash_two {s : List UInt8} {i : Nat} {r : UInt8} (h : vavBackSlash hex s = some (i + 1, r)) : 1 ≤ i := by
  have hsome : ∀ {n : Nat} {d : UInt8}, some (n, d) = some (i + 1, r) → 2 ≤ n → 1 ≤ i := by
    intro n d hn hle
    obtain rfl := (Prod.mk.inj (Option.some.inj hn)).1
    omega
  simp only [vavBackSlash] at h
  split_ifs at h with h1 h2 h3 h4 h5 h6 h7
  · exact hsome h le_rfl
  · exact hsome h le_rfl
  · exact hsome h le_rfl
  · exact hsome h le_rfl
  · exact hsome h le_rfl
  · refine hsome h ?_
    have hs : ∃ t, s.drop 1 = s.getD 1 0 :: t := by
      rcases s with _ | ⟨a, _ | ⟨b, t⟩⟩
      · simp [isOctal] at h6
      · simp [isOctal] at h6
      · exact ⟨t, rfl⟩
    obtain ⟨t, ht⟩ := hs
    rw [ht, List.take_succ_cons, List.takeWhile_cons_of_pos h6, List.length_cons]
    omega
  · split at h
    · split_ifs at h
      exact hsome h (by decide)
    · cases h
  · cases h

/-- An argument `w` that the scan from byte `k` of `s` finds up to byte `n`: it has no more bytes than the line has
there, and without quotes it has as many only if it is plain. -/
structure ScanCost (quote : Bool) (k : Nat) (s : List UInt8) (n : Nat) (w : List UInt8) : Prop where
  cost : w.length + k ≤ n
  fits : n + quote.toNat ≤ s.length
  plain : quote = false → w.length + k = n → s = s.take k ++ (w ++ s.drop n) ∧
    (∀ c ∈ w, isspace c = false ∧ c ≠ chBackslash) ∧ ∀ d ∈ (s.drop n).head?, isspace d = true

namespace ScanCost

variable {quote : Bool} {i k n : Nat} {s w : List UInt8} {c r : UInt8}

lemma skip (h : ScanCost quote k s n w) : ScanCost quote (k + 1) (c :: s) (n + 1) w := by
  obtain ⟨h1, h2, h3⟩ := h
  refine ⟨by omega, by rw [List.length_cons]; omega, fun hq hlen => ?_⟩
  obtain ⟨hs, hrest⟩ := h3 hq (by omega)
  exact ⟨congrArg (c :: ·) hs, hrest⟩

lemma escape (hi : 1 ≤ i) (h : ScanCost quote i s n w) : ScanCost quote 0 (c :: s) (n + 1) (r :: w) := by
  obtain ⟨h1, h2, -⟩ := h
  refine ⟨by rw [List.length_cons]; omega, by rw [List.length_cons]; omega, fun _ hlen => ?_⟩
  rw [List.length_cons] at hlen
  omega

lemma byte (hb : c ≠ chBackslash) (hsp : quote = false → isspace c = false) (h : ScanCost quote 0 s n w) :
    ScanCost quote 0 (c :: s) (n + 1) (c :: w) := by
  obtain ⟨h1, h2, h3⟩ := h
  refine ⟨by rw [List.length_cons]; omega, by rw [List.length_cons]; omega, fun hq hlen => ?_⟩
  obtain ⟨hs, hall, hrest⟩ := h3 hq (Nat.succ.inj hlen)
  exact ⟨congrArg (c :: ·) hs, List.forall_mem_cons.mpr ⟨⟨hsp hq, hb⟩, hall⟩, hrest⟩

lemma stop (hsp : quote = false → isspace c = true) : ScanCost quote 0 (c :: s) 0 [] := by
  refine ⟨le_rfl, ?_, fun hq _ => ⟨rfl, by simp, by simpa using hsp hq⟩⟩
  rw [Nat.zero_add, List.length_cons]
  exact (Bool.toNat_le quote).trans (Nat.le_add_left 1 _)

end ScanCost

lemma scan_cost {quote : Bool} {k n : Nat} {s w : List UInt8} (h : vavScan hex noFlags quote k s = some (.ok n))
    (hw : vavBackSlashDecode hex k n s = some w) : ScanCost quote k s n w := by
  induction s generalizing k n w with
  | nil =>
    cases k with
    | succ k => cases h
    | zero =>
      cases quote with
      | true => cases h
      | false =>
        cases h
        cases hw
        exact ⟨le_rfl, le_rfl, fun _ _ => ⟨rfl, by simp, by simp⟩⟩
  | cons c s ih =>
    cases k with
    | succ k =>
      obtain ⟨n, hm, rfl⟩ := passed_ok h
      exact (ih hm hw).skip
    | zero =>
      rw [vavScan_cons] at h
      by_cases hb : c = chBackslash
      · rw [if_pos ⟨hb, rfl⟩] at h
        cases hv : vavBackSlash hex (c :: s) with
        | none =>
          rw [hv] at h
          cases h
        | some v =>
          obtain ⟨i, r⟩ := v
          rw [hv] at h
          cases i with
          | zero => cases h
          | succ i =>
            obtain ⟨n, hm, rfl⟩ := passed_ok h
            rw [vavBackSlashDecode_cons, if_neg (not_not.mpr hb), hv] at hw
            obtain ⟨w, hd, rfl⟩ := Option.map_eq_some_iff.mp hw
            exact (ih hm hd).escape (vavBackSlash_two hv)
      · have hbyte (h : (vavScan hex noFlags quote 0 s).map (Except.map (· + 1)) = some (.ok n))
            (hsp : quote = false → isspace c = false) : ScanCost quote 0 (c :: s) n w := by
          obtain ⟨n, hm, rfl⟩ := passed_ok h
          rw [vavBackSlashDecode_cons, if_pos hb] at hw
          obtain ⟨w, hd, rfl⟩ := Option.map_eq_some_iff.mp hw
          exact (ih hm hd).byte hb hsp
        have hstop (h : some (.ok 0 : Except VavError Nat) = some (.ok n)) (hsp : quote = false → isspace c = true) :
            ScanCost quote 0 (c :: s) n w := by
          cases h
          rw [vavBackSlashDecode_none] at hw
          cases hw
          exact .stop hsp
        rw [if_neg (fun h => hb h.1)] at h
        cases quote with
        | false =>
          rw [if_pos rfl] at h
          by_cases hs : isspace c = true
          · rw [if_pos (Or.inl hs)] at h
            exact hstop h fun _ => hs
          · rw [if_neg (fun hor => hor.elim hs fun hcomma => Bool.false_ne_true hcomma.1)] at h
            exact hbyte h fun _ => by simpa using hs
        | true =>
          rw [if_neg (by decide)] at h
          by_cases hq : c = chQuote
          · rw [if_pos ⟨hq, rfl⟩] at h
            exact hstop h fun hf => by cases hf
          · rw [if_neg (fun h => hq h.1)] at h
            exact hbyte h fun hf => by cases hf

/-- An argument without quotes costs the bytes up to its end. -/
lemma word_cost {c : UInt8} {s w : List UInt8} {n : Nat} (hc : isspace c = false) (hq : c ≠ chQuote)
    (h : ScanCost false 0 (c :: s) n w) : wordCost w ≤ n := by
  rcases Nat.lt_or_eq_of_le h.cost with hlt | heq
  · exact (wordCost_le w).trans hlt
  · obtain ⟨hs, hall, hstop⟩ := h.plain rfl heq
    rw [List.take_zero, List.nil_append] at hs
    cases w with
    | nil =>
      rw [List.nil_append] at hs
      rw [hstop c (by rw [← hs]; rfl)] at hc
      cases hc
    | cons d w =>
      have hd : c = d := (List.cons.inj hs).1
      have hplain : PlainWord (d :: w) := ⟨by simp, by simpa [← hd] using hq, hall⟩
      rw [wordCost, if_pos hplain]
      exact heq.le

/-- The arguments and the blanks between them fit on the line. -/
lemma vavLoop_cost {argv av : List (List UInt8)} {k : Nat} {s : List UInt8}
    (h : vavLoop hex noFlags argv k s = some (.ok av)) :
    ∃ ws, av = argv ++ ws ∧ (∀ w ∈ ws, 0 ∉ w) ∧ (ws ≠ [] → (ws.map wordCost).sum + ws.length + k ≤ s.length + 1) := by
  induction s generalizing argv k with
  | nil =>
    rw [vavLoop_nil] at h
    cases h
    exact ⟨[], by simp, by simp, fun hne => absurd rfl hne⟩
  | cons c s ih =>
    cases k with
    | succ k =>
      obtain ⟨ws, hav, h0, hcost⟩ := ih h
      exact ⟨ws, hav, h0, fun hne => Nat.succ_le_succ (hcost hne)⟩
    | zero =>
      rw [vavLoop_cons] at h
      by_cases hs : isspace c = true
      · rw [if_pos hs] at h
        obtain ⟨ws, hav, h0, hcost⟩ := ih h
        exact ⟨ws, hav, h0, fun hne => (hcost hne).trans (Nat.le_succ _)⟩
      -- the argument, and where the loop goes on behind it
      have harg {w : List UInt8} {m : Nat} (hcost : wordCost w ≤ m) (hm : m ≤ s.length + 1)
          (hrec : vavLoop hex noFlags (argv ++ [cstr w]) m s = some (.ok av)) :
          ∃ ws, av = argv ++ ws ∧ (∀ w ∈ ws, 0 ∉ w) ∧
            (ws ≠ [] → (ws.map wordCost).sum + ws.length + 0 ≤ (c :: s).length + 1) := by
        obtain ⟨ws, hav, h0, hws⟩ := ih hrec
        refine ⟨cstr w :: ws, by simpa using hav, List.forall_mem_cons.mpr ⟨cstr_nul w, h0⟩, fun _ => ?_⟩
        have hle := (wordCost_cstr_le w).trans hcost
        rw [List.map_cons, List.sum_cons, List.length_cons, List.length_cons]
        cases ws with
        | nil =>
          simp only [List.map_nil, List.sum_nil, List.length_nil]
          omega
        | cons v vs =>
          have hv := hws (by simp)
          omega
      rw [if_neg hs, if_neg (fun hcm => Bool.false_ne_true hcm.1)] at h
      have hs : isspace c = false := by simpa using hs
      by_cases hq : c = chQuote
      · simp only [hq, decide_true, Bool.not_false, Bool.and_self, if_true] at h
        split at h
        · cases h
        · cases h
        · next n hscan =>
          split at h
          · cases h
          · next w hw =>
            obtain ⟨w, hd, rfl⟩ := Option.map_eq_some_iff.mp hw
            have hscan := scan_cost hscan hd
            have hle : wordCost w ≤ n + 1 := (wordCost_le w).trans (Nat.succ_le_succ hscan.cost)
            exact harg hle (hscan.fits.trans (Nat.le_succ _)) h
      · simp only [hq, decide_false, Bool.false_and, Bool.false_eq_true, if_false] at h
        split at h
        · cases h
        · cases h
        · next n hscan =>
          split at h
          · cases h
          · next w hw =>
            obtain ⟨w, hd, rfl⟩ := Option.map_eq_some_iff.mp hw
            have hscan := scan_cost hscan hd
            exact harg (word_cost hs hq hscan) hscan.fits h

lemma vavParse_cost {s : List UInt8} {av : List (List UInt8)} (h : vavParse hex noFlags s = some (.ok av)) :
    (av.map wordCost).sum + (av.length - 1) ≤ s.length := by
  obtain ⟨ws, hav, -, hcost⟩ := vavLoop_cost h
  rw [hav, List.nil_append]
  cases ws with
  | nil => simp
  | cons w ws =>
    have h1 := hcost (by simp)
    rw [List.length_cons] at h1 ⊢
    omega

lemma vavParse_nul {s : List UInt8} {av : List (List UInt8)} (h : vavParse hex noFlags s = some (.ok av)) :
    ∀ w ∈ av, 0 ∉ w := by
  obtain ⟨ws, rfl, h0, -⟩ := vavLoop_cost h
  exact h0

end Vav

/-! ## The words of a test -/

section Words

variable {re : List UInt8 → Option (List UInt8)} {t u : List UInt8 × List UInt8 × List UInt8}
  {bt : BanTestSpec}

/-- What a record says about the variable of its test. -/
lemma banReads_pv (h : BanReads re t bt) : ∃ pv ∈ pvars, pv.name <+: t.1 ∧ bt.arg1 = pv.tag ∧
    banCanon t.1 = pv.name ++ banHeaderName t.1 ∧
    if pv.http then t.1 = pv.name ++ banHeaderName t.1 ∧ (banHeaderName t.1).length ≤ 126 ∧
      bt.arg1Spec = some (((banHeaderName t.1).length + 1).toUInt8 :: banHeaderName t.1 ++ [chColon, 0])
    else banHeaderName t.1 = [] := by
  obtain ⟨pv, hm, hp, htag, hspec⟩ := h.arg1
  have hf := find_pvars.mpr ⟨hm, hp⟩
  refine ⟨pv, hm, hp, htag, by rw [banCanon, hf], ?_⟩
  by_cases hh : pv.http = true
  · have hname : banHeaderName t.1 = t.1.drop pv.name.length := by simp [banHeaderName, hf, hh]
    rw [if_pos hh] at hspec ⊢
    rw [hname]
    exact ⟨(List.prefix_iff_eq_append.mp hp).symm, hspec⟩
  · rw [if_neg hh]
    simp [banHeaderName, hf, hh]

lemma pvars_tag {pv pv' : Pvar} (h : pv ∈ pvars) (h' : pv' ∈ pvars) (ht : pv.tag = pv'.tag) : pv = pv' := by
  have hall : ∀ p ∈ pvars, ∀ q ∈ pvars, p.tag = q.tag → p = q := by decide
  exact hall pv h pv' h' ht

/-- Two tests with one record differ at most in bytes that `BAN_AddTest` does not look at. -/
lemma banReads_unique (h : BanReads re t bt) (h' : BanReads re u bt) :
    banCanon t.1 = banCanon u.1 ∧ banHeaderName t.1 = banHeaderName u.1 ∧ t.2 = u.2 := by
  obtain ⟨pv, hm, hp, htag, hc, hspec⟩ := banReads_pv h
  obtain ⟨pv', hm', hp', htag', hc', hspec'⟩ := banReads_pv h'
  obtain rfl := pvars_tag hm hm' (htag.symm.trans htag')
  have hname : banHeaderName t.1 = banHeaderName u.1 := by
    by_cases hh : pv.http = true
    · rw [if_pos hh] at hspec hspec'
      have := hspec.2.2.symm.trans hspec'.2.2
      simp only [List.cons_append, Option.some.injEq, List.cons.injEq] at this
      exact List.append_cancel_right this.2
    · rw [if_neg hh] at hspec hspec'
      rw [hspec, hspec']
  have hoper : t.2.1 = u.2.1 := by
    have hall : ∀ p ∈ [(bytes "~", banOperMatch), (bytes "!~", banOperNmatch), (bytes "==", banOperEq),
        (bytes "!=", banOperNeq)], ∀ q ∈ [(bytes "~", banOperMatch), (bytes "!~", banOperNmatch),
        (bytes "==", banOperEq), (bytes "!=", banOperNeq)], p.2 = q.2 → p.1 = q.1 := by decide
    exact hall _ h.oper _ h'.oper rfl
  exact ⟨by rw [hc, hc', hname], hname, Prod.ext hoper (h.arg2.symm.trans h'.arg2)⟩

lemma length_banCanon_le (h : BanReads re t bt) : (banCanon t.1).length ≤ t.1.length := by
  obtain ⟨pv, hm, hp, htag, hc, hspec⟩ := banReads_pv h
  rw [hc]
  by_cases hh : pv.http = true
  · rw [if_pos hh] at hspec
    rw [← hspec.1]
  · rw [if_neg hh] at hspec
    rw [hspec, List.append_nil]
    exact hp.length_le

/-- The printed test has the record of the test. -/
lemma banReads_printed (h : BanReads re t bt) : BanReads re (banPrinted t) bt := by
  obtain ⟨pv, hm, hp, htag, hc, hspec⟩ := banReads_pv h
  refine ⟨⟨pv, hm, ?_, htag, ?_⟩, h.oper, h.arg2, h.regexp⟩
  · rw [banPrinted, hc]
    exact List.prefix_append _ _
  · rw [banPrinted, hc, List.drop_left]
    by_cases hh : pv.http = true
    · rw [if_pos hh] at hspec ⊢
      exact hspec.2
    · obtain ⟨pv', hm', -, htag', hs'⟩ := h.arg1
      obtain rfl := pvars_tag hm hm' (htag.symm.trans htag')
      rw [if_neg hh] at hs' ⊢
      exact hs'

lemma banRenderOper_reads (h : BanReads re t bt) :
    banRenderOper bt = some (0x20 :: (t.2.1 ++ [0x20])) := by
  have hall : ∀ p ∈ [(bytes "~", banOperMatch), (bytes "!~", banOperNmatch), (bytes "==", banOperEq),
      (bytes "!=", banOperNeq)], banRenderOper ⟨0, none, p.2, [], none⟩ =
        some (0x20 :: (p.1 ++ [0x20])) := by decide
  exact hall _ h.oper

lemma banRenderArg_reads (h : BanReads re t bt) (h0 : 0 ∉ t.1) :
    banRenderArg bt = if bt.arg1 = banArgObjstatus then none else some (banCanon t.1) := by
  obtain ⟨pv, hm, hp, htag, hc, hspec⟩ := banReads_pv h
  have hname : pv.http = true → banSpecName bt.arg1Spec = banHeaderName t.1 := by
    intro hh
    rw [if_pos hh] at hspec
    have hn : ((banHeaderName t.1).length + 1).toUInt8.toNat = (banHeaderName t.1).length + 1 := by
      simp only [Nat.toUInt8, UInt8.toNat_ofNat']
      omega
    have hz : 0 ∉ banHeaderName t.1 := by
      intro hz
      rw [hspec.1] at h0
      exact h0 (List.mem_append_right _ hz)
    rw [hspec.2.2]
    simp only [banSpecName, List.cons_append, List.getD_cons_zero, List.drop_succ_cons,
      List.drop_zero, hn, Nat.add_sub_cancel, List.take_left]
    exact cstr_of_not_mem hz
  have hurl : ∀ pv ∈ pvars, pv.tag = banArgUrl → pv.http = false ∧ pv.name = bytes "req.url" := by
    decide
  have hreq : ∀ pv ∈ pvars, pv.tag = banArgReqhttp → pv.http = true ∧ pv.name = bytes "req.http." := by
    decide
  have hobj : ∀ pv ∈ pvars, pv.tag = banArgObjhttp → pv.http = true ∧ pv.name = bytes "obj.http." := by
    decide
  have htags : ∀ pv ∈ pvars, pv.tag = banArgUrl ∨ pv.tag = banArgReqhttp ∨ pv.tag = banArgObjhttp ∨
      pv.tag = banArgObjstatus := by
    decide
  simp only [banRenderArg, htag]
  rcases htags pv hm with ht | ht | ht | ht
  · have hn := hurl pv hm ht
    rw [ht, if_pos rfl, if_neg (by decide), hc, hn.2]
    rw [if_neg (by simp [hn.1])] at hspec
    rw [hspec, List.append_nil]
  · have hn := hreq pv hm ht
    rw [ht, if_neg (by decide), if_pos rfl, if_neg (by decide), hname hn.1, hc, hn.2]
  · have hn := hobj pv hm ht
    rw [ht, if_neg (by decide), if_neg (by decide), if_pos rfl, if_neg (by decide), hname hn.1, hc, hn.2]
  · rw [ht, if_neg (by decide), if_neg (by decide), if_neg (by decide), if_pos rfl]

lemma banReads_status (h : BanReads re t bt) :
    bt.arg1 = banArgObjstatus ↔ bytes "obj.status" <+: t.1 := by
  obtain ⟨pv, hm, hp, htag, hc, hspec⟩ := banReads_pv h
  have hmem : (⟨bytes "obj.status", false, false, banArgObjstatus⟩ : Pvar) ∈ pvars := by decide
  constructor
  · intro hs
    rw [pvars_tag hm hmem (htag.symm.trans hs)] at hp
    exact hp
  · intro hs
    rw [htag, pvars_unique hm hmem hp hs]

end Words

/-! ## The text of a ban -/

section Text

variable {re : List UInt8 → Option (List UInt8)}
  {ts us : List (List UInt8 × List UInt8 × List UInt8)} {bts : List BanTestSpec}

lemma banRenderLoop_cons {bt : BanTestSpec} (hwf : BanRecordWf bt) (r : List UInt8) (fuel : Nat) :
    banRenderLoop (fuel + 1) (banEncode bt ++ r) =
      (banRenderArg bt).bind (fun arg1 => (banRenderOper bt).bind (fun oper =>
        (banRenderLoop fuel r).bind (fun out => some (arg1 ++ oper ++ bt.arg2 ++
          (if r ≠ [] then bytes " && " else []) ++ out)))) := by
  have hcons : banEncode bt ++ r = bt.arg1 :: (bt.arg1Spec.getD [] ++ banAddLump (bt.arg2 ++ [0]) ++
      bt.oper :: (bt.arg2Spec.map banAddLump).getD [] ++ r) := rfl
  have hiter := banIter_banEncode hwf r
  rw [hcons] at hiter ⊢
  rw [banRenderLoop, hiter]
  · rfl
  · simp

/-- Without `obj.status` a ban prints as the arguments of a command. -/
lemma banRenderLoop_words (h : List.Forall₂ (BanReads re) ts bts) (hwf : ∀ bt ∈ bts, BanRecordWf bt)
    (h0 : ∀ t ∈ ts, 0 ∉ t.1) (hs : ∀ bt ∈ bts, bt.arg1 ≠ banArgObjstatus) {fuel : Nat}
    (hf : bts.length ≤ fuel) :
    banRenderLoop fuel (bts.flatMap banEncode) = some (joinWords (banArgs (ts.map banPrinted))) := by
  induction h generalizing fuel with
  | nil => cases fuel <;> rfl
  | @cons t bt ts bts hr hrs ih =>
    obtain ⟨fuel, rfl⟩ : ∃ n, fuel = n + 1 := ⟨fuel - 1, by simp at hf; omega⟩
    have hrec := ih (fun b hb => hwf b (List.mem_cons_of_mem _ hb))
      (fun u hu => h0 u (List.mem_cons_of_mem _ hu)) (fun b hb => hs b (List.mem_cons_of_mem _ hb))
      (Nat.le_of_succ_le_succ hf)
    have harg := banRenderArg_reads hr (h0 t List.mem_cons_self)
    rw [if_neg (hs bt List.mem_cons_self)] at harg
    have harg2 := hr.arg2
    rw [List.flatMap_cons, banRenderLoop_cons (hwf bt List.mem_cons_self), harg, banRenderOper_reads hr, hrec,
      harg2]
    simp only [Option.bind_some]
    cases hrs with
    | nil =>
      have hnil : joinWords (banArgs []) = [] := rfl
      simp [joinWords_cons, joinWords_one, banArgs_one, banPrinted, hnil]
    | @cons u bu us bus hu hus =>
      have hne : (List.flatMap banEncode (bu :: bus)) ≠ [] := by simp [banEncode]
      rw [if_pos hne]
      have hand : bytes " && " = 0x20 :: (bytes "&&" ++ [0x20]) := by decide
      have hargs : banArgs (List.map banPrinted (t :: u :: us)) = banCanon t.1 :: t.2.1 :: t.2.2 ::
          bytes "&&" :: banArgs (List.map banPrinted (u :: us)) := rfl
      have hargs2 : ∃ w ws, banArgs (List.map banPrinted (u :: us)) = w :: ws := by
        cases us <;> exact ⟨_, _, rfl⟩
      obtain ⟨w, ws, hw⟩ := hargs2
      rw [hargs, hand, hw]
      simp [joinWords_cons]

/-- A test of `obj.status` stops the rendering. -/
lemma banRenderLoop_status (h : List.Forall₂ (BanReads re) ts bts) (hwf : ∀ bt ∈ bts, BanRecordWf bt)
    (h0 : ∀ t ∈ ts, 0 ∉ t.1) {fuel : Nat} (hf : bts.length ≤ fuel) {text : List UInt8}
    (hrun : banRenderLoop fuel (bts.flatMap banEncode) = some text) :
    ∀ bt ∈ bts, bt.arg1 ≠ banArgObjstatus := by
  induction h generalizing fuel text with
  | nil => simp
  | @cons t bt ts bts hr hrs ih =>
    obtain ⟨fuel, rfl⟩ : ∃ n, fuel = n + 1 := ⟨fuel - 1, by simp at hf; omega⟩
    rw [List.flatMap_cons, banRenderLoop_cons (hwf bt List.mem_cons_self)] at hrun
    obtain ⟨arg1, harg, hrun⟩ := Option.bind_eq_some_iff.mp hrun
    obtain ⟨oper, -, hrun⟩ := Option.bind_eq_some_iff.mp hrun
    obtain ⟨out, hout, -⟩ := Option.bind_eq_some_iff.mp hrun
    have hrec := ih (fun b hb => hwf b (List.mem_cons_of_mem _ hb))
      (fun u hu => h0 u (List.mem_cons_of_mem _ hu)) (Nat.le_of_succ_le_succ hf) hout
    refine List.forall_mem_cons.mpr ⟨?_, hrec⟩
    intro hs
    rw [banRenderArg_reads hr (h0 t List.mem_cons_self), if_pos hs] at harg
    cases harg

lemma length_joinWords (ws : List (List UInt8)) :
    (joinWords ws).length = (ws.map List.length).sum + (ws.length - 1) := by
  induction ws with
  | nil => rfl
  | cons w ws ih =>
    cases ws with
    | nil => simp [joinWords_one]
    | cons v vs =>
      rw [joinWords_cons, List.length_append, List.length_cons, ih]
      simp only [List.map_cons, List.sum_cons, List.length_cons]
      omega

lemma plain_of_cost {ws : List (List UInt8)}
    (h : (ws.map wordCost).sum ≤ (ws.map List.length).sum) : ∀ w ∈ ws, PlainWord w := by
  have hle : ∀ ws : List (List UInt8), (ws.map List.length).sum ≤ (ws.map wordCost).sum := by
    intro ws
    apply List.sum_le_sum
    intro w _
    exact Nat.le_add_right _ _
  induction ws with
  | nil => simp
  | cons w ws ih =>
    have := hle ws
    simp only [List.map_cons, List.sum_cons] at h
    have hw : PlainWord w := by
      by_contra hc
      rw [wordCost, if_neg hc] at h
      omega
    have hw' : w.length ≤ wordCost w := Nat.le_add_right _ _
    exact List.forall_mem_cons.mpr ⟨hw, ih (by omega)⟩

lemma banArgs_le (h : List.Forall₂
      (fun t u : List UInt8 × List UInt8 × List UInt8 => t.1.length ≤ u.1.length ∧ t.2 = u.2) ts us) :
    ((banArgs ts).map List.length).sum ≤ ((banArgs us).map List.length).sum ∧
      (banArgs ts).length = (banArgs us).length := by
  induction h with
  | nil => exact ⟨le_rfl, rfl⟩
  | @cons t u ts us hr hrs ih =>
    cases hrs with
    | nil =>
      simp only [banArgs_one, List.map_cons, List.sum_cons, List.map_nil, List.sum_nil, List.length_cons,
        hr.2, and_true]
      have := hr.1
      omega
    | cons =>
      simp only [banArgs_cons, List.map_cons, List.sum_cons, List.length_cons, hr.2] at ih ⊢
      have := hr.1
      omega

lemma banReads_printed_le (h : List.Forall₂ (BanReads re) ts bts)
    (h' : List.Forall₂ (BanReads re) us bts) : List.Forall₂
      (fun t u : List UInt8 × List UInt8 × List UInt8 => t.1.length ≤ u.1.length ∧ t.2 = u.2)
      (ts.map banPrinted) us := by
  induction h generalizing us with
  | nil =>
    cases h'
    exact List.Forall₂.nil
  | @cons t bt ts bts hr hrs ih =>
    cases h' with
    | @cons u _ us _ hu hus =>
      have hsame := banReads_unique hr hu
      refine List.Forall₂.cons ⟨?_, hsame.2.2⟩ (ih hus)
      rw [banPrinted, hsame.1]
      exact length_banCanon_le hu

/-- The arguments that `ccf_ban` accepts are those of its tests. -/
lemma banArgs_ccfBanTests {av : List (List UInt8)} (h : av.length % 4 = 3)
    (hand : ∀ a ∈ ccfBanAnds av, a = bytes "&&") : banArgs (ccfBanTests av) = av := by
  induction av using ccfBanTests.induct with
  | case1 a1 a2 a3 a4 av ih =>
    have hl : av.length % 4 = 3 := by
      simp only [List.length_cons] at h
      omega
    rw [ccfBanAnds_conj, List.forall_mem_cons] at hand
    have hrec := ih hl hand.2
    rw [ccfBanTests_conj, hand.1]
    cases hts : ccfBanTests av with
    | nil =>
      rw [hts] at hrec
      rw [← hrec] at hl
      cases hl
    | cons t ts =>
      rw [hts] at hrec
      rw [banArgs_cons, hrec]
  | case2 a1 a2 a3 => rfl
  | case3 av h1 h2 =>
    rcases av with _ | ⟨a1, _ | ⟨a2, _ | ⟨a3, _ | ⟨a4, av⟩⟩⟩⟩
    · simp at h
    · simp at h
    · simp at h
    · exact absurd rfl (h2 a1 a2 a3)
    · exact absurd rfl (h1 a1 a2 a3 a4 av)

lemma ccfBan_banArgs (hne : us ≠ []) : ccfBan re (banArgs us) = banAddTests re .new us := by
  have key : (banArgs us).length % 4 = 3 ∧ (∀ a ∈ ccfBanAnds (banArgs us), a = bytes "&&") ∧
      ccfBanTests (banArgs us) = us := by
    induction us with
    | nil => exact absurd rfl hne
    | cons t us ih =>
      cases us with
      | nil => exact ⟨rfl, fun a ha => absurd ha List.not_mem_nil, rfl⟩
      | cons u us =>
        obtain ⟨h1, h2, h3⟩ := ih (by simp)
        rw [banArgs_cons, ccfBanAnds_conj, List.forall_mem_cons, ccfBanTests_conj]
        simp only [List.length_cons] at h1 ⊢
        exact ⟨by omega, ⟨trivial, h2⟩, by rw [h3]⟩
  have hfind : (ccfBanAnds (banArgs us)).find? (fun a => a ≠ bytes "&&") = none := by
    rw [List.find?_eq_none]
    intro a ha
    simp [key.2.1 a ha]
  rw [ccfBan, if_neg (by simp [key.1]), hfind]
  exact congrArg _ key.2.2

lemma banRecordWf_of_forall (h : List.Forall₂ (BanReads re) ts bts) (h0 : ∀ t ∈ ts, 0 ∉ t.2.2)
    (hsize : (bts.flatMap banEncode).length < 2 ^ 32) : ∀ bt ∈ bts, BanRecordWf bt := by
  induction h with
  | nil => simp
  | @cons t bt ts bts hr hrs ih =>
    simp only [List.flatMap_cons, List.length_append] at hsize
    refine List.forall_mem_cons.mpr ⟨banRecordWf_of_reads hr (h0 t List.mem_cons_self) (by omega), ?_⟩
    exact ih (fun u hu => h0 u (List.mem_cons_of_mem _ hu)) (by omega)

lemma plain_of_all {w : List UInt8} (h : w ≠ [] ∧ w.head? ≠ some chQuote)
    (hall : w.all (fun c => decide ((isspace c = false ∧ c ≠ chBackslash) ∧ c ≠ 0)) = true) : PlainWord w ∧ 0 ∉ w :=
  have hmem := forall_mem_of_all hall
  ⟨⟨h.1, h.2, fun c hc => (hmem c hc).1⟩, fun h0 => (hmem 0 h0).2 rfl⟩

lemma plain_pvar {pv : Pvar} (h : pv ∈ pvars) : PlainWord pv.name ∧ 0 ∉ pv.name := by
  simp only [pvars, List.mem_cons, List.not_mem_nil, or_false] at h
  rcases h with rfl | rfl | rfl | rfl <;> exact plain_of_all (by decide) rfl

lemma plain_oper {p : List UInt8 × UInt8} (h : p ∈ [(bytes "~", banOperMatch), (bytes "!~", banOperNmatch),
    (bytes "==", banOperEq), (bytes "!=", banOperNeq)]) : PlainWord p.1 ∧ 0 ∉ p.1 := by
  simp only [List.mem_cons, List.not_mem_nil, or_false] at h
  rcases h with rfl | rfl | rfl | rfl <;> exact plain_of_all (by decide) rfl

lemma plain_banPrinted {t : List UInt8 × List UInt8 × List UInt8} {bt : BanTestSpec}
    (h : BanReads re t bt) (hp : BanPrintable t) (h0 : 0 ∉ t.1 ∧ 0 ∉ t.2.2) :
    (PlainWord (banCanon t.1) ∧ 0 ∉ banCanon t.1) ∧ (PlainWord t.2.1 ∧ 0 ∉ t.2.1) ∧
      PlainWord t.2.2 ∧ 0 ∉ t.2.2 := by
  obtain ⟨pv, hm, -, -, hc, hspec⟩ := banReads_pv h
  refine ⟨?_, plain_oper h.oper, hp.2.2, h0.2⟩
  obtain ⟨⟨h1, h2, h3⟩, hz⟩ := plain_pvar hm
  rw [hc]
  refine ⟨⟨by simp [h1], ?_, ?_⟩, ?_⟩
  · obtain ⟨c, w, hw⟩ := List.exists_cons_of_ne_nil h1
    rw [hw] at h2 ⊢
    simpa using h2
  · intro c hc
    rcases List.mem_append.mp hc with hc | hc
    · exact h3 c hc
    · exact hp.2.1 c hc
  · intro hm0
    rcases List.mem_append.mp hm0 with hm0 | hm0
    · exact hz hm0
    · by_cases hh : pv.http = true
      · rw [if_pos hh] at hspec
        have h01 := h0.1
        rw [hspec.1] at h01
        exact h01 (List.mem_append_right _ hm0)
      · rw [if_neg hh] at hspec
        rw [hspec] at hm0
        cases hm0

lemma banReads_not_status (h : List.Forall₂ (BanReads re) ts bts) (hp : ∀ t ∈ ts, BanPrintable t) :
    ∀ bt ∈ bts, bt.arg1 ≠ banArgObjstatus := by
  induction h with
  | nil => simp
  | @cons t bt ts bts hr hrs ih =>
    refine List.forall_mem_cons.mpr ⟨?_, ih (fun u hu => hp u (List.mem_cons_of_mem _ hu))⟩
    intro hs
    exact (hp t List.mem_cons_self).1 ((banReads_status hr).mp hs)

lemma plain_banArgs (h : List.Forall₂ (BanReads re) ts bts) (hp : ∀ t ∈ ts, BanPrintable t)
    (h0 : ∀ t ∈ ts, 0 ∉ t.1 ∧ 0 ∉ t.2.2) :
    ∀ w ∈ banArgs (ts.map banPrinted), PlainWord w ∧ 0 ∉ w := by
  induction h with
  | nil => exact fun w hw => absurd hw List.not_mem_nil
  | @cons t bt ts bts hr hrs ih =>
    obtain ⟨h1, h2, h3⟩ := plain_banPrinted hr (hp t List.mem_cons_self)
      (h0 t List.mem_cons_self)
    have hand : PlainWord (bytes "&&") ∧ 0 ∉ bytes "&&" := plain_of_all (by decide) rfl
    have hrec := ih (fun u hu => hp u (List.mem_cons_of_mem _ hu))
      (fun u hu => h0 u (List.mem_cons_of_mem _ hu))
    cases hrs with
    | nil =>
      simp only [List.map_cons, List.map_nil, banArgs_one, banPrinted, List.forall_mem_cons]
      exact ⟨h1, h2, h3, by simp⟩
    | cons =>
      simp only [List.map_cons, banArgs_cons, banPrinted, List.forall_mem_cons] at hrec ⊢
      exact ⟨h1, h2, h3, hand, hrec⟩

/-- The words of an accepted command have the variables and operands of its tests among them. -/
lemma mem_banArgs {u : List UInt8 × List UInt8 × List UInt8} (h : u ∈ us) :
    u.1 ∈ banArgs us ∧ u.2.2 ∈ banArgs us := by
  induction us with
  | nil => cases h
  | cons v us ih =>
    cases us with
    | nil =>
      obtain rfl := List.mem_singleton.mp h
      simp [banArgs_one]
    | cons v' us =>
      rcases List.mem_cons.mp h with rfl | h
      · simp [banArgs_cons]
      · have := ih h
        simp only [banArgs_cons, List.mem_cons] at this ⊢
        tauto

/-- A command that prints and reads back as the ban consists of plain words. -/
lemma banPrintable_of_resubmit (h : List.Forall₂ (BanReads re) ts bts)
    (h' : List.Forall₂ (BanReads re) us bts) (hplain : ∀ w ∈ banArgs us, PlainWord w)
    (hs : ∀ bt ∈ bts, bt.arg1 ≠ banArgObjstatus) : ∀ t ∈ ts, BanPrintable t := by
  have hpart : ∀ u ∈ us, PlainWord u.1 ∧ PlainWord u.2.2 := by
    intro u hu
    exact ⟨hplain _ (mem_banArgs hu).1, hplain _ (mem_banArgs hu).2⟩
  clear hplain
  induction h generalizing us with
  | nil => simp
  | @cons t bt ts bts hr hrs ih =>
    cases h' with
    | @cons u _ us _ hu hus =>
      obtain ⟨-, hname, h2⟩ := banReads_unique hr hu
      have hpu := hpart u List.mem_cons_self
      refine List.forall_mem_cons.mpr ⟨⟨?_, ?_, ?_⟩, ih hus (fun b hb => hs b (List.mem_cons_of_mem _ hb))
        (fun v hv => hpart v (List.mem_cons_of_mem _ hv))⟩
      · rw [← banReads_status hr]
        exact hs bt List.mem_cons_self
      · intro c hc
        rw [hname] at hc
        obtain ⟨pv, -, -, -, -, hspec⟩ := banReads_pv hu
        by_cases hh : pv.http = true
        · rw [if_pos hh] at hspec
          rw [hspec.1] at hpu
          exact hpu.1.2.2 c (List.mem_append_right _ hc)
        · rw [if_neg hh] at hspec
          rw [hspec] at hc
          cases hc
      · rw [h2]
        exact hpu.2

end Text

/-- Every list of tests that `BAN_AddTest` accepts is read back from the frozen specification, record by
record and up to its length; and the text that `ban_render` prints for it is, split by the command line
and given to `ccf_ban`, accepted with the same specification, exactly if there is a test and all of them
print as plain words. -/
theorem ban_spec_round_trip (re : List UInt8 → Option (List UInt8)) (hex : List UInt8 → Option Nat)
    (ts : List (List UInt8 × List UInt8 × List UInt8)) (t0 : List UInt8) (b : BanBuild)
    (h8 : t0.length = 8) (h0 : ∀ t ∈ ts, 0 ∉ t.1 ∧ 0 ∉ t.2.2)
    (hacc : banAddTests re .new ts = .ok b) (hlen : b.vsb.length + 13 < 2 ^ 32) :
    ((banLen (banFreeze t0 b) = (banFreeze t0 b).length ∧
        ∃ bts, banTests (banFreeze t0 b) = some bts ∧ List.Forall₂ (BanReads re) ts bts) ∧
      ∃ text av, banRender (banFreeze t0 b) = some text ∧ vavParse hex noFlags text = some (.ok av) ∧
        ccfBan re av = .ok b) ↔
      ts ≠ [] ∧ ∀ t ∈ ts, BanPrintable t := by
  obtain ⟨bts, hreads, rfl⟩ := banAddTests_ok.mp hacc
  simp only [BanBuild.new, List.nil_append, Bool.false_or] at hacc hlen ⊢
  have hwfs := banRecordWf_of_forall hreads (fun t ht => (h0 t ht).2) (by omega)
  have hnul : ∀ t ∈ ts, 0 ∉ t.1 := fun t ht => (h0 t ht).1
  obtain ⟨hbl, hbody⟩ := banFreeze_body (b := ⟨bts.flatMap banEncode,
    bts.any (fun bt => banIsReq bt.arg1)⟩) h8 hlen
  have htests : banTests (banFreeze t0 ⟨bts.flatMap banEncode,
      bts.any (fun bt => banIsReq bt.arg1)⟩) = some bts := by
    rw [banTests, hbody]
    exact banIterLoop_flatMap hwfs (length_le_flatMap bts)
  have hrender : banRender (banFreeze t0 ⟨bts.flatMap banEncode,
      bts.any (fun bt => banIsReq bt.arg1)⟩) =
      banRenderLoop (bts.flatMap banEncode).length (bts.flatMap banEncode) := by
    rw [banRender, hbody]
  constructor
  · rintro ⟨-, text, av, htext, hav, hccf⟩
    rw [hrender] at htext
    have hs := banRenderLoop_status hreads hwfs hnul (length_le_flatMap bts) htext
    have hwords := banRenderLoop_words hreads hwfs hnul hs (length_le_flatMap bts)
    obtain rfl := Option.some.inj (htext.symm.trans hwords)
    rw [ccfBan] at hccf
    split at hccf
    · cases hccf
    rename_i hmod
    split at hccf
    · cases hccf
    rename_i hfind
    have hands : ∀ a ∈ ccfBanAnds av, a = bytes "&&" := by
      intro a ha
      simpa using List.find?_eq_none.mp hfind a ha
    have hav' := banArgs_ccfBanTests (by simpa using hmod) hands
    obtain ⟨bts', hreads', heq⟩ := banAddTests_ok.mp hccf
    have hsame : bts' = bts := by
      have hv := congrArg BanBuild.vsb heq
      simp only [BanBuild.new, List.nil_append] at hv
      have hmem : ∀ t ∈ ccfBanTests av, 0 ∉ t.2.2 := by
        intro t ht
        exact vavParse_nul hav _ (hav' ▸ (mem_banArgs ht).2)
      have hwfs' := banRecordWf_of_forall hreads' hmem (by rw [← hv]; omega)
      have h1 := banIterLoop_flatMap hwfs (length_le_flatMap bts)
      have h2 := banIterLoop_flatMap hwfs' (length_le_flatMap bts')
      rw [← hv, h1] at h2
      exact (Option.some.inj h2).symm
    subst hsame
    have hle := banArgs_le (banReads_printed_le hreads hreads')
    have hcost := vavParse_cost hav
    rw [length_joinWords, ← hav'] at hcost
    have hplain : ∀ w ∈ banArgs (ccfBanTests av), PlainWord w := plain_of_cost (by omega)
    refine ⟨?_, banPrintable_of_resubmit hreads hreads' hplain hs⟩
    rintro rfl
    cases hreads
    rw [List.forall₂_nil_right_iff.mp hreads'] at hav'
    rw [← hav'] at hmod
    exact hmod (by decide)
  · rintro ⟨hne, hp⟩
    have hs := banReads_not_status hreads hp
    have hwords := banRenderLoop_words hreads hwfs hnul hs (length_le_flatMap bts)
    have hplain := plain_banArgs hreads hp h0
    refine ⟨⟨hbl, bts, htests, hreads⟩, _, banArgs (ts.map banPrinted), hrender.trans hwords, ?_, ?_⟩
    · exact vavParse_joinWords hplain
    · rw [ccfBan_banArgs (by simpa using hne)]
      refine banAddTests_ok.mpr ⟨bts, ?_, by simp [BanBuild.new]⟩
      rw [List.forall₂_map_left_iff]
      exact hreads.imp (fun t bt hr => banReads_printed hr)

/-- A ban with a regexp on a request header and a comparison of an object header. -/
def hostBan : List (List UInt8 × List UInt8 × List UInt8) :=
  [(bytes "req.http.Host", bytes "~", bytes "^a.c$"), (bytes "obj.http.A", bytes "!=", bytes "x")]

def hostBuild : BanBuild :=
  ⟨banArgReqhttp :: 5 :: bytes "Host:" ++ [0, 0, 0, 0, 6] ++ bytes "^a.c$" ++
    [0, banOperMatch, 0, 0, 0, 5] ++ bytes "^a.c$" ++
    banArgObjhttp :: 2 :: bytes "A:" ++ [0, 0, 0, 0, 2] ++ bytes "x" ++ [0, banOperNeq], true⟩

lemma hostBan_printable : ∀ t ∈ hostBan, BanPrintable t := by
  have hhost : ∀ c ∈ bytes "Host", isspace c = false ∧ c ≠ chBackslash := forall_mem_of_all rfl
  have hregexp : ∀ c ∈ bytes "^a.c$", isspace c = false ∧ c ≠ chBackslash := forall_mem_of_all rfl
  have hname : ∀ c ∈ bytes "A", isspace c = false ∧ c ≠ chBackslash := forall_mem_of_all rfl
  have hvalue : ∀ c ∈ bytes "x", isspace c = false ∧ c ≠ chBackslash := forall_mem_of_all rfl
  intro t ht
  rcases List.mem_cons.mp ht with rfl | ht
  · exact ⟨by decide, hhost, by decide, by decide, hregexp⟩
  · rw [List.mem_singleton.mp ht]
    exact ⟨by decide, hname, by decide, by decide, hvalue⟩

theorem ban_spec_round_trip_host :
    banAddTests some .new hostBan = .ok hostBuild ∧
    ∃ text av, banRender (banFreeze (List.replicate 8 0) hostBuild) = some text ∧
      vavParse sscanfHex noFlags text = some (.ok av) ∧ ccfBan some av = .ok hostBuild := by
  have hacc : banAddTests some .new hostBan = .ok hostBuild := rfl
  have hmain := ban_spec_round_trip some sscanfHex hostBan (List.replicate 8 0) hostBuild (by decide) (by decide) hacc
    (by decide)
  exact ⟨hacc, (hmain.mpr ⟨by simp [hostBan], hostBan_printable⟩).2⟩

/-- `obj.status == 404` is accepted, but `ban_render` has no case for it. -/
theorem ban_render_status :
    ∃ b, banAddTests (fun _ => none) .new [(bytes "obj.status", bytes "==", bytes "404")] = .ok b ∧
      b.vsb.length + 13 < 2 ^ 32 ∧
      ¬ ∃ text av, banRender (banFreeze (List.replicate 8 0) b) = some text ∧
        vavParse sscanfHex noFlags text = some (.ok av) ∧ ccfBan (fun _ => none) av = .ok b := by
  refine ⟨⟨[0x1b, 0, 0, 0, 4, 0x34, 0x30, 0x34, 0, 0x10], false⟩, rfl, by decide, ?_⟩
  rintro ⟨text, av, htext, -⟩
  have hnone : banRender (banFreeze (List.replicate 8 0)
      ⟨[0x1b, 0, 0, 0, 4, 0x34, 0x30, 0x34, 0, 0x10], false⟩) = none := by decide
  rw [hnone] at htext
  cases htext

end VarnishCache.Proofs
