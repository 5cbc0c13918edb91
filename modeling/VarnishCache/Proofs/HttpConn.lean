import VarnishCache.HttpConn
import Mathlib.Tactic

/-!
# Messages on a connection

However the bytes of a connection come in, the calls on it give the same header blocks, but for space in front of
them, and the same bytes behind each one.
-/

namespace VarnishCache.Proofs

open VarnishCache

variable {p q s t r w : List UInt8} {i k : Nat}

lemma emptyLine_le (h : emptyLine p = some k) : 0 < k ∧ k ≤ 2 ∧ k ≤ p.length := by
  unfold emptyLine at h
  match p with
  | [] => simp at h
  | [a] =>
    by_cases ha : a = 0x0d
    · simp [ha] at h
    · simp [ha] at h
      simp [← h.2]
  | a :: b :: p =>
    by_cases ha : a = 0x0d
    · simp [ha] at h
      simp [← h.2]
    · simp [ha] at h
      simp [← h.2]

lemma emptyLine_append (q : List UInt8) (h : emptyLine p = some k) : emptyLine (p ++ q) = some k := by
  unfold emptyLine at h ⊢
  match p with
  | [] => simp at h
  | [a] =>
    by_cases ha : a = 0x0d
    · simp [ha] at h
    · simpa [ha] using h
  | a :: b :: p =>
    by_cases ha : a = 0x0d
    · simpa [ha] using h
    · simpa [ha] using h

lemma emptyLine_of_append (h : emptyLine (p ++ q) = some k) (hk : k ≤ p.length) : emptyLine p = some k := by
  have hpos := emptyLine_le h
  unfold emptyLine at h ⊢
  match p with
  | [] =>
    simp only [List.length_nil] at hk
    omega
  | [a] =>
    by_cases ha : a = 0x0d
    · simp [ha] at h
      simp [← h.2] at hk
    · simpa [ha] using h
  | a :: b :: p =>
    by_cases ha : a = 0x0d
    · simpa [ha] using h
    · simpa [ha] using h

lemma headerEnd_le (h : headerEnd p = some i) : 2 ≤ i ∧ i ≤ p.length := by
  induction p generalizing i with
  | nil => cases h
  | cons c p ih =>
    rw [headerEnd] at h
    split at h
    · cases h
    · split at h
      · obtain ⟨j, hj, rfl⟩ := Option.map_eq_some_iff.mp h
        have hle := ih hj
        simp only [List.length_cons]
        omega
      · split at h
        next k hk =>
          cases h
          have hle := emptyLine_le hk
          simp only [List.length_cons]
          omega
        next =>
          obtain ⟨j, hj, rfl⟩ := Option.map_eq_some_iff.mp h
          have hle := ih hj
          simp only [List.length_cons]
          omega

/-- The end of a header is found from the bytes up to it. -/
lemma headerEnd_append (q : List UInt8) (h : headerEnd p = some i) : headerEnd (p ++ q) = some i := by
  induction p generalizing i with
  | nil => cases h
  | cons c p ih =>
    rw [headerEnd] at h
    rw [List.cons_append, headerEnd]
    split at h
    · cases h
    next hc =>
      rw [if_neg hc]
      split at h
      next hn =>
        obtain ⟨j, hj, rfl⟩ := Option.map_eq_some_iff.mp h
        rw [if_pos hn, ih hj]
        rfl
      next hn =>
        rw [if_neg hn]
        split at h
        next k hk =>
          rw [emptyLine_append q hk]
          exact h
        next hk =>
          obtain ⟨j, hj, rfl⟩ := Option.map_eq_some_iff.mp h
          have hle := headerEnd_le hj
          cases hq : emptyLine (p ++ q) with
          | none =>
            simp only [ih hj]
            rfl
          | some k =>
            have hk2 := emptyLine_le hq
            rw [emptyLine_of_append hq (by omega)] at hk
            cases hk

lemma headerEnd_of_append (h : headerEnd (p ++ q) = some i) (hi : i ≤ p.length) : headerEnd p = some i := by
  induction p generalizing i with
  | nil =>
    have hle := headerEnd_le h
    simp only [List.length_nil] at hi
    omega
  | cons c p ih =>
    rw [List.cons_append, headerEnd] at h
    rw [headerEnd]
    simp only [List.length_cons] at hi
    split at h
    · cases h
    next hc =>
      rw [if_neg hc]
      split at h
      next hn =>
        obtain ⟨j, hj, rfl⟩ := Option.map_eq_some_iff.mp h
        rw [if_pos hn, ih hj (by omega)]
        rfl
      next hn =>
        rw [if_neg hn]
        split at h
        next k hk =>
          cases h
          rw [emptyLine_of_append hk (by omega)]
        next hk =>
          obtain ⟨j, hj, rfl⟩ := Option.map_eq_some_iff.mp h
          cases hq : emptyLine p with
          | none =>
            simp only [ih hj (by omega)]
            rfl
          | some k =>
            rw [emptyLine_append q hq] at hk
            cases hk

/-- A block without the space in front of it. -/
def stripped (b : List UInt8) : List UInt8 := b.dropWhile isspace

def AllSpace (w : List UInt8) : Prop := ∀ c ∈ w, isspace c = true

lemma stripped_append_of_allSpace (hw : AllSpace w) (t : List UInt8) : stripped (w ++ t) = stripped t :=
  List.dropWhile_append_of_pos hw

lemma stripped_append (ht : stripped t ≠ []) (q : List UInt8) : stripped (t ++ q) = stripped t ++ q := by
  unfold stripped at ht ⊢
  rw [List.dropWhile_append, if_neg (by simpa using ht)]

lemma allSpace_of_stripped (h : stripped t = []) : AllSpace t := List.dropWhile_eq_nil_iff.mp h

/-- Space, and what is left without it. -/
lemma exists_allSpace (t : List UInt8) : ∃ w, AllSpace w ∧ t = w ++ stripped t :=
  ⟨t.takeWhile isspace, fun _ hc => List.mem_takeWhile_imp hc, List.takeWhile_append_dropWhile.symm⟩

lemma stripped_take (ht : stripped t ≠ []) (hi : 0 < i) : stripped ((stripped t).take i) = (stripped t).take i := by
  obtain ⟨c, h, hc⟩ := List.exists_cons_of_ne_nil ht
  obtain ⟨j, rfl⟩ := Nat.exists_eq_add_one.mpr hi
  have hspace : isspace c = false := by
    have hhead := List.head?_dropWhile_not isspace t
    rw [show t.dropWhile isspace = c :: h from hc] at hhead
    exact hhead
  rw [hc, List.take_succ_cons, stripped, List.dropWhile_cons_of_neg (by simp [hspace])]

/-- The messages, with space in front of each one, and `rest` after them are the bytes `s`. -/
def Spells : List (List UInt8 × List UInt8) → List UInt8 → List UInt8 → Prop
  | [], s, rest => s = rest
  | m :: ms, s, rest => ∃ w s', AllSpace w ∧ s = w ++ m.1 ++ m.2 ++ s' ∧ Spells ms s' rest

lemma Spells.concat {ms : List (List UInt8 × List UInt8)} {b d rest : List UInt8} (hw : AllSpace w)
    (h : Spells ms s (w ++ b ++ d ++ rest)) : Spells (ms ++ [(b, d)]) s rest := by
  induction ms generalizing s with
  | nil => exact ⟨w, rest, hw, h, rfl⟩
  | cons m ms ih =>
    obtain ⟨w', s', hw', hs, hms⟩ := h
    exact ⟨w', s', hw', hs, ih hms⟩

lemma Spells.addBody {ms : List (List UInt8 × List UInt8)} {d rest : List UInt8} (hne : ms ≠ [])
    (h : Spells ms s (d ++ rest)) : Spells (HtcSess.addBody ms d) s rest := by
  induction ms generalizing s with
  | nil => exact absurd rfl hne
  | cons m ms ih =>
    obtain ⟨w, s', hw, hs, hms⟩ := h
    cases ms with
    | nil =>
      obtain rfl : s' = d ++ rest := hms
      refine ⟨w, rest, hw, ?_, rfl⟩
      rw [hs]
      simp
    | cons n ms => exact ⟨w, s', hw, hs, ih (List.cons_ne_nil n ms) hms⟩

/-- The first block of a stream and what comes after it. -/
def nextBlock (s : List UInt8) : Option (List UInt8 × List UInt8) :=
  (headerEnd (stripped s)).map (fun i => ((stripped s).take i, (stripped s).drop i))

/-- The messages of a stream, for bodies of the lengths `ns`. -/
def frame : List Nat → List UInt8 → Option (List (List UInt8 × List UInt8) × List UInt8)
  | [], s => some ([], s)
  | n :: ns, s =>
    match nextBlock s with
    | none => none
    | some (b, s') => (frame ns (s'.drop n)).map (fun r => ((b, s'.take n) :: r.1, r.2))

def bodyLengths (ms : List (List UInt8 × List UInt8)) : List Nat := ms.map (fun m => m.2.length)

def strippedMessages (ms : List (List UInt8 × List UInt8)) : List (List UInt8 × List UInt8) :=
  ms.map (fun m => (stripped m.1, m.2))

/-- A header block that ends where the header does. -/
def IsBlock (b : List UInt8) : Prop := headerEnd (stripped b) = some (stripped b).length

lemma nextBlock_of_isBlock {b : List UInt8} (hb : IsBlock b) (hw : AllSpace w) (t : List UInt8) :
    nextBlock (w ++ b ++ t) = some (stripped b, t) := by
  have hne : stripped b ≠ [] := by
    intro h0
    rw [IsBlock, h0] at hb
    cases hb
  have hstrip : stripped (w ++ b ++ t) = stripped b ++ t := by
    rw [List.append_assoc, stripped_append_of_allSpace hw, stripped_append hne]
  unfold nextBlock
  rw [hstrip, headerEnd_append t hb]
  simp

/-- Messages that a stream spells are its own ones. -/
lemma frame_of_spells {ms : List (List UInt8 × List UInt8)} {rest : List UInt8} (hb : ∀ m ∈ ms, IsBlock m.1)
    (h : Spells ms s rest) : frame (bodyLengths ms) s = some (strippedMessages ms, rest) := by
  induction ms generalizing s with
  | nil =>
    obtain rfl : s = rest := h
    rfl
  | cons m ms ih =>
    obtain ⟨w, s', hw, hs, hms⟩ := h
    have hnext : nextBlock s = some (stripped m.1, m.2 ++ s') := by
      rw [hs, List.append_assoc]
      exact nextBlock_of_isBlock (hb m List.mem_cons_self) hw (m.2 ++ s')
    rw [bodyLengths, List.map_cons, frame, hnext]
    simp only [List.take_left, List.drop_left]
    have hrec := ih (fun n hn => hb n (List.mem_cons_of_mem m hn)) hms
    rw [bodyLengths] at hrec
    rw [hrec]
    rfl

/-- A buffer with the end of a header is cut into a block and the rest. -/
lemma exists_block (hend : headerEnd (stripped t) = some i) :
    ∃ b q, t = b ++ q ∧ IsBlock b ∧ b.length = t.length - (stripped t).length + i := by
  obtain ⟨w, hw, ht⟩ := exists_allSpace t
  obtain ⟨hpos, hle⟩ := headerEnd_le hend
  have hlen : t.length = w.length + (stripped t).length := by
    rw [← List.length_append, ← ht]
  have hne : stripped t ≠ [] := by
    intro h0
    rw [h0] at hend
    cases hend
  have hstrip : stripped (w ++ (stripped t).take i) = (stripped t).take i := by
    rw [stripped_append_of_allSpace hw, stripped_take hne (by omega)]
  refine ⟨w ++ (stripped t).take i, (stripped t).drop i, ?_, ?_, ?_⟩
  · rw [List.append_assoc, List.take_append_drop]
    exact ht
  · rw [IsBlock, hstrip, List.length_take, Nat.min_eq_left hle]
    refine headerEnd_of_append (q := (stripped t).drop i) ?_ (by rw [List.length_take]; omega)
    rw [List.take_append_drop]
    exact hend
  · rw [List.length_append, List.length_take]
    omega

lemma htcHeaderComplete_cases (t : List UInt8) :
    (AllSpace t ∧ htcHeaderComplete t = (0, [])) ∨ (headerEnd (stripped t) = none ∧ htcHeaderComplete t = (0, t)) ∨
      ∃ b q, t = b ++ q ∧ IsBlock b ∧ 0 < b.length ∧ htcHeaderComplete t = (b.length, t) := by
  unfold htcHeaderComplete
  by_cases hp : t.dropWhile isspace = []
  · exact Or.inl ⟨allSpace_of_stripped hp, by simp [hp]⟩
  · right
    cases hend : headerEnd (t.dropWhile isspace) with
    | none => exact Or.inl ⟨hend, by simp [hp, hend]⟩
    | some i =>
      obtain ⟨b, q, ht, hb, hlen⟩ := exists_block hend
      have hle := headerEnd_le hend
      refine Or.inr ⟨b, q, ht, hb, by omega, ?_⟩
      simp only [hp, if_false, hend, hlen, stripped]

/-- What a call for a header does to the buffer: it is all space, or has no end of a header, or is cut. -/
lemma complete_cases {htc : HttpConn} (hres : htc.reserved = true) (hpipe : htc.pipeline = none) :
    (AllSpace htc.rxbuf ∧ htc.complete = some (0, { htc with rxbuf := [] })) ∨
      (headerEnd (stripped htc.rxbuf) = none ∧ htc.complete = some (0, htc)) ∨
      ∃ b q pipeline, htc.rxbuf = b ++ q ∧ IsBlock b ∧ 0 < b.length ∧ pipeline.getD [] = q ∧
        htc.complete = some (1, { htc with rxbuf := b, pipeline := pipeline, reserved := false }) := by
  unfold HttpConn.complete
  rcases htcHeaderComplete_cases htc.rxbuf with ⟨hall, hc⟩ | ⟨hnone, hc⟩ | ⟨b, q, ht, hb, hpos, hc⟩
  · exact Or.inl ⟨hall, by simp [hc]⟩
  · exact Or.inr (Or.inl ⟨hnone, by simp [hc]⟩)
  · right
    right
    simp only [hc, hres, hpipe]
    rw [if_neg hpos.ne', if_neg (by simp), ht]
    by_cases hq : q = []
    · refine ⟨b, q, none, rfl, hb, hpos, hq.symm, ?_⟩
      rw [if_neg (by simp [hq]), hq, List.append_nil, ← hpipe]
    · refine ⟨b, q, some q, rfl, hb, hpos, rfl, ?_⟩
      have hlt : b.length < (b ++ q).length := by
        have hqpos := List.length_pos_iff.mpr hq
        rw [List.length_append]
        omega
      rw [if_pos hlt, List.take_left, List.drop_left]

/-- What holds between the calls on a connection that carries the bytes `s`. -/
structure HtcInv (s : List UInt8) (st : HtcSess) : Prop where
  pieces : ∀ d ∈ st.htc.fd, d ≠ []
  blocks : ∀ m ∈ st.messages, IsBlock m.1
  spells : ∃ w, AllSpace w ∧ (st.htc.reserved = false → w = []) ∧ Spells st.messages s (w ++ st.rest)
  waiting : st.htc.reserved = true → st.htc.pipeline = none ∧ headerEnd (stripped st.htc.rxbuf) = none
  fits : st.htc.reserved = true → st.htc.rxbuf = [] ∨ st.htc.rxbuf.length < st.htc.space
  found : st.htc.reserved = false → st.messages ≠ [] ∧ (st.htc.pipeline.getD []).length < st.htc.space

/-- A call for a header, on a buffer `t` that may hold one. -/
lemma complete_inv (st : HtcSess) (htc : HttpConn) (hres : htc.reserved = true) (hpipe : htc.pipeline = none)
    (hpieces : ∀ d ∈ htc.fd, d ≠ []) (hblocks : ∀ m ∈ st.messages, IsBlock m.1) (hw : AllSpace w)
    (hspells : Spells st.messages s (w ++ (htc.rxbuf ++ htc.fd.flatten)))
    (hfits : htc.rxbuf = [] ∨ htc.rxbuf.length < htc.space) :
    ∃ r, htc.complete = some r ∧ 0 ≤ r.1 ∧ HtcInv s (st.header r).2 := by
  rcases complete_cases hres hpipe with ⟨hall, hc⟩ | ⟨hnone, hc⟩ | ⟨b, q, pipeline, ht, hb, hpos, hq, hc⟩
  · refine ⟨_, hc, le_rfl, hpieces, hblocks, ⟨w ++ htc.rxbuf, ?_, ?_, ?_⟩, ?_, ?_, ?_⟩
    · intro c hmem
      exact (List.mem_append.mp hmem).elim (hw c) (hall c)
    · intro h
      exact absurd (hres.symm.trans h) (by decide)
    · simpa [HtcSess.header, HtcSess.rest, hres] using hspells
    · intro _
      exact ⟨hpipe, rfl⟩
    · intro _
      exact Or.inl rfl
    · intro h
      exact absurd (hres.symm.trans h) (by decide)
  · refine ⟨_, hc, le_rfl, hpieces, hblocks, ⟨w, hw, ?_, ?_⟩, ?_, ?_, ?_⟩
    · intro h
      exact absurd (hres.symm.trans h) (by decide)
    · simpa [HtcSess.header, HtcSess.rest, hres] using hspells
    · intro _
      exact ⟨hpipe, hnone⟩
    · intro _
      exact hfits
    · intro h
      exact absurd (hres.symm.trans h) (by decide)
  · have hlen : q.length < htc.space := by
      rcases hfits with h0 | hlt
      · rw [ht] at h0
        rw [List.append_eq_nil_iff.mp h0 |>.1] at hpos
        cases hpos
      · rw [ht, List.length_append] at hlt
        omega
    refine ⟨_, hc, Int.one_nonneg, hpieces, ?_, ⟨[], ?_, ?_, ?_⟩, ?_, ?_, ?_⟩
    · intro m hm
      rcases List.mem_append.mp hm with hm | hm
      · exact hblocks m hm
      · rw [List.mem_singleton.mp hm]
        exact hb
    · intro c hmem
      cases hmem
    · intro _
      rfl
    · have hcut : Spells (st.messages ++ [(b, [])]) s (q ++ htc.fd.flatten) := by
        refine Spells.concat hw ?_
        rw [ht] at hspells
        simpa using hspells
      simpa [HtcSess.header, HtcSess.rest, hq] using hcut
    · intro h
      cases h
    · intro h
      cases h
    · intro _
      refine ⟨by simp [HtcSess.header], ?_⟩
      change (pipeline.getD []).length < htc.space
      rw [hq]
      exact hlen

lemma fd_read_flatten (k : Nat) (fd : Fd) : (fd.read k).1 ++ (fd.read k).2.flatten = fd.flatten := by
  cases fd with
  | nil => rfl
  | cons c fd =>
    simp only [Fd.read]
    split
    next hle => rw [List.take_of_length_le hle, List.flatten_cons]
    next => rw [List.flatten_cons, ← List.append_assoc, List.take_append_drop, List.flatten_cons]

lemma fd_read_length (k : Nat) (fd : Fd) : (fd.read k).1.length ≤ k := by
  cases fd with
  | nil => exact Nat.zero_le k
  | cons c fd => exact List.length_take_le k c

lemma fd_read_pieces {fd : Fd} (h : ∀ d ∈ fd, d ≠ []) (k : Nat) : ∀ d ∈ (fd.read k).2, d ≠ [] := by
  cases fd with
  | nil => exact h
  | cons c fd =>
    simp only [Fd.read]
    split
    next => exact fun d hd => h d (List.mem_cons_of_mem c hd)
    next hle =>
      intro d hd
      rcases List.mem_cons.mp hd with rfl | hd
      · simpa using hle
      · exact h d (List.mem_cons_of_mem c hd)

lemma fd_read_eof {fd : Fd} {k : Nat} (h : ∀ d ∈ fd, d ≠ []) (hk : 0 < k) (he : (fd.read k).1 = []) : fd = [] := by
  cases fd with
  | nil => rfl
  | cons c fd =>
    have hc := h c List.mem_cons_self
    rcases List.take_eq_nil_iff.mp he with h0 | h0
    · omega
    · exact absurd h0 hc

/-- What `HTC_Read` gives is what comes next on the connection. -/
lemma read_spec (htc : HttpConn) (len : Nat) :
    (htc.read len).1 ++ ((htc.read len).2.pipeline.getD [] ++ (htc.read len).2.fd.flatten) =
      htc.pipeline.getD [] ++ htc.fd.flatten ∧
    (htc.read len).2.reserved = htc.reserved ∧ (htc.read len).2.space = htc.space ∧
    ((htc.read len).2.pipeline.getD []).length ≤ (htc.pipeline.getD []).length ∧
    ((∀ d ∈ htc.fd, d ≠ []) → ∀ d ∈ (htc.read len).2.fd, d ≠ []) := by
  have hpipe : ∀ rest : List UInt8, (if rest = [] then none else some rest : Option (List UInt8)).getD [] = rest := by
    intro rest
    split
    next h0 => exact h0.symm
    next => rfl
  unfold HttpConn.read
  generalize htc.pipeline.getD [] = p
  simp only
  split
  next hle =>
    refine ⟨?_, rfl, rfl, ?_, fun h => h⟩
    · rw [hpipe, ← List.append_assoc, List.take_append_drop]
    · rw [hpipe, List.length_drop]
      omega
  next hlt =>
    have hall : p.length ≤ len := by
      rw [List.length_take] at hlt
      omega
    refine ⟨?_, rfl, rfl, ?_, fun h => fd_read_pieces h _⟩
    · rw [hpipe, List.drop_of_length_le hall, List.take_of_length_le hall, List.nil_append, List.append_assoc,
        fd_read_flatten]
    · rw [hpipe, List.length_drop]
      omega

lemma addBody_ne_nil {ms : List (List UInt8 × List UInt8)} (h : ms ≠ []) (d : List UInt8) :
    HtcSess.addBody ms d ≠ [] := by
  match ms with
  | [] => exact absurd rfl h
  | [m] => exact List.cons_ne_nil _ _
  | m :: n :: ms => exact List.cons_ne_nil _ _

lemma addBody_blocks {ms : List (List UInt8 × List UInt8)} (h : ∀ m ∈ ms, IsBlock m.1) (d : List UInt8) :
    ∀ m ∈ HtcSess.addBody ms d, IsBlock m.1 := by
  induction ms with
  | nil => exact h
  | cons m ms ih =>
    cases ms with
    | nil =>
      intro m' hm'
      rw [List.mem_singleton.mp hm']
      exact h m List.mem_cons_self
    | cons n ms =>
      intro m' hm'
      rcases List.mem_cons.mp hm' with rfl | hm'
      · exact h m' List.mem_cons_self
      · exact ih (fun x hx => h x (List.mem_cons_of_mem m hx)) m' hm'

lemma HtcInv.read {st : HtcSess} (h : HtcInv s st) (hres : st.htc.reserved = false) (len : Nat) :
    ∃ r, st.step (.read len) = some r ∧ 0 ≤ r.1 ∧ HtcInv s r.2 := by
  obtain ⟨hbytes, hres', hspace, hlen, hpieces⟩ := read_spec st.htc len
  obtain ⟨hne, hfit⟩ := h.found hres
  obtain ⟨w, -, hw0, hspells⟩ := h.spells
  obtain rfl := hw0 hres
  have hnotres : (st.htc.read len).2.reserved = false := hres'.trans hres
  have hrest : (HtcSess.mk (st.htc.read len).2 (HtcSess.addBody st.messages (st.htc.read len).1)).rest =
      (st.htc.read len).2.pipeline.getD [] ++ (st.htc.read len).2.fd.flatten := by
    rw [HtcSess.rest, if_neg (by simp [hnotres])]
  have hrest0 : st.rest = st.htc.pipeline.getD [] ++ st.htc.fd.flatten := by
    rw [HtcSess.rest, if_neg (by simp [hres])]
  refine ⟨((st.htc.read len).1.length, ⟨(st.htc.read len).2, HtcSess.addBody st.messages (st.htc.read len).1⟩), rfl,
    Int.natCast_nonneg _, hpieces h.pieces, addBody_blocks h.blocks _, ⟨[], ?_, ?_, ?_⟩, ?_, ?_, ?_⟩
  · intro c hc
    cases hc
  · intro _
    rfl
  · refine Spells.addBody hne ?_
    rw [hrest, List.nil_append, hbytes, ← hrest0]
    exact hspells
  · intro hr
    exact absurd (hnotres.symm.trans hr) (by decide)
  · intro hr
    exact absurd (hnotres.symm.trans hr) (by decide)
  · intro _
    refine ⟨addBody_ne_nil hne _, ?_⟩
    change ((st.htc.read len).2.pipeline.getD []).length < (st.htc.read len).2.space
    rw [hspace]
    omega

lemma HtcInv.reinit {st : HtcSess} (h : HtcInv s st) (hres : st.htc.reserved = false) :
    ∃ r, st.step .reinit = some r ∧ 0 ≤ r.1 ∧ HtcInv s r.2 := by
  obtain ⟨hne, hfit⟩ := h.found hres
  obtain ⟨w, hw, -, hspells⟩ := h.spells
  simp only [HtcSess.rest, hres, Bool.false_eq_true, if_false] at hspells
  obtain ⟨r, hc, hr, hinv⟩ := complete_inv st
    { st.htc with rxbuf := st.htc.pipeline.getD [], pipeline := none, reserved := true }
    rfl rfl h.pieces h.blocks hw hspells (Or.inr hfit)
  refine ⟨st.header r, ?_, hr, hinv⟩
  rw [HtcSess.step, HttpConn.reinit, if_neg (by simp [hres]), if_neg (by omega), hc]
  rfl

lemma HtcInv.complete {st : HtcSess} (h : HtcInv s st) (hres : st.htc.reserved = true) :
    ∃ r, st.step .complete = some r ∧ 0 ≤ r.1 ∧ HtcInv s r.2 := by
  obtain ⟨w, hw, -, hspells⟩ := h.spells
  simp only [HtcSess.rest, hres, if_true] at hspells
  obtain ⟨r, hc, hr, hinv⟩ := complete_inv st st.htc hres (h.waiting hres).1 h.pieces h.blocks hw hspells (h.fits hres)
  refine ⟨st.header r, ?_, hr, hinv⟩
  rw [HtcSess.step, hc]
  rfl

/-- `HTC_Rx` fails when the buffer is full or the connection is at its end. -/
lemma HtcInv.rx {st : HtcSess} (h : HtcInv s st) (hres : st.htc.reserved = true) :
    ∃ r, st.step .rx = some r ∧ (0 ≤ r.1 → HtcInv s r.2) ∧ (r.1 = -1 → st.htc.fd = []) := by
  obtain ⟨w, hw, -, hspells⟩ := h.spells
  simp only [HtcSess.rest, hres, if_true] at hspells
  rw [HtcSess.step, HttpConn.rx, if_neg (by simp [hres])]
  simp only
  split
  next hfull =>
    refine ⟨_, rfl, fun h0 => ?_, fun h0 => ?_⟩
    · exact absurd (show (0 : Int) ≤ -2 from h0) (by decide)
    · exact absurd (show (-2 : Int) = -1 from h0) (by decide)
  next hroom =>
    set k := ((st.htc.space : Int) - st.htc.rxbuf.length - 1).toNat with hk
    have hkpos : 0 < k := by omega
    split
    next heof =>
      refine ⟨_, rfl, fun h0 => ?_, fun _ => fd_read_eof h.pieces hkpos heof⟩
      exact absurd (show (0 : Int) ≤ -1 from h0) (by decide)
    next hdata =>
      have hlen := fd_read_length k st.htc.fd
      obtain ⟨r, hc, hr, hinv⟩ := complete_inv st
        { st.htc with rxbuf := st.htc.rxbuf ++ (st.htc.fd.read k).1, fd := (st.htc.fd.read k).2 } hres
        (h.waiting hres).1 (fd_read_pieces h.pieces k) h.blocks hw
        (by rw [List.append_assoc, fd_read_flatten]; exact hspells)
        (Or.inr (by simp only [List.length_append]; omega))
      refine ⟨st.header r, by rw [hc]; rfl, fun _ => hinv, ?_⟩
      intro h1
      exact absurd (hr.trans_eq h1) (by decide)

lemma HtcInv.step {st : HtcSess} (h : HtcInv s st) {call : HtcCall} (hmay : st.mayCall call = true) :
    ∃ r, st.step call = some r ∧ (0 ≤ r.1 → HtcInv s r.2) ∧ (r.1 = -1 → st.htc.fd = []) := by
  have hfine : (∃ r, st.step call = some r ∧ 0 ≤ r.1 ∧ HtcInv s r.2) →
      ∃ r, st.step call = some r ∧ (0 ≤ r.1 → HtcInv s r.2) ∧ (r.1 = -1 → st.htc.fd = []) := by
    rintro ⟨r, hstep, hr, hinv⟩
    exact ⟨r, hstep, fun _ => hinv, fun h1 => absurd (hr.trans_eq h1) (by decide)⟩
  cases call with
  | complete => exact hfine (h.complete hmay)
  | rx => exact h.rx hmay
  | read len => exact hfine (h.read (by simpa [HtcSess.mayCall] using hmay) len)
  | reinit => exact hfine (h.reinit (by simpa [HtcSess.mayCall] using hmay))

lemma HtcInv.init (space : Nat) {fd : Fd} (hne : ∀ d ∈ fd, d ≠ []) : HtcInv fd.flatten (HtcSess.init space fd) where
  pieces := hne
  blocks := fun _ hm => absurd hm List.not_mem_nil
  spells := ⟨[], fun _ hc => absurd hc List.not_mem_nil, fun _ => rfl, rfl⟩
  waiting := fun _ => ⟨rfl, rfl⟩
  fits := fun _ => Or.inl rfl
  found := fun h => absurd (show true = false from h) (by decide)

lemma HtcInv.run {st st' : HtcSess} {calls : List HtcCall} (h : HtcInv s st) (hrun : st.run calls = some st') :
    HtcInv s st' := by
  induction calls generalizing st with
  | nil =>
    cases hrun
    exact h
  | cons call calls ih =>
    rw [HtcSess.run] at hrun
    split at hrun
    next hmay =>
      obtain ⟨r, hstep, hinv, -⟩ := h.step hmay
      rw [hstep] at hrun
      simp only at hrun
      split at hrun
      next hr => exact ih (hinv hr) hrun
      next => cases hrun
    next => cases hrun

/-- Between calls, the messages of a connection are those of its bytes. -/
lemma HtcInv.frame_eq {st : HtcSess} (h : HtcInv s st) : ∃ w, AllSpace w ∧
    frame (bodyLengths st.messages) s = some (strippedMessages st.messages, w ++ st.rest) := by
  obtain ⟨w, hw, -, hspells⟩ := h.spells
  exact ⟨w, hw, frame_of_spells h.blocks hspells⟩

lemma frame_append {ns ns' : List Nat} {ms : List (List UInt8 × List UInt8)} {rest : List UInt8}
    (h : frame ns s = some (ms, rest)) :
    frame (ns ++ ns') s = (frame ns' rest).map (fun r => (ms ++ r.1, r.2)) := by
  induction ns generalizing s ms with
  | nil =>
    cases h
    simp
  | cons n ns ih =>
    rw [frame] at h
    rw [List.cons_append, frame]
    split at h
    next => cases h
    next b s' hnext =>
      obtain ⟨⟨ms', rest'⟩, hrec, heq⟩ := Option.map_eq_some_iff.mp h
      cases heq
      simp only
      rw [ih hrec, Option.map_map]
      rfl

/-- A connection that waits for a header at its end has no more messages. -/
lemma HtcInv.no_more {st : HtcSess} (h : HtcInv s st) (hres : st.htc.reserved = true) (hfd : st.htc.fd = []) {n : Nat}
    {ns : List Nat} : frame (bodyLengths st.messages ++ n :: ns) s = none := by
  obtain ⟨w, hw, hframe⟩ := h.frame_eq
  have hrest : st.rest = st.htc.rxbuf := by
    rw [HtcSess.rest, if_pos hres, hfd, List.flatten_nil, List.append_nil]
  have hnext : nextBlock (w ++ st.rest) = none := by
    rw [nextBlock, stripped_append_of_allSpace hw, hrest, (h.waiting hres).2]
    rfl
  rw [frame_append hframe, frame, hnext]
  rfl

end VarnishCache.Proofs
