import VarnishCache.Proofs.HttpConn

/-!
# The loops over a connection

A caller that calls `HTC_Rx` until it has a header, reads the body behind it and takes the connection up again gets the
messages of the stream, as many as there are, unless a header does not fit into the buffer.
-/

namespace VarnishCache.Proofs

open VarnishCache

variable {p q s t r w : List UInt8} {i k : Nat} {room : Nat → Nat}

/-- The messages of a stream as far as it goes, for bodies of the lengths `ns`. -/
def frames : List Nat → List UInt8 → List (List UInt8 × List UInt8)
  | [], _ => []
  | n :: ns, s =>
    match nextBlock s with
    | none => []
    | some (b, s') => (b, s'.take n) :: frames ns (s'.drop n)

lemma nextBlock_space (hw : AllSpace w) (t : List UInt8) : nextBlock (w ++ t) = nextBlock t := by
  unfold nextBlock
  rw [stripped_append_of_allSpace hw]

lemma frames_nil (ns : List Nat) : frames ns [] = [] := by
  cases ns with
  | nil => rfl
  | cons n ns => rfl

/-! ## A call for a header -/

/-- What a call for a header returns, on a connection with the messages `ms` that is still to give the bytes `t`. -/
inductive Asked (ms : List (List UInt8 × List UInt8)) (t : List UInt8) : Int × HtcSess → Prop where
  | more {st : HtcSess} {w : List UInt8} (hw : AllSpace w) (hms : st.messages = ms) (hres : st.htc.reserved = true)
    (ht : t = w ++ st.rest) : Asked ms t (0, st)
  | header {st : HtcSess} {w b : List UInt8} (hw : AllSpace w) (hb : IsBlock b) (hms : st.messages = ms ++ [(b, [])])
    (hres : st.htc.reserved = false) (ht : t = w ++ b ++ st.rest) : Asked ms t (1, st)
  | closed {st : HtcSess} (hms : st.messages = ms) (hnone : nextBlock t = none) : Asked ms t (-1, st)
  | full {st : HtcSess} {w : List UInt8} (hw : AllSpace w) (hms : st.messages = ms)
    (hfull : st.htc.space ≤ st.htc.rxbuf.length + 1) (hnone : headerEnd (stripped st.htc.rxbuf) = none)
    (ht : t = w ++ (st.htc.rxbuf ++ st.htc.fd.flatten)) : Asked ms t (-2, st)

/-- A call behind one that needs more. -/
lemma Asked.trans {ms : List (List UInt8 × List UInt8)} {st : HtcSess} {r : Int × HtcSess} (hw : AllSpace w)
    (hms : st.messages = ms) (ht : t = w ++ st.rest) (h : Asked st.messages st.rest r) : Asked ms t r := by
  have hspace : ∀ {v : List UInt8}, AllSpace v → AllSpace (w ++ v) := by
    intro v hv c hc
    exact (List.mem_append.mp hc).elim (hw c) (hv c)
  rw [hms] at h
  cases h with
  | more hv hms' hres hrest => exact .more (hspace hv) hms' hres (by rw [ht, hrest, List.append_assoc])
  | header hv hb hms' hres hrest =>
    exact .header (hspace hv) hb hms' hres (by rw [ht, hrest]; simp only [List.append_assoc])
  | closed hms' hnone => exact .closed hms' (by rw [ht, nextBlock_space hw, hnone])
  | full hv hms' hfull hnone hrest => exact .full (hspace hv) hms' hfull hnone (by rw [ht, hrest, List.append_assoc])

lemma asked_complete (st : HtcSess) (htc : HttpConn) (hres : htc.reserved = true) (hpipe : htc.pipeline = none) :
    ∃ r, htc.complete = some r ∧ r.2.fd = htc.fd ∧ Asked st.messages (htc.rxbuf ++ htc.fd.flatten) (st.header r) := by
  rcases complete_cases hres hpipe with ⟨hall, hc⟩ | ⟨-, hc⟩ | ⟨b, q, pipeline, ht, hb, -, hq, hc⟩
  · exact ⟨_, hc, rfl, .more hall rfl hres (by simp [HtcSess.rest, hres])⟩
  · refine ⟨_, hc, rfl, .more (w := []) (fun c hmem => absurd hmem List.not_mem_nil) rfl hres ?_⟩
    simp [HtcSess.rest, hres]
  · refine ⟨_, hc, rfl, .header (w := []) (fun c hmem => absurd hmem List.not_mem_nil) hb rfl rfl ?_⟩
    simp [HtcSess.rest, hq, ht]

/-- The first call for a header. -/
lemma asked_first {st : HtcSess} (h : HtcInv s st) :
    ∃ r, st.step (if st.htc.reserved then .complete else .reinit) = some r ∧ 0 ≤ r.1 ∧ HtcInv s r.2 ∧
      Asked st.messages st.rest r := by
  cases hres : st.htc.reserved with
  | true =>
    obtain ⟨r, hstep, hr, hinv⟩ := h.complete hres
    obtain ⟨r', hc, -, hasked⟩ := asked_complete st st.htc hres (h.waiting hres).1
    have hsame : st.step .complete = some (st.header r') := by rw [HtcSess.step, hc]; rfl
    obtain rfl := Option.some.inj (hstep.symm.trans hsame)
    refine ⟨_, hsame, hr, hinv, ?_⟩
    rw [HtcSess.rest, if_pos hres]
    exact hasked
  | false =>
    obtain ⟨r, hstep, hr, hinv⟩ := h.reinit hres
    have hfit := (h.found hres).2
    obtain ⟨r', hc, -, hasked⟩ := asked_complete st
      { st.htc with rxbuf := st.htc.pipeline.getD [], pipeline := none, reserved := true } rfl rfl
    have hsame : st.step .reinit = some (st.header r') := by
      rw [HtcSess.step, HttpConn.reinit, if_neg (by simp [hres]), if_neg (by omega), hc]
      rfl
    obtain rfl := Option.some.inj (hstep.symm.trans hsame)
    refine ⟨_, hsame, hr, hinv, ?_⟩
    rw [HtcSess.rest, if_neg (by simp [hres])]
    exact hasked

/-- The bytes that `HTC_Rx` takes. -/
lemma rx_bytes {st : HtcSess} {r : Int × HtcSess} (hres : st.htc.reserved = true) (hpipe : st.htc.pipeline = none)
    (hstep : st.step .rx = some r) (hr : 0 ≤ r.1) :
    ∃ d, d ≠ [] ∧ st.htc.fd.flatten = d ++ r.2.htc.fd.flatten := by
  rw [HtcSess.step, HttpConn.rx, if_neg (by simp [hres])] at hstep
  simp only at hstep
  split at hstep
  next =>
    cases hstep
    exact absurd (show (0 : Int) ≤ -2 from hr) (by decide)
  next =>
    split at hstep
    next =>
      cases hstep
      exact absurd (show (0 : Int) ≤ -1 from hr) (by decide)
    next hdata =>
      generalize ((st.htc.space : Int) - st.htc.rxbuf.length - 1).toNat = k at hstep hdata
      obtain ⟨r', hc, hfd, -⟩ := asked_complete st
        { st.htc with rxbuf := st.htc.rxbuf ++ (st.htc.fd.read k).1, fd := (st.htc.fd.read k).2 } hres hpipe
      rw [hc] at hstep
      cases hstep
      refine ⟨_, hdata, ?_⟩
      change st.htc.fd.flatten = (st.htc.fd.read k).1 ++ r'.2.fd.flatten
      rw [hfd, fd_read_flatten]

/-- `HTC_Rx` takes bytes from the connection, or says why there are none. -/
lemma asked_rx {st : HtcSess} (h : HtcInv s st) (hres : st.htc.reserved = true) :
    ∃ r, st.step .rx = some r ∧ (0 ≤ r.1 → HtcInv s r.2 ∧ r.2.htc.fd.flatten.length < st.htc.fd.flatten.length) ∧
      Asked st.messages st.rest r := by
  obtain ⟨hpipe, hnone⟩ := h.waiting hres
  obtain ⟨r, hstep, hinv, -⟩ := h.rx hres
  refine ⟨r, hstep, fun hr => ⟨hinv hr, ?_⟩, ?_⟩
  · obtain ⟨d, hd, hbytes⟩ := rx_bytes hres hpipe hstep hr
    have hpos := List.length_pos_of_ne_nil hd
    rw [hbytes, List.length_append]
    omega
  · rw [HtcSess.rest, if_pos hres]
    rw [HtcSess.step, HttpConn.rx, if_neg (by simp [hres])] at hstep
    simp only at hstep
    split at hstep
    next hfull =>
      cases hstep
      exact .full (w := []) (fun c hmem => absurd hmem List.not_mem_nil) rfl
        (by dsimp only [HtcSess.header]; omega) hnone rfl
    next hroom =>
      split at hstep
      next heof =>
        cases hstep
        have hfd := fd_read_eof h.pieces (by omega) heof
        refine .closed rfl ?_
        rw [hfd, List.flatten_nil, List.append_nil, nextBlock, hnone]
        rfl
      next hdata =>
        generalize ((st.htc.space : Int) - st.htc.rxbuf.length - 1).toNat = k at hstep hdata
        obtain ⟨r', hc, -, hasked⟩ := asked_complete st
          { st.htc with rxbuf := st.htc.rxbuf ++ (st.htc.fd.read k).1, fd := (st.htc.fd.read k).2 } hres hpipe
        rw [hc] at hstep
        cases hstep
        rw [List.append_assoc, fd_read_flatten] at hasked
        exact hasked

/-! ## The loops -/

lemma waitHeader_spec {st : HtcSess} {fuel : Nat} (h : HtcInv s st) {ms : List (List UInt8 × List UInt8)} {i : Int}
    (hasked : Asked ms t (i, st)) (hi : 0 ≤ i) (hfuel : st.htc.fd.flatten.length < fuel) :
    ∃ r, HtcSess.waitHeader fuel (i, st) = some r ∧ r.1 ≠ 0 ∧ Asked ms t r ∧ (0 ≤ r.1 → HtcInv s r.2) := by
  induction fuel generalizing st i with
  | zero => exact absurd hfuel (Nat.not_lt_zero _)
  | succ fuel ih =>
    rw [HtcSess.waitHeader]
    by_cases h0 : i = 0
    · subst h0
      rw [if_pos rfl]
      obtain ⟨w, hw, hms, hres, ht⟩ : ∃ w, AllSpace w ∧ st.messages = ms ∧ st.htc.reserved = true ∧ t = w ++ st.rest := by
        cases hasked with
        | more hw hms hres ht => exact ⟨_, hw, hms, hres, ht⟩
      obtain ⟨⟨j, st'⟩, hstep, hinv, hrx⟩ := asked_rx h hres
      have hnext := Asked.trans hw hms ht hrx
      dsimp only at hstep hinv ⊢
      rw [hstep, Option.bind_some]
      by_cases hj : 0 ≤ j
      · obtain ⟨hinv', hlt⟩ := hinv hj
        exact ih hinv' hnext hj (by omega)
      · refine ⟨(j, st'), ?_, by dsimp only; omega, hnext, fun hj' => absurd hj' hj⟩
        cases fuel with
        | zero => rw [HtcSess.waitHeader, if_neg (by dsimp only; omega)]
        | succ fuel => rw [HtcSess.waitHeader, if_neg (by dsimp only; omega)]
    · rw [if_neg h0]
      exact ⟨(i, st), rfl, h0, hasked, fun _ => h⟩

lemma addBody_concat (ms : List (List UInt8 × List UInt8)) (b d d' : List UInt8) :
    HtcSess.addBody (ms ++ [(b, d)]) d' = ms ++ [(b, d ++ d')] := by
  induction ms with
  | nil => rfl
  | cons m ms ih =>
    cases ms with
    | nil => rfl
    | cons n ms =>
      rw [List.cons_append, List.cons_append, HtcSess.addBody, ← List.cons_append, ih]
      rfl

/-- `HTC_Read` gives no more than it is asked for, and something as long as there is something. -/
lemma htcRead_length {htc : HttpConn} (hpieces : ∀ d ∈ htc.fd, d ≠ []) {len : Nat} (hlen : 0 < len) :
    (htc.read len).1.length ≤ len ∧ ((htc.read len).1 = [] → htc.pipeline.getD [] ++ htc.fd.flatten = []) := by
  unfold HttpConn.read
  generalize htc.pipeline.getD [] = p
  simp only
  split
  next hle =>
    refine ⟨List.length_take_le _ _, fun hnil => ?_⟩
    dsimp only at hnil
    rw [hnil, List.length_nil] at hle
    omega
  next hlt =>
    have hread := fd_read_length (len - (p.take len).length) htc.fd
    refine ⟨by rw [List.length_append]; omega, fun hnil => ?_⟩
    obtain ⟨hp, hd⟩ := List.append_eq_nil_iff.mp hnil
    have hfd := fd_read_eof hpieces (by omega) hd
    rw [hfd, List.flatten_nil, List.append_nil]
    exact (List.take_eq_nil_iff.mp hp).resolve_left (by omega)

lemma step_read (st : HtcSess) (len : Nat) : st.step (.read len) =
    some (((st.htc.read len).1.length : Int),
      ⟨(st.htc.read len).2, HtcSess.addBody st.messages (st.htc.read len).1⟩) := rfl

lemma readBody_spec (hroom : ∀ k, 0 < room k) {st : HtcSess} (h : HtcInv s st) (hres : st.htc.reserved = false)
    {ms : List (List UInt8 × List UInt8)} {b d : List UInt8} (hms : st.messages = ms ++ [(b, d)]) {fuel : Nat}
    (len : Nat) (hfuel : st.rest.length < fuel) :
    ∃ r, HtcSess.readBody room fuel len st = some r ∧ HtcInv s r.2 ∧ r.2.messages = ms ++ [(b, d ++ st.rest.take len)] ∧
      r.2.rest = st.rest.drop len ∧ (r.1 = 1 ∧ len ≤ st.rest.length ∨ r.1 = 0 ∧ st.rest.length < len) := by
  induction fuel generalizing st d len with
  | zero => exact absurd hfuel (Nat.not_lt_zero _)
  | succ fuel ih =>
    rw [HtcSess.readBody]
    by_cases h0 : len = 0
    · rw [if_pos h0, h0]
      exact ⟨(1, st), rfl, h, by rw [hms, List.take_zero, List.append_nil], rfl, Or.inl ⟨rfl, Nat.zero_le _⟩⟩
    · rw [if_neg h0]
      have hpos : 0 < min (room fuel) len := Nat.lt_min.mpr ⟨hroom fuel, Nat.pos_of_ne_zero h0⟩
      obtain ⟨r, hstep, -, hinv⟩ := h.read hres (min (room fuel) len)
      obtain ⟨hbytes, hres', -⟩ := read_spec st.htc (min (room fuel) len)
      obtain ⟨hle, hnil⟩ := htcRead_length h.pieces hpos
      have hrest : st.rest = st.htc.pipeline.getD [] ++ st.htc.fd.flatten := by
        rw [HtcSess.rest, if_neg (by simp [hres])]
      rw [← hrest] at hbytes hnil
      rw [step_read] at hstep ⊢
      obtain rfl := Option.some.inj hstep
      generalize st.htc.read (min (room fuel) len) = got at hbytes hres' hle hnil hinv
      obtain ⟨d', htc⟩ := got
      dsimp only at hbytes hres' hle hnil hinv ⊢
      have hrest' : ({ htc := htc, messages := HtcSess.addBody st.messages d' } : HtcSess).rest =
          htc.pipeline.getD [] ++ htc.fd.flatten := by
        rw [HtcSess.rest, if_neg (by simp [hres', hres])]
      rw [← hrest'] at hbytes
      rw [hms, addBody_concat] at hinv hbytes ⊢
      have hlen : d'.length ≤ len := hle.trans (Nat.min_le_right _ _)
      by_cases hd : d' = []
      · have hempty := hnil hd
        refine ⟨(0, ⟨htc, ms ++ [(b, d ++ d')]⟩), ?_, hinv, ?_, ?_, Or.inr ⟨rfl, ?_⟩⟩
        · rw [Option.bind_some, if_pos (by rw [hd]; rfl), hd]
          rfl
        · rw [hempty, hd, List.take_nil]
        · rw [hempty, List.drop_nil]
          exact (List.append_eq_nil_iff.mp (hbytes.trans hempty)).2
        · rw [hempty]
          exact Nat.pos_of_ne_zero h0
      · have hdpos := List.length_pos_of_ne_nil hd
        have hsum := congrArg List.length hbytes
        rw [List.length_append] at hsum
        obtain ⟨r, hrun, hinv', hmsgs, hrestr, hend⟩ := ih hinv (hres'.trans hres) rfl
          (len - d'.length) (by omega)
        refine ⟨r, ?_, hinv', ?_, ?_, ?_⟩
        · rw [Option.bind_some, if_neg (by dsimp only; omega)]
          exact hrun
        · rw [hmsgs, ← hbytes, List.take_append, List.take_of_length_le hlen, List.append_assoc]
        · rw [hrestr, ← hbytes, List.drop_append, List.drop_of_length_le hlen, List.nil_append]
        · omega

/-- The buffer is full, without a whole header in it. -/
structure Overflowed (s : List UInt8) (st : HtcSess) : Prop where
  full : st.htc.space ≤ st.htc.rxbuf.length + 1
  waits : headerEnd (stripped st.htc.rxbuf) = none
  spells : ∃ w, AllSpace w ∧ Spells st.messages s (w ++ (st.htc.rxbuf ++ st.htc.fd.flatten))

lemma Asked.length {ms : List (List UInt8 × List UInt8)} {r : Int × HtcSess} (h : Asked ms t r) (hr : 0 ≤ r.1) :
    r.2.htc.fd.flatten.length ≤ t.length ∧ r.2.rest.length ≤ t.length := by
  have hle : r.2.htc.fd.flatten.length ≤ r.2.rest.length := by
    rw [HtcSess.rest, List.length_append]
    omega
  cases h with
  | more _ _ _ ht =>
    rw [ht, List.length_append]
    dsimp only at hle ⊢
    omega
  | header _ _ _ _ ht =>
    rw [ht, List.length_append]
    dsimp only at hle ⊢
    omega
  | closed => exact absurd (show (0 : Int) ≤ -1 from hr) (by decide)
  | full => exact absurd (show (0 : Int) ≤ -2 from hr) (by decide)

lemma strippedMessages_concat (ms : List (List UInt8 × List UInt8)) (b d : List UInt8) :
    strippedMessages (ms ++ [(b, d)]) = strippedMessages ms ++ [(stripped b, d)] := List.map_append

/-- The loop of a caller, from any state between messages. -/
lemma serve_spec (hroom : ∀ k, 0 < room k) {fuel : Nat} {ns : List Nat} {st : HtcSess} (h : HtcInv s st)
    (hfuel : st.rest.length < fuel) :
    ∃ r, HtcSess.serve room fuel ns st = some r ∧
      strippedMessages r.2.messages <+: strippedMessages st.messages ++ frames ns st.rest ∧
      (r.1 ≠ -2 → strippedMessages r.2.messages = strippedMessages st.messages ++ frames ns st.rest) ∧
      (r.1 = -2 → Overflowed s r.2) := by
  induction ns generalizing st with
  | nil =>
    refine ⟨(1, st), rfl, ?_, fun _ => (List.append_nil _).symm, fun h1 => ?_⟩
    · exact List.prefix_append _ _
    · exact absurd (show (1 : Int) = -2 from h1) (by decide)
  | cons n ns ih =>
    obtain ⟨⟨i, st0⟩, hfirst, hi, hinv0, hasked⟩ := asked_first h
    have hle := hasked.length hi
    obtain ⟨r1, hwait, hr1, hasked1, hinv1⟩ := waitHeader_spec hinv0 hasked hi (hle.1.trans_lt hfuel)
    rw [HtcSess.serve, hfirst, Option.bind_some, hwait, Option.bind_some]
    have hlen1 := hasked1.length
    cases hasked1 with
    | more => exact absurd rfl hr1
    | closed hms hnone =>
      have hframes : frames (n :: ns) st.rest = [] := by rw [frames, hnone]
      rw [if_neg (by dsimp only; omega), hframes, List.append_nil]
      refine ⟨_, rfl, by rw [hms], fun _ => by rw [hms], fun h1 => ?_⟩
      exact absurd (show (-1 : Int) = -2 from h1) (by decide)
    | @full st1 w hw hms hfull hnone ht =>
      rw [if_neg (by dsimp only; omega)]
      refine ⟨_, rfl, ?_, fun h1 => absurd rfl h1, fun _ => ⟨hfull, hnone, ?_⟩⟩
      · rw [hms]
        exact List.prefix_append _ _
      · obtain ⟨w0, hw0, -, hspells⟩ := h.spells
        refine ⟨w0 ++ w, fun c hc => (List.mem_append.mp hc).elim (hw0 c) (hw c), ?_⟩
        rw [hms, List.append_assoc, ← ht]
        exact hspells
    | @header st1 w b hw hb hms hres ht =>
      have hlen := hlen1 Int.one_nonneg
      have hnext : nextBlock st.rest = some (stripped b, st1.rest) := by
        rw [ht]
        exact nextBlock_of_isBlock hb hw _
      have hframes : frames (n :: ns) st.rest = (stripped b, st1.rest.take n) :: frames ns (st1.rest.drop n) := by
        rw [frames, hnext]
      obtain ⟨r2, hbody, hinv2, hms2, hrest2, hend⟩ := readBody_spec hroom (hinv1 Int.one_nonneg) hres hms n
        (hlen.2.trans_lt hfuel)
      have hmsgs : strippedMessages r2.2.messages =
          strippedMessages st.messages ++ [(stripped b, st1.rest.take n)] := by
        rw [hms2, List.nil_append, strippedMessages_concat]
      have hall : strippedMessages st.messages ++ frames (n :: ns) st.rest =
          strippedMessages r2.2.messages ++ frames ns r2.2.rest := by
        rw [hmsgs, hframes, hrest2, List.append_assoc, List.singleton_append]
      rw [if_pos rfl, hbody, Option.bind_some, hall]
      rcases hend with ⟨hdone, -⟩ | ⟨hshort, hlt⟩
      · rw [if_pos hdone]
        refine ih hinv2 ?_
        rw [hrest2, List.length_drop]
        have hle2 := hlen.2
        dsimp only at hle2
        omega
      · have hempty : r2.2.rest = [] := by
          rw [hrest2]
          exact List.drop_of_length_le hlt.le
        rw [if_neg (by omega), hempty, frames_nil, List.append_nil]
        exact ⟨r2, rfl, List.prefix_rfl, fun _ => rfl, fun h1 => by omega⟩

/-- Two connections that carry the same bytes in other pieces, and calls on each that do not overflow its buffer.
Every byte is in the messages, in order, or in what is left; messages with as many bytes behind each header are the
same; one that waits at its end has got all headers; and a call fails no assertion. The loop of a caller ends with
the messages of the whole stream, for bodies of any lengths that are read in any pieces, unless a header does not
fit. -/
theorem htc_framing (space space' : Nat) {fd fd' : Fd} (hne : ∀ d ∈ fd, d ≠ []) (hne' : ∀ d ∈ fd', d ≠ [])
    (heq : fd.flatten = fd'.flatten) {calls calls' : List HtcCall} {st st' : HtcSess}
    (hrun : (HtcSess.init space fd).run calls = some st) (hrun' : (HtcSess.init space' fd').run calls' = some st') :
    (∃ w, AllSpace w ∧ (st.htc.reserved = false → w = []) ∧ Spells st.messages fd.flatten (w ++ st.rest)) ∧
      (bodyLengths st.messages = bodyLengths st'.messages →
        strippedMessages st.messages = strippedMessages st'.messages) ∧
      (st.htc.reserved = true → st.htc.fd = [] → bodyLengths st.messages <+: bodyLengths st'.messages →
        bodyLengths st'.messages = bodyLengths st.messages) ∧
      (∀ call, st.mayCall call = true → ∃ r, st.step call = some r ∧ (r.1 = -1 → st.htc.fd = [])) ∧
      ∀ (room : Nat → Nat) (fuel : Nat) (ns : List Nat), (∀ k, 0 < room k) → fd.flatten.length < fuel →
        ∃ r, (HtcSess.init space fd).serve room fuel ns = some r ∧
          strippedMessages r.2.messages <+: frames ns fd.flatten ∧
          (r.1 ≠ -2 → strippedMessages r.2.messages = frames ns fd.flatten) ∧ (r.1 = -2 → Overflowed fd.flatten r.2) := by
  have hinv := (HtcInv.init space hne).run hrun
  have hinv' := (HtcInv.init space' hne').run hrun'
  rw [← heq] at hinv'
  obtain ⟨w, -, hframe⟩ := hinv.frame_eq
  obtain ⟨w', -, hframe'⟩ := hinv'.frame_eq
  refine ⟨hinv.spells, ?_, ?_, ?_, ?_⟩
  · intro hlen
    rw [hlen, hframe', Option.some.injEq, Prod.mk.injEq] at hframe
    exact hframe.1.symm
  · rintro hres hfd ⟨ns, hns⟩
    cases ns with
    | nil => rw [← hns, List.append_nil]
    | cons n ns =>
      rw [← hns, hinv.no_more hres hfd] at hframe'
      cases hframe'
  · intro call hmay
    obtain ⟨r, hstep, -, heof⟩ := hinv.step hmay
    exact ⟨r, hstep, heof⟩
  · intro room fuel ns hroom hfuel
    exact serve_spec hroom (HtcInv.init space hne) hfuel

/-- Two requests, the first one with a body of two bytes, in one piece and in seven, and the loop over the seven. -/
theorem htc_framing_pieces :
    let bytes : List UInt8 := [0x0d, 0x0a, 0x61, 0x0d, 0x0a, 0x0d, 0x0a, 0x78, 0x79, 0x0a, 0x62, 0x0a, 0x0a]
    let cut : Fd := [bytes.take 2, (bytes.drop 2).take 2, (bytes.drop 4).take 3,
      [0x78], [0x79, 0x0a], [0x62, 0x0a], [0x0a]]
    let st : HtcSess := ⟨⟨[0x0a, 0x62, 0x0a, 0x0a], none, 64, false, []⟩,
      [([0x0d, 0x0a, 0x61, 0x0d, 0x0a, 0x0d, 0x0a], [0x78, 0x79]), ([0x0a, 0x62, 0x0a, 0x0a], [])]⟩
    let st' : HtcSess := ⟨⟨[0x62, 0x0a, 0x0a], none, 32, false, []⟩,
      [([0x61, 0x0d, 0x0a, 0x0d, 0x0a], [0x78, 0x79]), ([0x62, 0x0a, 0x0a], [])]⟩
    (HtcSess.init 64 [bytes]).run [.complete, .rx, .read 2, .reinit] = some st ∧
      (HtcSess.init 32 cut).run [.rx, .rx, .complete, .rx, .read 2, .read 1, .reinit, .rx, .rx, .complete, .rx] =
        some st' ∧
      strippedMessages st.messages = strippedMessages st'.messages ∧
      ∃ r, (HtcSess.init 32 cut).serve (fun _ => 1) 14 [2, 0, 0] = some r ∧
        strippedMessages r.2.messages = [([0x61, 0x0d, 0x0a, 0x0d, 0x0a], [0x78, 0x79]), ([0x62, 0x0a, 0x0a], [])] := by
  intro bytes cut st st'
  have hrun : (HtcSess.init 64 [bytes]).run [.complete, .rx, .read 2, .reinit] = some st := by decide
  have hrun' : (HtcSess.init 32 cut).run [.rx, .rx, .complete, .rx, .read 2, .read 1, .reinit, .rx, .rx, .complete, .rx] =
      some st' := by decide
  have hsame := (htc_framing 64 32 (by decide) (by decide) (by decide) hrun hrun').2.1 (by decide)
  obtain ⟨-, -, -, -, hloop⟩ := htc_framing 32 64 (by decide) (by decide) (by decide) hrun' hrun
  obtain ⟨r, hserve, -, hframes, hfull⟩ := hloop (fun _ => 1) 14 [2, 0, 0] (fun _ => Nat.one_pos) (by decide)
  refine ⟨hrun, hrun', hsame, r, hserve, ?_⟩
  have hopen : ((HtcSess.init 32 cut).serve (fun _ => 1) 14 [2, 0, 0]).map Prod.fst ≠ some (-2) := by decide
  rw [hserve] at hopen
  rw [hframes (fun h => hopen (congrArg some h))]
  decide

end VarnishCache.Proofs
