import VarnishCache.Wrw
import Mathlib.Tactic

/-!
# Chunks on the wire

Between `WRW_Chunked` and `WRW_EndChunk` every flush sends what was written since the last one as one chunk, or
nothing if that is empty.
-/

namespace VarnishCache.Proofs

open VarnishCache

variable {wrw : Wrw} {takes : List (Option Nat)} {iov pre data : List (List UInt8)} {i liov : Nat} {fd : Int}

/-- Every `writev` sends something. -/
def Sends (takes : List (Option Nat)) : Prop := ∀ t ∈ takes, ∃ i, t = some i ∧ 0 < i

lemma cutIov_flatten (i : Nat) (iov : List (List UInt8)) : (cutIov i iov).flatten = iov.flatten.drop i := by
  induction iov generalizing i with
  | nil => simp [cutIov]
  | cons v iov ih =>
    rw [cutIov]
    split
    next hlt => rw [List.flatten_cons, List.flatten_cons, List.drop_append_of_le_length hlt.le]
    next hle =>
      rw [ih, List.flatten_cons, List.drop_append, List.drop_of_length_le (by omega : v.length ≤ i), List.nil_append]

/-- However much each `writev` takes, in the end all is sent. -/
lemma send_eq (iov : List (List UInt8)) (liov : Nat) (h : Sends takes) (hlen : iov.flatten.length = liov)
    (hpos : 0 < liov) :
    ∃ takes', Wrw.send takes iov liov = (iov.flatten, takes', true) ∧ Sends takes' := by
  induction takes generalizing iov liov with
  | nil => exact ⟨[], by simp [Wrw.send, hlen], h⟩
  | cons t takes ih =>
    obtain ⟨i, rfl, hi⟩ := h t List.mem_cons_self
    have htail : Sends takes := fun t ht => h t (List.mem_cons_of_mem _ ht)
    rw [Wrw.send]
    simp only
    split
    next heq =>
      refine ⟨takes, ?_, htail⟩
      rw [heq, ← hlen, List.take_length]
      simp [hlen, hpos]
    next hne =>
      rw [if_neg (by omega)]
      have hcut : (cutIov (min i iov.flatten.length) iov).flatten.length = liov - min i iov.flatten.length := by
        rw [cutIov_flatten, List.length_drop, hlen]
      obtain ⟨takes', hsend, hgood⟩ := ih _ _ htail hcut (by omega)
      refine ⟨takes', ?_, hgood⟩
      rw [hsend, cutIov_flatten, List.take_append_drop]

/-- The vector is in use on an open connection and nothing has failed. -/
structure Ready (wrw : Wrw) (fd : Int) : Prop where
  wfd : wrw.wfd = some fd
  fd_nonneg : 0 ≤ fd
  werr : wrw.werr = 0
  takes : Sends wrw.takes
  liov : wrw.liov = wrw.iov.flatten.length
  siov_ge : 4 ≤ wrw.siov
  siov_le : wrw.siov ≤ 2 ^ 17

/-- In chunked mode: what was there before the chunk, the place for its header, and its data. -/
structure Chunking (wrw : Wrw) (fd : Int) (pre data : List (List UInt8)) : Prop extends Ready wrw fd where
  iov : wrw.iov = pre ++ [] :: data
  ciov : wrw.ciov = pre.length
  cliov : wrw.cliov = data.flatten.length
  niov : pre.length + data.length + 1 < wrw.siov
  small : ∀ d ∈ data, d.length < 2 ^ 31

/-- A chunk with its data `d`. -/
def chunk (d : List UInt8) : List UInt8 := if d = [] then [] else chunkHeader d.length ++ d ++ [chCr, chNl]

lemma chunkHeader_tail (n : Nat) : (chunkHeader n).drop ((chunkHeader n).length - 2) = [chCr, chNl] := by
  unfold chunkHeader
  rw [List.drop_append, List.length_append]
  simp

lemma flush_raw (h : Ready wrw fd) (hraw : wrw.ciov = wrw.siov) : ∃ wrw', wrw.flush = some wrw' ∧ Ready wrw' fd ∧
    wrw'.iov = [] ∧ wrw'.ciov = wrw'.siov ∧ wrw'.siov = wrw.siov ∧ wrw'.wire = wrw.wire ++ wrw.iov.flatten := by
  have hmode : wrw.chunked = false := by simp [Wrw.chunked, hraw]
  unfold Wrw.flush
  simp only [h.wfd, hmode, h.fd_nonneg, h.werr, Bool.false_eq_true, false_and, if_false, true_and, and_true]
  by_cases hpos : 0 < wrw.liov
  · obtain ⟨takes', hsend, hgood⟩ := send_eq wrw.iov wrw.liov h.takes h.liov.symm hpos
    rw [if_pos hpos, hsend]
    exact ⟨_, rfl, ⟨rfl, h.fd_nonneg, rfl, hgood, rfl, h.siov_ge, h.siov_le⟩, rfl, hraw, rfl, rfl⟩
  · rw [if_neg hpos]
    have hempty : wrw.iov.flatten = [] := List.length_eq_zero_iff.mp (by rw [← h.liov]; omega)
    exact ⟨_, rfl, ⟨h.wfd, h.fd_nonneg, h.werr, h.takes, rfl, h.siov_ge, h.siov_le⟩, rfl, hraw, rfl, by simp [hempty]⟩

lemma flush_chunking (h : Chunking wrw fd pre data) : ∃ wrw', wrw.flush = some wrw' ∧ Chunking wrw' fd [] [] ∧
    wrw'.siov = wrw.siov ∧ wrw'.wire = wrw.wire ++ pre.flatten ++ chunk data.flatten := by
  have hniov := h.niov
  have hmode : wrw.chunked = true := by
    simp only [Wrw.chunked, h.ciov, decide_eq_true_eq]
    omega
  have hlen : wrw.niov = pre.length + data.length + 1 := by
    simp only [Wrw.niov, h.iov, List.length_append, List.length_cons]
    omega
  have hset : ∀ v, wrw.iov.set wrw.ciov v = pre ++ v :: data := by
    intro v
    rw [h.iov, h.ciov]
    simp
  have hliov : wrw.liov = pre.flatten.length + data.flatten.length := by
    rw [h.liov, h.iov]
    simp
  unfold Wrw.flush
  simp only [h.wfd, hmode, h.fd_nonneg, h.werr, true_and, and_true]
  rw [if_neg (by omega)]
  by_cases hpos : 0 < wrw.liov
  · rw [if_pos hpos]
    by_cases hdata : 0 < wrw.cliov
    · rw [h.cliov] at hdata
      have hne : data.flatten ≠ [] := List.length_pos_iff.mp hdata
      simp only [h.cliov, hdata, if_true, hset, chunkHeader_tail]
      obtain ⟨takes', hsend, hgood⟩ := send_eq (pre ++ chunkHeader data.flatten.length :: data ++ [[chCr, chNl]])
        (wrw.liov + (chunkHeader data.flatten.length).length + 2) h.takes (by simp [hliov]; omega) (by omega)
      rw [hsend]
      refine ⟨_, rfl, ⟨⟨rfl, h.fd_nonneg, rfl, hgood, rfl, h.siov_ge, h.siov_le⟩, rfl, rfl, rfl, ?_, ?_⟩, rfl, ?_⟩
      · change 1 < wrw.siov
        omega
      · intro d hd
        cases hd
      · simp [chunk, hne]
    · have hempty : data.flatten = [] := by
        rw [h.cliov] at hdata
        exact List.length_eq_zero_iff.mp (by omega)
      simp only [if_neg hdata, if_true, hset]
      obtain ⟨takes', hsend, hgood⟩ := send_eq (pre ++ [] :: data) wrw.liov h.takes (by simp [hliov]) hpos
      rw [hsend]
      refine ⟨_, rfl, ⟨⟨rfl, h.fd_nonneg, rfl, hgood, rfl, h.siov_ge, h.siov_le⟩, rfl, rfl, rfl, ?_, ?_⟩, rfl, ?_⟩
      · change 1 < wrw.siov
        omega
      · intro d hd
        cases hd
      · simp [chunk, hempty]
  · rw [if_neg hpos]
    have hpre : pre.flatten = [] := List.length_eq_zero_iff.mp (by omega)
    have hdata : data.flatten = [] := List.length_eq_zero_iff.mp (by omega)
    refine ⟨_, rfl, ⟨⟨h.wfd, h.fd_nonneg, h.werr, h.takes, rfl, h.siov_ge, h.siov_le⟩, rfl, rfl, rfl, ?_, ?_⟩, rfl, ?_⟩
    · change 1 < wrw.siov
      omega
    · intro d hd
      cases hd
    · simp [hpre, hdata, chunk]

lemma flatten_length_lt (hsmall : ∀ d ∈ data, d.length < 2 ^ 31) (hlen : data.length < 2 ^ 17) :
    data.flatten.length < 2 ^ 63 := by
  have hle : data.flatten.length ≤ data.length * 2 ^ 31 := by
    clear hlen
    induction data with
    | nil => simp
    | cons d data ih =>
      have hd := hsmall d List.mem_cons_self
      have hrec := ih (fun e he => hsmall e (List.mem_cons_of_mem d he))
      simp only [List.flatten_cons, List.length_append, List.length_cons]
      omega
  omega

/-- What was sent and is to be sent: `raw`, and `payload` in chunks, the last of which is not yet sent. -/
structure Carries (wrw : Wrw) (fd : Int) (raw payload : List UInt8) (pre data : List (List UInt8)) : Prop
    extends Chunking wrw fd pre data where
  chunks : ∃ chunks : List (List UInt8), wrw.wire ++ pre.flatten = raw ++ (chunks.map chunk).flatten ∧
    chunks.flatten ++ data.flatten = payload ∧ ∀ c ∈ chunks, c.length < 2 ^ 63

variable {raw payload : List UInt8}

lemma Carries.flush (h : Carries wrw fd raw payload pre data) :
    ∃ wrw', wrw.flush = some wrw' ∧ Carries wrw' fd raw payload [] [] := by
  obtain ⟨wrw', hflush, hch, hsiov, hwire⟩ := flush_chunking h.toChunking
  obtain ⟨chunks, hraw, hpay, hbound⟩ := h.chunks
  refine ⟨wrw', hflush, hch, chunks ++ [data.flatten], ?_, ?_, ?_⟩
  · rw [hwire, hraw]
    simp
  · rw [← hpay]
    simp
  · have hniov := h.niov
    have hhi := h.siov_le
    intro c hc
    rcases List.mem_append.mp hc with hc | hc
    · exact hbound c hc
    · rw [List.mem_singleton.mp hc]
      exact flatten_length_lt h.small (by omega)

/-- An entry for the chunk, where there is room for it and for the end of the chunk. -/
lemma Carries.push (h : Carries wrw fd raw payload pre data) (hroom : wrw.niov + 1 < wrw.siov) {d : List UInt8}
    (hd : d.length < 2 ^ 31) :
    Carries { wrw with iov := wrw.iov ++ [d], liov := wrw.liov + d.length, cliov := wrw.cliov + d.length } fd raw
      (payload ++ d) pre (data ++ [d]) := by
  obtain ⟨chunks, hraw, hpay, hbound⟩ := h.chunks
  refine ⟨⟨⟨h.wfd, h.fd_nonneg, h.werr, h.takes, ?_, h.siov_ge, h.siov_le⟩, ?_, h.ciov, ?_, ?_, ?_⟩, chunks, hraw, ?_,
    hbound⟩
  · simp [h.liov]
  · simp [h.iov]
  · simp [h.cliov]
  · simp only [Wrw.niov, h.iov, List.length_append, List.length_cons] at hroom
    simp only [List.length_append, List.length_singleton]
    omega
  · intro e he
    rcases List.mem_append.mp he with he | he
    · exact h.small e he
    · rw [List.mem_singleton.mp he]
      exact hd
  · rw [← hpay]
    simp

lemma Carries.chunked (h : Carries wrw fd raw payload pre data) : wrw.chunked = true := by
  have hniov := h.niov
  simp only [Wrw.chunked, h.ciov, decide_eq_true_eq]
  omega

lemma Carries.niov_eq (h : Carries wrw fd raw payload pre data) : wrw.niov = pre.length + data.length + 1 := by
  simp only [Wrw.niov, h.iov, List.length_append, List.length_cons]
  omega

lemma Carries.write (h : Carries wrw fd raw payload pre data) {ptr : List UInt8} {len : Int} (hlen : len ≠ 0)
    (hd : (if len = -1 then cstr ptr else ptr.take len.toNat).length < 2 ^ 31) :
    ∃ wrw' pre' data', wrw.write ptr len = some wrw' ∧
      Carries wrw' fd raw (payload ++ if len = -1 then cstr ptr else ptr.take len.toNat) pre' data' := by
  generalize hdata : (if len = -1 then cstr ptr else ptr.take len.toNat) = d at hd ⊢
  have hfd := h.fd_nonneg
  -- one entry is kept for the end of the chunk, and a flush makes room
  have hroom : ∃ wrw1 pre' data', (if wrw.siov - (if wrw.chunked then 1 else 0) ≤ wrw.niov then wrw.flush
      else some wrw) = some wrw1 ∧ Carries wrw1 fd raw payload pre' data' ∧ wrw1.niov + 1 < wrw1.siov := by
    rw [if_pos h.chunked]
    split
    next =>
      obtain ⟨wrw', hflush, hc⟩ := h.flush
      refine ⟨wrw', [], [], hflush, hc, ?_⟩
      rw [hc.niov_eq]
      have hlo := hc.siov_ge
      simp only [List.length_nil]
      omega
    next hlt => exact ⟨wrw, pre, data, rfl, h, by omega⟩
  obtain ⟨wrw1, pre', data', hsome, hc, hlt⟩ := hroom
  have hpush := hc.push hlt hd
  refine ⟨_, pre', data' ++ [d], ?_, hpush⟩
  unfold Wrw.write
  rw [h.wfd]
  simp only [hdata]
  rw [if_neg (by omega), hsome]
  have hmode : Wrw.chunked { wrw1 with iov := wrw1.iov ++ [d], liov := wrw1.liov + d.length } = true := hc.chunked
  have hfits : ¬ wrw1.siov ≤ (wrw1.iov ++ [d]).length := by
    simp only [Wrw.niov] at hlt
    simp only [List.length_append, List.length_singleton]
    omega
  simp only [hmode, if_true]
  exact if_neg hfits

/-- Outside chunked mode: `sent` is what was sent and is to be sent. -/
structure Raw (wrw : Wrw) (fd : Int) (sent : List UInt8) : Prop extends Ready wrw fd where
  ciov : wrw.ciov = wrw.siov
  sent : wrw.wire ++ wrw.iov.flatten = sent

variable {sent : List UInt8}

lemma Raw.flush (h : Raw wrw fd sent) : ∃ wrw', wrw.flush = some wrw' ∧ Raw wrw' fd sent ∧ wrw'.iov = [] := by
  obtain ⟨wrw', hflush, hready, hiov, hciov, -, hwire⟩ := flush_raw h.toReady h.ciov
  refine ⟨wrw', hflush, ⟨hready, hciov, ?_⟩, hiov⟩
  rw [hwire, hiov, h.sent, List.flatten_nil, List.append_nil]

lemma Raw.write (h : Raw wrw fd sent) (ptr : List UInt8) {len : Int} (hlen : len ≠ 0) :
    ∃ wrw', wrw.write ptr len = some wrw' ∧
      Raw wrw' fd (sent ++ if len = -1 then cstr ptr else ptr.take len.toNat) := by
  generalize hdata : (if len = -1 then cstr ptr else ptr.take len.toNat) = d
  have hfd := h.fd_nonneg
  have hroom : ∃ wrw1, (if wrw.siov - (if wrw.chunked then 1 else 0) ≤ wrw.niov then wrw.flush else some wrw) = some wrw1 ∧
      Raw wrw1 fd sent := by
    by_cases hfull : wrw.siov - (if wrw.chunked then 1 else 0) ≤ wrw.niov
    · obtain ⟨wrw', hflush, hraw, -⟩ := h.flush
      exact ⟨wrw', by rw [if_pos hfull, hflush], hraw⟩
    · exact ⟨wrw, if_neg hfull, h⟩
  obtain ⟨wrw1, hsome, hraw⟩ := hroom
  have hmode : Wrw.chunked { wrw1 with iov := wrw1.iov ++ [d], liov := wrw1.liov + d.length } = false := by
    simp [Wrw.chunked, hraw.ciov]
  refine ⟨{ wrw1 with iov := wrw1.iov ++ [d], liov := wrw1.liov + d.length }, ?_, ?_⟩
  · unfold Wrw.write
    rw [h.wfd]
    simp only [hdata]
    rw [if_neg (by omega), hsome]
    simp only [hmode, Bool.false_eq_true, if_false]
  · refine ⟨⟨hraw.wfd, hraw.fd_nonneg, hraw.werr, hraw.takes, ?_, hraw.siov_ge, hraw.siov_le⟩, hraw.ciov, ?_⟩
    · simp [hraw.liov]
    · rw [← hraw.sent]
      simp

lemma Raw.header (h : Raw wrw fd sent) (hdr : List (List UInt8)) :
    ∃ wrw', hdr.foldlM (fun (wrw : Wrw) ptr => wrw.write ptr ptr.length) wrw = some wrw' ∧
      Raw wrw' fd (sent ++ hdr.flatten) := by
  induction hdr generalizing wrw sent with
  | nil => exact ⟨wrw, rfl, by simpa using h⟩
  | cons ptr hdr ih =>
    have hstep : ∃ wrw1, wrw.write ptr ptr.length = some wrw1 ∧ Raw wrw1 fd (sent ++ ptr) := by
      cases ptr with
      | nil =>
        refine ⟨wrw, ?_, by simpa using h⟩
        simp [Wrw.write, h.wfd]
      | cons c ptr =>
        have hlen : ((c :: ptr).length : Int) ≠ 0 := by simp only [List.length_cons]; omega
        obtain ⟨wrw1, hwrite, hraw⟩ := h.write (c :: ptr) hlen
        rw [if_neg (by omega), Int.toNat_natCast, List.take_length] at hraw
        exact ⟨wrw1, hwrite, hraw⟩
    obtain ⟨wrw1, hwrite, hraw⟩ := hstep
    obtain ⟨wrw', hrun, hdone⟩ := ih hraw
    refine ⟨wrw', ?_, by simpa using hdone⟩
    rw [List.foldlM_cons, hwrite]
    exact hrun

lemma Raw.beginChunked {chunks : List (List UInt8)} (h : Raw wrw fd (raw ++ (chunks.map chunk).flatten))
    (hbound : ∀ c ∈ chunks, c.length < 2 ^ 63) :
    ∃ wrw' pre, wrw.beginChunked = some wrw' ∧ Carries wrw' fd raw chunks.flatten pre [] := by
  have hroom : ∃ wrw1, (if wrw.siov ≤ wrw.niov + 3 then wrw.flush else some wrw) = some wrw1 ∧
      Raw wrw1 fd (raw ++ (chunks.map chunk).flatten) ∧ wrw1.niov + 1 < wrw1.siov := by
    split
    next =>
      obtain ⟨wrw', hflush, hraw, hiov⟩ := h.flush
      have hlo := hraw.siov_ge
      refine ⟨wrw', hflush, hraw, ?_⟩
      rw [Wrw.niov, hiov, List.length_nil]
      omega
    next => exact ⟨wrw, rfl, h, by omega⟩
  obtain ⟨wrw1, hsome, hraw, hlt⟩ := hroom
  refine ⟨{ wrw1 with ciov := wrw1.niov, iov := wrw1.iov ++ [[]], cliov := 0 }, wrw1.iov, ?_, ?_⟩
  · unfold Wrw.beginChunked
    rw [if_neg (by simp [h.ciov]), hsome]
    simp only
    rw [if_neg (by omega)]
  · refine ⟨⟨⟨hraw.wfd, hraw.fd_nonneg, hraw.werr, hraw.takes, ?_, hraw.siov_ge, hraw.siov_le⟩, rfl, rfl, rfl, ?_, ?_⟩,
      chunks, hraw.sent, by simp, hbound⟩
    · simp [hraw.liov]
    · exact hlt
    · intro d hd
      cases hd

/-- After a flush in chunked mode all is sent. -/
lemma Carries.allSent (h : Carries wrw fd raw payload [] []) : ∃ chunks : List (List UInt8),
    wrw.wire = raw ++ (chunks.map chunk).flatten ∧ chunks.flatten = payload ∧ ∀ c ∈ chunks, c.length < 2 ^ 63 := by
  obtain ⟨chunks, hraw, hpay, hbound⟩ := h.chunks
  exact ⟨chunks, by simpa using hraw, by simpa using hpay, hbound⟩

lemma Carries.esiInclude (h : Carries wrw fd raw payload pre data) :
    ∃ wrw' pre', wrw.call fd .esiInclude = some wrw' ∧ Carries wrw' fd raw payload pre' [] := by
  obtain ⟨wrw1, hflush, hc⟩ := h.flush
  obtain ⟨chunks, hwire, hpay, hbound⟩ := hc.allSent
  have hraw : Raw { wrw1 with werr := 0, liov := 0, iov := [], ciov := wrw1.siov, wfd := some fd } fd
      (raw ++ (chunks.map chunk).flatten) :=
    ⟨⟨rfl, hc.fd_nonneg, rfl, hc.takes, rfl, hc.siov_ge, hc.siov_le⟩, rfl, by simpa using hwire⟩
  obtain ⟨wrw', pre', hbegin, hdone⟩ := hraw.beginChunked hbound
  rw [hpay] at hdone
  refine ⟨wrw', pre', ?_, hdone⟩
  simp only [Wrw.call, Wrw.flushRelease, hflush, Option.bind_some, Wrw.release, hc.wfd, Wrw.reserve]
  exact hbegin

/-- A C `int` holds the length of what is written. -/
def WrwCall.Fits (call : WrwCall) : Prop := call.payload.length < 2 ^ 31

instance (call : WrwCall) : Decidable (WrwCall.Fits call) := inferInstanceAs (Decidable (_ < _))

lemma Carries.call (h : Carries wrw fd raw payload pre data) {call : WrwCall} (hfits : WrwCall.Fits call) :
    ∃ wrw' pre' data', wrw.call fd call = some wrw' ∧ Carries wrw' fd raw (payload ++ call.payload) pre' data' := by
  cases call with
  | write ptr =>
    cases ptr with
    | nil =>
      refine ⟨wrw, pre, data, ?_, by simpa [WrwCall.payload] using h⟩
      simp [Wrw.call, Wrw.write, h.wfd]
    | cons c ptr =>
      have hlen : ((c :: ptr).length : Int) ≠ 0 := by simp only [List.length_cons]; omega
      have hdata : (if ((c :: ptr).length : Int) = -1 then cstr (c :: ptr) else
          (c :: ptr).take ((c :: ptr).length : Int).toNat) = c :: ptr := by
        rw [if_neg (by omega), Int.toNat_natCast, List.take_length]
      obtain ⟨wrw', pre', data', hwrite, hdone⟩ := h.write hlen (by rw [hdata]; exact hfits)
      rw [hdata] at hdone
      exact ⟨wrw', pre', data', hwrite, hdone⟩
  | writeString ptr => exact h.write (by decide) hfits
  | flush =>
    obtain ⟨wrw', hflush, hc⟩ := h.flush
    exact ⟨wrw', [], [], hflush, by simpa [WrwCall.payload] using hc⟩
  | esiInclude =>
    obtain ⟨wrw', pre', hcall, hc⟩ := h.esiInclude
    exact ⟨wrw', pre', [], hcall, by simpa [WrwCall.payload] using hc⟩

lemma Carries.run {calls : List WrwCall} (h : Carries wrw fd raw payload pre data)
    (hfits : ∀ call ∈ calls, WrwCall.Fits call) : ∃ wrw' pre' data', calls.foldlM (Wrw.call fd) wrw = some wrw' ∧
      Carries wrw' fd raw (payload ++ calls.flatMap WrwCall.payload) pre' data' := by
  induction calls generalizing wrw payload pre data with
  | nil => exact ⟨wrw, pre, data, rfl, by simpa using h⟩
  | cons call calls ih =>
    obtain ⟨wrw1, pre1, data1, hcall, hc⟩ := h.call (hfits call List.mem_cons_self)
    obtain ⟨wrw', pre', data', hrun, hdone⟩ := ih hc (fun c hc => hfits c (List.mem_cons_of_mem call hc))
    refine ⟨wrw', pre', data', ?_, by simpa using hdone⟩
    rw [List.foldlM_cons, hcall]
    exact hrun

/-- The end of a chunked body. -/
abbrev lastChunk : List UInt8 := [0x30, chCr, chNl, chCr, chNl]

lemma Carries.endChunk (h : Carries wrw fd raw payload pre data) : ∃ (wrw' : Wrw) (chunks : List (List UInt8)),
    wrw.endChunk.bind Wrw.flushRelease = some wrw' ∧ wrw'.wire = raw ++ (chunks.map chunk).flatten ++ lastChunk ∧
      chunks.flatten = payload ∧ ∀ c ∈ chunks, c.length < 2 ^ 63 := by
  obtain ⟨wrw1, hflush, hc⟩ := h.flush
  obtain ⟨chunks, hwire, hpay, hbound⟩ := hc.allSent
  have hliov : wrw1.liov = 0 := by
    rw [hc.liov, hc.iov]
    rfl
  have hraw : Raw { wrw1 with ciov := wrw1.siov, iov := [], cliov := 0 } fd (raw ++ (chunks.map chunk).flatten) :=
    ⟨⟨hc.wfd, hc.fd_nonneg, hc.werr, hc.takes, hliov, hc.siov_ge, hc.siov_le⟩, rfl, by simpa using hwire⟩
  obtain ⟨wrw2, hwrite, hraw2⟩ := hraw.write lastChunk (show (-1 : Int) ≠ 0 by decide)
  obtain ⟨wrw3, hflush3, hraw3, hiov3⟩ := hraw2.flush
  have hend : wrw.endChunk = some wrw2 := by
    have hlt := h.niov
    unfold Wrw.endChunk
    rw [if_neg (by rw [h.ciov]; omega), hflush]
    exact hwrite
  refine ⟨{ wrw3 with werr := 0, liov := 0, iov := [], ciov := wrw3.siov, wfd := none }, chunks, ?_, ?_, hpay, hbound⟩
  · rw [hend, Option.bind_some, Wrw.flushRelease, hflush3, Option.bind_some, Wrw.release, if_neg (by simp [hraw3.wfd])]
  · have hsent := hraw3.sent
    rw [hiov3, List.flatten_nil, List.append_nil] at hsent
    exact hsent

/-- What `RES_WriteObj` sends in chunked mode. -/
theorem writeObj_chunks {nhttp iovMax : Nat} (hlo : 32 ≤ nhttp) (hhi : nhttp < 2 ^ 16) (hmax : 16 ≤ iovMax)
    (hfd : 0 ≤ fd) (htakes : Sends takes) (hdr : List (List UInt8)) {calls : List WrwCall}
    (hfits : ∀ call ∈ calls, WrwCall.Fits call) : ∃ (wrw : Wrw) (chunks : List (List UInt8)),
      Wrw.writeObj fd hdr calls (.init (wrkSiov nhttp iovMax) takes) = some wrw ∧
        wrw.wire = hdr.flatten ++ (chunks.map chunk).flatten ++ lastChunk ∧
        chunks.flatten = calls.flatMap WrwCall.payload ∧ ∀ c ∈ chunks, c.length < 2 ^ 63 := by
  have hsiov : 4 ≤ wrkSiov nhttp iovMax ∧ wrkSiov nhttp iovMax ≤ 2 ^ 17 := by
    unfold wrkSiov
    split <;> omega
  have hraw0 : Raw { Wrw.init (wrkSiov nhttp iovMax) takes with wfd := some fd } fd [] :=
    ⟨⟨rfl, hfd, rfl, htakes, rfl, hsiov.1, hsiov.2⟩, rfl, rfl⟩
  obtain ⟨wrw1, hhdr, hraw1⟩ := hraw0.header hdr
  have hraw1' : Raw wrw1 fd (hdr.flatten ++ (([] : List (List UInt8)).map chunk).flatten) := by simpa using hraw1
  obtain ⟨wrw2, pre, hbegin, hc2⟩ := hraw1'.beginChunked (fun c hc => absurd hc List.not_mem_nil)
  obtain ⟨wrw3, pre3, data3, hrun, hc3⟩ := hc2.run hfits
  obtain ⟨wrw4, chunks, hend, hwire, hpay, hbound⟩ := hc3.endChunk
  refine ⟨wrw4, chunks, ?_, hwire, by simpa using hpay, hbound⟩
  have hreserve : (Wrw.init (wrkSiov nhttp iovMax) takes).reserve fd =
      some { Wrw.init (wrkSiov nhttp iovMax) takes with wfd := some fd } := rfl
  simp only [Wrw.writeObj, hreserve, bind, Option.bind_some]
  rw [hhdr, Option.bind_some, hbegin, Option.bind_some, hrun, Option.bind_some]
  exact hend

end VarnishCache.Proofs
