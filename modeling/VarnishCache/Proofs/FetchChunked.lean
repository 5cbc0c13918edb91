import VarnishCache.FetchChunked
import VarnishCache.Proofs.HttpConn
import VarnishCache.Proofs.Wrw
import Mathlib.Data.Nat.Digits.Lemmas

/-!
# Chunked bodies, sent and fetched

`fetch_chunked` gets back what was written between `WRW_Chunked` and `WRW_EndChunk`, however the bytes come in.
-/

namespace VarnishCache.Proofs

open VarnishCache

variable {htc : HttpConn} {s d obj : List UInt8} {c : UInt8} {n : Nat} {room : Nat → Nat}

/-- The bytes `s` are to come on the connection. -/
structure Feeds (htc : HttpConn) (s : List UInt8) : Prop where
  pieces : ∀ d ∈ htc.fd, d ≠ []
  bytes : htc.pipeline.getD [] ++ htc.fd.flatten = s

lemma read_length (htc : HttpConn) (len : Nat) : (htc.read len).1.length ≤ len := by
  unfold HttpConn.read
  simp only
  split
  next => exact List.length_take_le len _
  next hlt =>
    have hle := fd_read_length (len - ((htc.pipeline.getD []).take len).length) htc.fd
    simp only [List.length_append]
    omega

lemma read_ne_nil {len : Nat} (h : Feeds htc s) (hs : s ≠ []) (hlen : 0 < len) : (htc.read len).1 ≠ [] := by
  unfold HttpConn.read
  simp only
  split
  next hle =>
    intro h0
    have hzero : ((htc.pipeline.getD []).take len).length = 0 := List.length_eq_zero_iff.mpr h0
    omega
  next hlt =>
    intro h0
    obtain ⟨htake, hread⟩ := List.append_eq_nil_iff.mp h0
    have hpipe : htc.pipeline.getD [] = [] := by
      rcases List.take_eq_nil_iff.mp htake with h1 | h1
      · omega
      · exact h1
    rw [htake, List.length_nil, Nat.sub_zero] at hread
    have hfd := fd_read_eof h.pieces hlen hread
    rw [← h.bytes, hpipe, hfd] at hs
    exact hs rfl

/-- Some of the bytes that are to come are read. -/
lemma Feeds.read {len : Nat} (h : Feeds htc s) (hs : s ≠ []) (hlen : 0 < len) :
    ∃ d r htc', htc.read len = (d, htc') ∧ s = d ++ r ∧ d ≠ [] ∧ d.length ≤ len ∧ Feeds htc' r := by
  obtain ⟨hbytes, -, -, -, hpieces⟩ := read_spec htc len
  exact ⟨(htc.read len).1, _, (htc.read len).2, rfl, by rw [hbytes, h.bytes], read_ne_nil h hs hlen, read_length htc len,
    hpieces h.pieces, rfl⟩

lemma Feeds.byte (h : Feeds htc (c :: s)) : ∃ htc', readByte htc = .ok (c, htc') ∧ Feeds htc' s := by
  obtain ⟨d, r, htc', hread, hs, hd, hlen, hfeeds⟩ := h.read (List.cons_ne_nil c s) Nat.one_pos
  obtain ⟨c', d', rfl⟩ := List.exists_cons_of_ne_nil hd
  obtain rfl : d' = [] := by simpa using hlen
  cases hs
  exact ⟨htc', by rw [readByte, hread], hfeeds⟩

lemma Feeds.nopBytes (obj : List UInt8) (hroom : ∀ n, 0 < room n) (h : Feeds htc (d ++ s)) (hn : d.length ≤ n) :
    ∃ htc', vfpNopBytes room n d.length obj htc = .ok (obj ++ d, htc') ∧ Feeds htc' s := by
  induction n generalizing d obj htc with
  | zero =>
    obtain rfl : d = [] := List.length_eq_zero_iff.mp (by omega)
    exact ⟨htc, by rw [List.append_nil]; rfl, h⟩
  | succ n ih =>
    cases d with
    | nil => exact ⟨htc, by rw [List.append_nil]; rfl, h⟩
    | cons c d =>
      have hpos := hroom obj.length
      obtain ⟨e, r, htc', hread, hs, he, hlen, hfeeds⟩ :=
        h.read (List.cons_ne_nil c _) (show 0 < min (room obj.length) (d.length + 1) by omega)
      have hsplit : ∃ d', e ++ d' = c :: d ∧ r = d' ++ s := by
        obtain ⟨d', hd'⟩ := List.prefix_of_prefix_length_le ⟨r, hs.symm⟩ (List.prefix_append (c :: d) s)
          (by simp only [List.length_cons]; omega)
        refine ⟨d', hd', ?_⟩
        rw [← hd', List.append_assoc] at hs
        exact (List.append_cancel_left hs).symm
      obtain ⟨d', hd', rfl⟩ := hsplit
      have hlen' : d.length + 1 = e.length + d'.length := by
        rw [← List.length_append, hd', List.length_cons]
      have hepos := List.length_pos_iff.mpr he
      simp only [List.length_cons] at hn
      obtain ⟨htc'', hrest, hfeeds'⟩ := ih (obj ++ e) hfeeds (by omega)
      refine ⟨htc'', ?_, hfeeds'⟩
      rw [List.length_cons, vfpNopBytes, if_neg hpos.ne', hread]
      simp only [he, if_false]
      rw [show d.length + 1 - e.length = d'.length by omega, hrest, List.append_assoc, hd']

lemma hexValue_hexChar {d : Nat} (hd : d < 16) : hexValue (hexChar d) = some d := by
  interval_cases d <;> rfl

lemma hexChar_eq_zero {d : Nat} (hd : d < 16) (h : hexChar d = 0x30) : d = 0 := by
  have hv := hexValue_hexChar hd
  rw [h] at hv
  exact (Option.some.inj hv).symm

/-- A printed number has only hexadecimal digits, and as many as its size needs. -/
lemma printHex_digits (n : Nat) : ∀ c ∈ printHex n, vctIshex c = true := by
  intro c hc
  obtain ⟨d, hd, rfl⟩ := List.mem_map.mp hc
  have hlt : d < 16 := Nat.digits_lt_base (by decide) (List.mem_reverse.mp hd)
  rw [vctIshex, hexValue_hexChar hlt]
  rfl

lemma printHex_length (h : n < 2 ^ 63) : (printHex n).length ≤ 16 := by
  rw [printHex, List.length_map, List.length_reverse, Nat.digits_length_le_iff (by decide)]
  exact h.trans (by decide)

lemma printHex_value (n : Nat) : (printHex n).foldl (fun v c => v * 16 + (hexValue c).getD 0) 0 = n := by
  have hfold : ∀ ds : List Nat, (∀ d ∈ ds, d < 16) →
      (ds.reverse.map hexChar).foldl (fun v c => v * 16 + (hexValue c).getD 0) 0 = Nat.ofDigits 16 ds := by
    intro ds hds
    induction ds with
    | nil => rfl
    | cons d ds ih =>
      rw [List.reverse_cons, List.map_append, List.foldl_append, ih (fun e he => hds e (List.mem_cons_of_mem d he)),
        Nat.ofDigits_cons]
      simp only [List.map_cons, List.map_nil, List.foldl_cons, List.foldl_nil, hexValue_hexChar (hds d List.mem_cons_self),
        Option.getD_some]
      omega
  rw [printHex, hfold _ (fun d hd => Nat.digits_lt_base (by decide) hd), Nat.ofDigits_digits]

lemma printHex_cons (h : 0 < n) : ∃ c t, printHex n = c :: t ∧ c ≠ 0x30 := by
  have hne : Nat.digits 16 n ≠ [] := Nat.digits_ne_nil_iff_ne_zero.mpr h.ne'
  have hlast := Nat.getLast_digit_ne_zero 16 h.ne'
  have hlt : (Nat.digits 16 n).getLast hne < 16 := Nat.digits_lt_base (by decide) (List.getLast_mem hne)
  obtain ⟨ds, d, hds⟩ : ∃ ds d, Nat.digits 16 n = ds ++ [d] := ⟨_, _, (List.dropLast_append_getLast hne).symm⟩
  have hd : (Nat.digits 16 n).getLast hne = d := by simp [hds]
  rw [hd] at hlast hlt
  refine ⟨hexChar d, ds.reverse.map hexChar, by simp [printHex, hds], ?_⟩
  intro h0
  exact hlast (hexChar_eq_zero hlt h0)

lemma Feeds.hex {ds : List UInt8} {room : Nat} (buf : List UInt8) (hhex : ∀ c ∈ ds, vctIshex c = true)
    (hc : vctIshex c = false) (hroom : ds.length < room) (h : Feeds htc (ds ++ c :: s)) :
    ∃ htc', collectHex room buf htc = .ok (buf ++ ds, c, htc') ∧ Feeds htc' s := by
  induction room generalizing ds buf htc with
  | zero => cases hroom
  | succ room ih =>
    cases ds with
    | nil =>
      obtain ⟨htc', hread, hfeeds⟩ := h.byte
      refine ⟨htc', ?_, hfeeds⟩
      simp [collectHex, hread, hc, bind, Except.bind]
    | cons d ds =>
      obtain ⟨htc1, hread, hfeeds⟩ := Feeds.byte h
      have hd := hhex d List.mem_cons_self
      obtain ⟨htc', hrest, hfeeds'⟩ := ih (buf ++ [d]) (fun e he => hhex e (List.mem_cons_of_mem d he))
        (by simp only [List.length_cons] at hroom; omega) hfeeds
      refine ⟨htc', ?_, hfeeds'⟩
      simp only [collectHex, hread, bind, Except.bind, hd, if_true, hrest]
      simp

/-- The end of a line that has been read up to its carriage return. -/
lemma Feeds.trailing (hn : 0 < n) (h : Feeds htc (chNl :: s)) :
    ∃ htc', skipTrailing n chCr htc = .ok (chNl, htc') ∧ Feeds htc' s := by
  obtain ⟨m, rfl⟩ := Nat.exists_eq_add_one.mpr hn
  obtain ⟨htc', hread, hfeeds⟩ := h.byte
  refine ⟨htc', ?_, hfeeds⟩
  rw [skipTrailing, if_pos (by decide)]
  simp only [hread, bind, Except.bind]
  unfold skipTrailing
  rw [if_neg (by decide)]

lemma Feeds.first (hn : 0 < n) (hc : vctIslws c = false) (h : Feeds htc (c :: s)) :
    ∃ htc', skipLws n htc = .ok (c, htc') ∧ Feeds htc' s := by
  obtain ⟨m, rfl⟩ := Nat.exists_eq_add_one.mpr hn
  obtain ⟨htc', hread, hfeeds⟩ := h.byte
  refine ⟨htc', ?_, hfeeds⟩
  simp [skipLws, hread, hc, bind, Except.bind]

/-- The two bytes behind the data of a chunk. -/
lemma Feeds.crlf (h : Feeds htc (chCr :: chNl :: s)) : ∃ htc1 htc2, readByte htc = .ok (chCr, htc1) ∧
    readByte htc1 = .ok (chNl, htc2) ∧ Feeds htc2 s := by
  obtain ⟨htc1, hread1, hfeeds1⟩ := h.byte
  obtain ⟨htc2, hread2, hfeeds2⟩ := hfeeds1.byte
  exact ⟨htc1, htc2, hread1, hread2, hfeeds2⟩

/-- A turn of `fetch_chunked` on a chunk with data. -/
lemma Feeds.dataChunk (obj : List UInt8) (hroom : ∀ n, 0 < room n) (hd : d ≠ []) (hlen : d.length < 2 ^ 63)
    (hn : d.length + 2 ≤ n)
    (h : Feeds htc (chunk d ++ s)) :
    ∃ htc', fetchChunk room n obj htc = .ok (d.length, obj ++ d, htc') ∧ Feeds htc' s := by
  obtain ⟨c1, t, hprint, hc1⟩ := printHex_cons (List.length_pos_iff.mpr hd)
  have hbytes : chunk d ++ s = 0x30 :: 0x30 :: c1 :: (t ++ chCr :: (chNl :: (d ++ chCr :: chNl :: s))) := by
    rw [chunk, if_neg hd, chunkHeader, hprint]
    simp
  rw [hbytes] at h
  obtain ⟨htc1, hskip, h1⟩ := h.first (by omega : 0 < n) (by decide)
  -- the second zero is skipped and the first digit comes to its place
  obtain ⟨htc2, hread2, h2⟩ := h1.byte
  obtain ⟨htc3, hread3, h3⟩ := h2.byte
  have hzeros : VarnishCache.skipZeros 0x30 n htc1 = .ok (c1, htc3) := by
    obtain ⟨m, rfl⟩ : ∃ m, n = m + 2 := ⟨n - 2, by omega⟩
    simp [VarnishCache.skipZeros, hread2, hread3, hc1, bind, Except.bind]
  have hhex := printHex_digits d.length
  rw [hprint] at hhex
  have hplen := printHex_length hlen
  rw [hprint, List.length_cons] at hplen
  obtain ⟨htc4, hcollect, h4⟩ := h3.hex [0x30, c1] (fun e he => hhex e (List.mem_cons_of_mem c1 he))
    (by decide : vctIshex chCr = false) (show t.length < 18 by omega)
  obtain ⟨htc5, htrail, h5⟩ := h4.trailing (by omega : 0 < n)
  have hnumber : fetchNumber (0x30 :: c1 :: t) = some d.length := by
    have hval := printHex_value d.length
    rw [hprint] at hval
    have hval' : (0x30 :: c1 :: t).foldl (fun v c => v * 16 + (hexValue c).getD 0) 0 = d.length := hval
    rw [fetchNumber, if_neg (by simp), hval']
    simp only
    rw [Nat.min_eq_left (by omega), if_pos hlen]
  obtain ⟨htc6, hvfp, h6⟩ := Feeds.nopBytes obj hroom h5 (by omega : d.length ≤ n)
  obtain ⟨htc7, htc8, hread7, hread8, h8⟩ := h6.crlf
  refine ⟨htc8, ?_, h8⟩
  simp [fetchChunk, bind, Except.bind, pure, Except.pure, hskip, (by decide : vctIshex 0x30 = true), hzeros,
    hhex c1 List.mem_cons_self, hcollect, htrail, hnumber, hvfp, hread7, hread8]

/-- The last turn. -/
lemma Feeds.lastChunk (room : Nat → Nat) (obj : List UInt8) (hn : 2 ≤ n) (h : Feeds htc (lastChunk ++ s)) :
    ∃ htc', fetchChunk room n obj htc = .ok (0, obj, htc') ∧ Feeds htc' s := by
  obtain ⟨htc1, hskip, h1⟩ := Feeds.first (by omega : 0 < n) (by decide) h
  obtain ⟨htc2, hread2, h2⟩ := h1.byte
  have hzeros : skipZeros 0x30 n htc1 = .ok (chCr, htc2) := by
    obtain ⟨m, rfl⟩ : ∃ m, n = m + 2 := ⟨n - 2, by omega⟩
    simp [skipZeros, hread2, bind, Except.bind, (by decide : chCr ≠ 0x30)]
  obtain ⟨htc3, htrail, h3⟩ := h2.trailing (by omega : 0 < n)
  obtain ⟨htc4, htc5, hread4, hread5, h5⟩ := h3.crlf
  have hvfp : vfpNopBytes room n 0 obj htc3 = .ok (obj, htc3) := by
    cases n <;> rfl
  have hnumber : fetchNumber [0x30] = some 0 := by decide
  refine ⟨htc5, ?_, h5⟩
  simp [fetchChunk, bind, Except.bind, pure, Except.pure, hskip, (by decide : vctIshex 0x30 = true), hzeros,
    (by decide : vctIshex chCr = false), htrail, hnumber, hvfp, hread4, hread5]

/-- `fetch_chunked` on chunks and the end behind them. -/
lemma Feeds.fetch {chunks : List (List UInt8)} {turns : Nat} (obj : List UInt8) (hroom : ∀ n, 0 < room n)
    (hbound : ∀ c ∈ chunks, c.length < 2 ^ 63) (hn : chunks.flatten.length + 2 ≤ n) (hturns : chunks.length < turns)
    (h : Feeds htc ((chunks.map chunk).flatten ++ Proofs.lastChunk ++ s)) :
    ∃ htc', fetchChunked room n turns obj htc = .ok (obj ++ chunks.flatten, htc') ∧ Feeds htc' s := by
  induction chunks generalizing turns obj htc with
  | nil =>
    obtain ⟨turns, rfl⟩ := Nat.exists_eq_add_one.mpr hturns
    obtain ⟨htc', hturn, hfeeds⟩ := Feeds.lastChunk room obj (by omega : 2 ≤ n) h
    refine ⟨htc', ?_, hfeeds⟩
    simp [fetchChunked, hturn, bind, Except.bind]
  | cons d chunks ih =>
    simp only [List.map_cons, List.flatten_cons, List.append_assoc, List.length_append, List.length_cons] at h hn hturns
    obtain ⟨turns, rfl⟩ : ∃ t, turns = t + 1 := ⟨turns - 1, by omega⟩
    have hrec := fun c hc => hbound c (List.mem_cons_of_mem d hc)
    by_cases hd : d = []
    · subst hd
      rw [List.flatten_cons, List.nil_append]
      exact ih obj hrec (by simpa using hn) (by omega) (by simpa [chunk] using h)
    · obtain ⟨htc1, hturn, h1⟩ := Feeds.dataChunk obj hroom hd (hbound d List.mem_cons_self)
        (by omega : d.length + 2 ≤ n) h
      obtain ⟨htc', hrest, hfeeds⟩ := ih (obj ++ d) hrec (by omega) (show chunks.length < turns by omega)
        (by simpa using h1)
      refine ⟨htc', ?_, hfeeds⟩
      have hpos := List.length_pos_iff.mpr hd
      simp [fetchChunked, hturn, bind, Except.bind, hpos, hrest]

/-- What is written between `WRW_Chunked` and `WRW_EndChunk`, on an open connection where each `writev` sends
something, goes out as chunks, none of which is empty but the last. `fetch_chunked` gets it back, whatever pieces
the bytes come in and whatever storage there is, and leaves the bytes behind it. -/
theorem chunked_round_trip {nhttp iovMax : Nat} (hlo : 32 ≤ nhttp) (hhi : nhttp < 2 ^ 16) (hmax : 16 ≤ iovMax) {fd : Int}
    (hfd : 0 ≤ fd) {takes : List (Option Nat)} (htakes : Sends takes) (hdr : List (List UInt8)) {calls : List WrwCall}
    (hfits : ∀ call ∈ calls, WrwCall.Fits call) : ∃ (wrw : Wrw) (chunks : List (List UInt8)),
      Wrw.writeObj fd hdr calls (.init (wrkSiov nhttp iovMax) takes) = some wrw ∧
        wrw.wire = hdr.flatten ++ ((chunks.map chunk).flatten ++ lastChunk) ∧
        chunks.flatten = calls.flatMap WrwCall.payload ∧
        ∀ (htc : HttpConn) (after : List UInt8) (room : Nat → Nat), (∀ d ∈ htc.fd, d ≠ []) → (∀ n, 0 < room n) →
          htc.pipeline.getD [] ++ htc.fd.flatten = (chunks.map chunk).flatten ++ lastChunk ++ after →
          ∃ bound, ∀ n turns, bound ≤ n → bound ≤ turns → ∃ htc',
            fetchChunked room n turns [] htc = .ok (calls.flatMap WrwCall.payload, htc') ∧
              htc'.pipeline.getD [] ++ htc'.fd.flatten = after := by
  obtain ⟨wrw, chunks, hrun, hwire, hpay, hbound⟩ := writeObj_chunks hlo hhi hmax hfd htakes hdr hfits
  refine ⟨wrw, chunks, hrun, by rw [hwire, List.append_assoc], hpay, ?_⟩
  intro htc after room hpieces hroom hbytes
  refine ⟨chunks.flatten.length + chunks.length + 2, ?_⟩
  intro n turns hn hturns
  obtain ⟨htc', hfetch, hfeeds⟩ := Feeds.fetch [] hroom hbound (by omega : chunks.flatten.length + 2 ≤ n)
    (by omega : chunks.length < turns) ⟨hpieces, hbytes⟩
  refine ⟨htc', ?_, hfeeds.bytes⟩
  rw [hfetch, hpay, List.nil_append]

/-- Two writes with an include between them, and an empty write, on a vector of 16 entries. -/
theorem chunked_round_trip_include : ∃ (wrw : Wrw) (chunks : List (List UInt8)),
    Wrw.writeObj 3 [[0x48]] [.write [0x61], .esiInclude, .write [], .writeString [0x62, 0x63]]
      (.init (wrkSiov 64 16) [some 2, some 3]) = some wrw ∧
      wrw.wire = [[0x48]].flatten ++ ((chunks.map chunk).flatten ++ lastChunk) ∧ chunks.flatten = [0x61, 0x62, 0x63] := by
  have hfits : ∀ call ∈ [WrwCall.write [0x61], .esiInclude, .write [], .writeString [0x62, 0x63]], WrwCall.Fits call := by
    intro call hcall
    simp only [List.mem_cons, List.not_mem_nil, or_false] at hcall
    rcases hcall with rfl | rfl | rfl | rfl <;> decide
  have htakes : Sends [some 2, some 3] := by
    intro t ht
    simp only [List.mem_cons, List.not_mem_nil, or_false] at ht
    rcases ht with rfl | rfl
    · exact ⟨2, rfl, by decide⟩
    · exact ⟨3, rfl, by decide⟩
  obtain ⟨wrw, chunks, hrun, hwire, hpay, -⟩ := chunked_round_trip (by decide : 32 ≤ 64) (by decide)
    (by decide : 16 ≤ 16) (by decide : (0 : Int) ≤ 3) htakes [[0x48]] hfits
  exact ⟨wrw, chunks, hrun, hwire, hpay⟩

end VarnishCache.Proofs
