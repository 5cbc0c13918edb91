import VarnishCache.HttpConn
import VarnishCache.Argv

/-!
# Fetching a chunked body

`fetch_chunked` of `bin/varnishd/cache_fetch.c`, with `vfp_nop_bytes` for its bytes. Each loop has a bound on its
turns, and `spin` is a loop that goes on behind it.
-/

namespace VarnishCache

/-- `vct_islws`. -/
def vctIslws (c : UInt8) : Bool := c = 0x09 || c = chNl || c = chCr || c = chSpace

/-- `vct_ishex`. -/
def vctIshex (c : UInt8) : Bool := (hexValue c).isSome

inductive FetchFailure where
  /-- The connection has no more bytes. -/
  | eof
  | error (text : String)
  | spin
  deriving DecidableEq

/-- `HTC_Read` of one byte. -/
def readByte (htc : HttpConn) : Except FetchFailure (UInt8 × HttpConn) :=
  match htc.read 1 with
  | ([], _) => .error .eof
  | (c :: _, htc) => .ok (c, htc)

/-- Leading whitespace is skipped. -/
def skipLws : Nat → HttpConn → Except FetchFailure (UInt8 × HttpConn)
  | 0, _ => .error .spin
  | n + 1, htc => do
    let (c, htc) ← readByte htc
    if vctIslws c then skipLws n htc else .ok (c, htc)

/-- The byte at `buf[1]`: zeros after a zero are skipped. -/
def skipZeros (buf0 : UInt8) : Nat → HttpConn → Except FetchFailure (UInt8 × HttpConn)
  | 0, _ => .error .spin
  | n + 1, htc => do
    let (c, htc) ← readByte htc
    if buf0 = 0x30 ∧ c = 0x30 then skipZeros buf0 n htc else .ok (c, htc)

/-- The bytes from `buf[2]` on, with `room` for as many: the digits, and the byte after them. -/
def collectHex : Nat → List UInt8 → HttpConn → Except FetchFailure (List UInt8 × UInt8 × HttpConn)
  | 0, _, _ => .error (.error "chunked header too long")
  | room + 1, buf, htc => do
    let (c, htc) ← readByte htc
    if vctIshex c then collectHex room (buf ++ [c]) htc else .ok (buf, c, htc)

/-- Trailing white space up to a newline is skipped. -/
def skipTrailing : Nat → UInt8 → HttpConn → Except FetchFailure (UInt8 × HttpConn)
  | n, c, htc =>
    if vctIslws c ∧ c ≠ chNl then
      match n with
      | 0 => .error .spin
      | n + 1 => do
        let (c, htc) ← readByte htc
        skipTrailing n c htc
    else .ok (c, htc)

/-- `fetch_number` of hexadecimal digits: `strtoumax` stays at the largest number, and what a `ssize_t` has no place
for is negative. -/
def fetchNumber (nbr : List UInt8) : Option Nat :=
  if nbr = [] then none
  else
    let cll := min (nbr.foldl (fun n c => n * 16 + (hexValue c).getD 0) 0) (2 ^ 64 - 1)
    if cll < 2 ^ 63 then some cll else none

/-- `vfp_nop_bytes`: `room len` is the free space of the storage that `FetchStorage` gives when the object has `len`
bytes, 0 for no storage. -/
def vfpNopBytes (room : Nat → Nat) : Nat → Nat → List UInt8 → HttpConn → Except FetchFailure (List UInt8 × HttpConn)
  | _, 0, obj, htc => .ok (obj, htc)
  | 0, _ + 1, _, _ => .error .spin
  | n + 1, bytes + 1, obj, htc =>
    if room obj.length = 0 then .error (.error "Could not get storage")
    else
      let (d, htc) := htc.read (min (room obj.length) (bytes + 1))
      if d = [] then .error .eof else vfpNopBytes room n (bytes + 1 - d.length) (obj ++ d) htc

/-- One turn of `fetch_chunked`: the length of the chunk and the object with its bytes. -/
def fetchChunk (room : Nat → Nat) (n : Nat) (obj : List UInt8) (htc : HttpConn) :
    Except FetchFailure (Nat × List UInt8 × HttpConn) := do
  let (c0, htc) ← skipLws n htc
  if !vctIshex c0 then throw (.error "chunked header non-hex")
  let (c1, htc) ← skipZeros c0 n htc
  let (buf, c, htc) ← if vctIshex c1 then collectHex 18 [c0, c1] htc else .ok ([c0], c1, htc)
  let (c, htc) ← skipTrailing n c htc
  if c ≠ chNl then throw (.error "chunked header no NL")
  match fetchNumber buf with
  | none => throw (.error "chunked header number syntax")
  | some cl =>
    let (obj, htc) ← vfpNopBytes room n cl obj htc
    let (c, htc) ← readByte htc
    let (c, htc) ← if c = chCr then readByte htc else .ok (c, htc)
    if c ≠ chNl then throw (.error "chunked tail no NL")
    return (cl, obj, htc)

/-- `fetch_chunked`, with a bound of `n` turns on each loop. -/
def fetchChunked (room : Nat → Nat) (n : Nat) : Nat → List UInt8 → HttpConn → Except FetchFailure (List UInt8 × HttpConn)
  | 0, _, _ => .error .spin
  | turns + 1, obj, htc => do
    let (cl, obj, htc) ← fetchChunk room n obj htc
    if 0 < cl then fetchChunked room n turns obj htc else .ok (obj, htc)

end VarnishCache
