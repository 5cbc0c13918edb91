import VarnishCache.Argv
import Mathlib.Data.Nat.Digits.Defs

/-!
# Writing with `writev`

`bin/varnishd/cache_wrw.c`. The I/O vector is the list of what its entries point at, so that `niov` is its length. What
the kernel makes of each `writev` is given from outside. A failed assertion is `none`.
-/

namespace VarnishCache

def hexChar (d : Nat) : UInt8 := if d < 10 then (0x30 + d).toUInt8 else (0x57 + d).toUInt8

/-- `%jx` of a number that is not zero. -/
def printHex (n : Nat) : List UInt8 := (Nat.digits 16 n).reverse.map hexChar

/-- The length in front of a chunk. -/
def chunkHeader (cliov : Nat) : List UInt8 := [0x30, 0x30] ++ printHex cliov ++ [chCr, chNl]

structure Wrw where
  /-- The file descriptor, or `NULL`. -/
  wfd : Option Int
  werr : Nat
  iov : List (List UInt8)
  siov : Nat
  liov : Nat
  cliov : Nat
  ciov : Nat
  /-- What is to come of `writev`: how many bytes it takes, or an error or the timeout. When there is no more it
  takes all. -/
  takes : List (Option Nat)
  /-- What has been sent. -/
  wire : List UInt8
  deriving DecidableEq

/-- The size of the I/O vector of a worker thread. -/
def wrkSiov (nhttp iovMax : Nat) : Nat := if iovMax < nhttp * 2 then iovMax else nhttp * 2

/-- The `for` loop of `WRW_Flush` that removes what was sent. -/
def cutIov (i : Nat) : List (List UInt8) → List (List UInt8)
  | [] => []
  | v :: iov => if i < v.length then v.drop i :: iov else cutIov (i - v.length) iov

namespace Wrw

variable (wrw : Wrw)

def niov : Nat := wrw.iov.length

def init (siov : Nat) (takes : List (Option Nat)) : Wrw :=
  { wfd := none, werr := 0, iov := [], siov := siov, liov := 0, cliov := 0, ciov := siov, takes := takes, wire := [] }

def reserve (fd : Int) : Option Wrw :=
  if wrw.wfd ≠ none then none
  else some { wrw with werr := 0, liov := 0, iov := [], ciov := wrw.siov, wfd := some fd }

def release : Option Wrw :=
  if wrw.wfd = none then none
  else some { wrw with werr := 0, liov := 0, iov := [], ciov := wrw.siov, wfd := none }

/-- The calls of `writev` in `WRW_Flush`: what they send, what is to come of later ones, and whether all went well. -/
def send : List (Option Nat) → List (List UInt8) → Nat → List UInt8 × List (Option Nat) × Bool
  | [], iov, liov => (iov.flatten, [], iov.flatten.length = liov)
  | none :: takes, _, _ => ([], takes, false)
  | some i :: takes, iov, liov =>
    let i := min i iov.flatten.length
    if i = liov then (iov.flatten.take i, takes, 0 < i)
    else if i = 0 then ([], takes, false)
    else
      let (sent, takes, ok) := send takes (cutIov i iov) (liov - i)
      (iov.flatten.take i ++ sent, takes, ok)

def chunked : Bool := wrw.ciov < wrw.siov

def flush : Option Wrw :=
  match wrw.wfd with
  | none => none
  | some fd =>
    if wrw.chunked ∧ wrw.siov ≤ wrw.niov then none
    else
      let sent : Wrw :=
        if 0 ≤ fd ∧ 0 < wrw.liov ∧ wrw.werr = 0 then
          let (iov, liov) :=
            if wrw.chunked ∧ 0 < wrw.cliov then
              let cbuf := chunkHeader wrw.cliov
              (wrw.iov.set wrw.ciov cbuf ++ [cbuf.drop (cbuf.length - 2)], wrw.liov + cbuf.length + 2)
            else if wrw.chunked then (wrw.iov.set wrw.ciov [], wrw.liov)
            else (wrw.iov, wrw.liov)
          let (wire, takes, ok) := send wrw.takes iov liov
          { wrw with wire := wrw.wire ++ wire, takes := takes, werr := if ok then wrw.werr else wrw.werr + 1 }
        else wrw
      some { sent with
        liov := 0, cliov := 0, iov := if wrw.chunked then [[]] else [], ciov := if wrw.chunked then 0 else wrw.ciov }

def flushRelease : Option Wrw := wrw.flush.bind release

/-- `WRW_Write` of `len` bytes, or of a string if `len` is -1. -/
def write (ptr : List UInt8) (len : Int) : Option Wrw :=
  match wrw.wfd with
  | none => none
  | some fd =>
    if len = 0 ∨ fd < 0 then some wrw
    else
      let data := if len = -1 then cstr ptr else ptr.take len.toNat
      match if wrw.siov - (if wrw.chunked then 1 else 0) ≤ wrw.niov then wrw.flush else some wrw with
      | none => none
      | some wrw =>
        let wrw := { wrw with iov := wrw.iov ++ [data], liov := wrw.liov + data.length }
        if wrw.chunked then
          if wrw.siov ≤ wrw.niov then none else some { wrw with cliov := wrw.cliov + data.length }
        else some wrw

/-- `WRW_Chunked`. -/
def beginChunked : Option Wrw :=
  if wrw.ciov ≠ wrw.siov then none
  else
    match if wrw.siov ≤ wrw.niov + 3 then wrw.flush else some wrw with
    | none => none
    | some wrw =>
      if wrw.siov ≤ wrw.niov + 1 then none
      else some { wrw with ciov := wrw.niov, iov := wrw.iov ++ [[]], cliov := 0 }

/-- `WRW_EndChunk`. -/
def endChunk : Option Wrw :=
  if wrw.siov ≤ wrw.ciov then none
  else
    match wrw.flush with
    | none => none
    | some wrw => { wrw with ciov := wrw.siov, iov := [], cliov := 0 }.write [0x30, chCr, chNl, chCr, chNl] (-1)

end Wrw

/-- What is called between `WRW_Chunked` and `WRW_EndChunk`. An include releases the worker's vector and takes it up
again, for the included object and once more behind it. -/
inductive WrwCall where
  | write (ptr : List UInt8)
  | writeString (ptr : List UInt8)
  | flush
  | esiInclude
  deriving DecidableEq

def WrwCall.payload : WrwCall → List UInt8
  | .write ptr => ptr
  | .writeString ptr => cstr ptr
  | _ => []

namespace Wrw

def call (fd : Int) (wrw : Wrw) : WrwCall → Option Wrw
  | .write ptr => wrw.write ptr ptr.length
  | .writeString ptr => wrw.write ptr (-1)
  | .flush => wrw.flush
  | .esiInclude => do
    let wrw ← wrw.flushRelease
    let wrw ← wrw.reserve fd
    wrw.beginChunked

/-- `RES_WriteObj` in chunked mode: the lines `hdr` of the header, then the calls of the delivery. -/
def writeObj (fd : Int) (hdr : List (List UInt8)) (calls : List WrwCall) (wrw : Wrw) : Option Wrw := do
  let wrw ← wrw.reserve fd
  let wrw ← hdr.foldlM (fun wrw ptr => wrw.write ptr ptr.length) wrw
  let wrw ← wrw.beginChunked
  let wrw ← calls.foldlM (call fd) wrw
  let wrw ← wrw.endChunk
  wrw.flushRelease

end Wrw

/-- What is done with the vector of a worker, in any order. The length of a write is an `int`. -/
inductive WrwOp where
  | reserve (fd : Int)
  | write (ptr : List UInt8) (len : Fin (2 ^ 31))
  | writeString (ptr : List UInt8)
  | beginChunked
  | flush
  | endChunk
  | release

namespace Wrw

def exec (wrw : Wrw) : WrwOp → Option Wrw
  | .reserve fd => wrw.reserve fd
  | .write ptr len => wrw.write ptr len.val
  | .writeString ptr => wrw.write ptr (-1)
  | .beginChunked => wrw.beginChunked
  | .flush => wrw.flush
  | .endChunk => wrw.endChunk
  | .release => wrw.release

/-- What the vector holds once `WRW_Flush` has put the header and the end of a chunk into it. -/
def queued (wrw : Wrw) : List UInt8 :=
  if wrw.chunked ∧ 0 < wrw.cliov then
    (wrw.iov.set wrw.ciov (chunkHeader wrw.cliov)).flatten ++ [chCr, chNl]
  else wrw.iov.flatten

end Wrw

inductive WrwReach (siov : Nat) (takes : List (Option Nat)) : Wrw → Prop where
  | init : WrwReach siov takes (Wrw.init siov takes)
  | step {wrw wrw' : Wrw} {op : WrwOp} : WrwReach siov takes wrw → wrw.exec op = some wrw' → WrwReach siov takes wrw'

end VarnishCache
