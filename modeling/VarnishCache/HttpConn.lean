import VarnishCache.BanSpec

/-!
# HTTP connections

`bin/varnishd/cache_httpconn.c`: a header is read into the workspace until it is complete, and what was read behind
its end is kept for `HTC_Read` and `HTC_Reinit`. A buffer is the list of its bytes, so `rxbuf.b` is its front and
the NUL that the code writes at `rxbuf.e` is the end of the list. The file descriptor is what `read` is still to
find on it, cut into the pieces that come in together. A failed assertion, and a write behind the reserved space, is
`none`.
-/

namespace VarnishCache

/-- What `htc_header_complete` looks for behind a newline: how many bytes end an empty line. -/
def emptyLine (p : List UInt8) : Option Nat :=
  let k := if p.head? = some 0x0d then 1 else 0
  if (p.drop k).head? = some 0x0a then some (k + 1) else none

/-- The `while` loop of `htc_header_complete`: how many bytes there are up to the end of the first empty line. `strchr`
stops at a NUL. -/
def headerEnd : List UInt8 → Option Nat
  | [] => none
  | c :: p =>
    if c = 0 then none
    else if c ≠ 0x0a then (headerEnd p).map (· + 1)
    else
      match emptyLine p with
      | some k => some (k + 1)
      | none => (headerEnd p).map (· + 1)

/-- `htc_header_complete`, with the buffer that it leaves. -/
def htcHeaderComplete (t : List UInt8) : Nat × List UInt8 :=
  let p := t.dropWhile isspace
  if p = [] then (0, [])
  else
    match headerEnd p with
    | none => (0, t)
    | some i => (t.length - p.length + i, t)

/-- What is left on the file descriptor, in pieces. -/
abbrev Fd := List (List UInt8)

/-- `read` of `k` bytes at most. No bytes are the end of the file. -/
def Fd.read (k : Nat) : Fd → List UInt8 × Fd
  | [] => ([], [])
  | c :: fd => (c.take k, if c.length ≤ k then fd else c.drop k :: fd)

structure HttpConn where
  rxbuf : List UInt8
  pipeline : Option (List UInt8)
  /-- The size of the reservation: `ws->r - ws->f`, the same each time, as the workspace is reset to one mark. -/
  space : Nat
  /-- `ws->r` is not `NULL`. -/
  reserved : Bool
  fd : Fd
  deriving DecidableEq

namespace HttpConn

variable (htc : HttpConn)

def init (space : Nat) (fd : Fd) : HttpConn :=
  { rxbuf := [], pipeline := none, space := space, reserved := true, fd := fd }

/-- `HTC_Complete`. -/
def complete : Option (Int × HttpConn) :=
  let (i, t) := htcHeaderComplete htc.rxbuf
  if i = 0 then some (0, { htc with rxbuf := t })
  else if htc.reserved = false ∨ htc.pipeline ≠ none then none
  else if i < t.length then
    some (1, { htc with rxbuf := t.take i, pipeline := some (t.drop i), reserved := false })
  else some (1, { htc with rxbuf := t, reserved := false })

/-- `HTC_Reinit`. -/
def reinit : Option (Int × HttpConn) :=
  if htc.reserved then none
  else
    let t := htc.pipeline.getD []
    if htc.space ≤ t.length then none else { htc with rxbuf := t, pipeline := none, reserved := true }.complete

/-- `HTC_Rx`. -/
def rx : Option (Int × HttpConn) :=
  if htc.reserved = false then none
  else
    let i : Int := htc.space - htc.rxbuf.length - 1
    if i ≤ 0 then some (-2, { htc with reserved := false })
    else
      let (d, fd) := htc.fd.read i.toNat
      if d = [] then some (-1, { htc with fd := fd, reserved := false })
      else { htc with rxbuf := htc.rxbuf ++ d, fd := fd }.complete

/-- `HTC_Read`, with the bytes that it returns. -/
def read (len : Nat) : List UInt8 × HttpConn :=
  let p := htc.pipeline.getD []
  let d := p.take len
  let rest := p.drop len
  let htc := { htc with pipeline := if rest = [] then none else some rest }
  if len ≤ d.length then (d, htc)
  else
    let (d', fd) := htc.fd.read (len - d.length)
    (d ++ d', { htc with fd := fd })

end HttpConn

/-- The calls of the session and of the backend fetch. -/
inductive HtcCall where
  | complete
  | rx
  | read (len : Nat)
  | reinit
  deriving DecidableEq

/-- A connection and the messages on it so far: the header block, and the bytes that were read behind it. -/
structure HtcSess where
  htc : HttpConn
  messages : List (List UInt8 × List UInt8)
  deriving DecidableEq

namespace HtcSess

def init (space : Nat) (fd : Fd) : HtcSess := { htc := .init space fd, messages := [] }

/-- The bytes that the connection has not given to its caller. -/
def rest (st : HtcSess) : List UInt8 :=
  (if st.htc.reserved then st.htc.rxbuf else st.htc.pipeline.getD []) ++ st.htc.fd.flatten

/-- `cnt_wait`, the waiter and `FetchHdr` call for a header until they have one. The body is read, and the
connection taken up again, only after that. -/
def mayCall (st : HtcSess) : HtcCall → Bool
  | .complete => st.htc.reserved
  | .rx => st.htc.reserved
  | .read _ => !st.htc.reserved
  | .reinit => !st.htc.reserved

/-- A call for a header, with what it returns. -/
def header (st : HtcSess) (r : Int × HttpConn) : Int × HtcSess :=
  (r.1, { htc := r.2, messages := if r.1 = 1 then st.messages ++ [(r.2.rxbuf, [])] else st.messages })

/-- The bytes of a read go to the last message. -/
def addBody : List (List UInt8 × List UInt8) → List UInt8 → List (List UInt8 × List UInt8)
  | [], _ => []
  | [m], d => [(m.1, m.2 ++ d)]
  | m :: n :: ms, d => m :: addBody (n :: ms) d

def step (st : HtcSess) : HtcCall → Option (Int × HtcSess)
  | .complete => st.htc.complete.map st.header
  | .rx => st.htc.rx.map st.header
  | .reinit => st.htc.reinit.map st.header
  | .read len =>
    let (d, htc) := st.htc.read len
    some (d.length, { htc := htc, messages := addBody st.messages d })

/-- A run of calls, each one where it may be made, and none that returns an error. -/
def run : HtcSess → List HtcCall → Option HtcSess
  | st, [] => some st
  | st, call :: calls =>
    if st.mayCall call then
      match st.step call with
      | some (i, st') => if 0 ≤ i then st'.run calls else none
      | none => none
    else none

/-! ## The loops of the callers -/

/-- `cnt_wait`, the waiters and `FetchHdr` after a call for a header: `HTC_Rx` for as long as more is needed.
Without fuel for that it is `none`, here and in the loops below. -/
def waitHeader : Nat → Int × HtcSess → Option (Int × HtcSess)
  | 0, r => if r.1 = 0 then none else some r
  | fuel + 1, r => if r.1 = 0 then (r.2.step .rx).bind (waitHeader fuel) else some r

/-- The loop of `vfp_nop_bytes`, where `room` is the space of the storage that it has at each turn, and what it
returns. -/
def readBody (room : Nat → Nat) : Nat → Nat → HtcSess → Option (Int × HtcSess)
  | 0, len, st => if len = 0 then some (1, st) else none
  | fuel + 1, len, st =>
    if len = 0 then some (1, st)
    else
      (st.step (.read (min (room fuel) len))).bind fun r =>
      if r.1 ≤ 0 then some r else readBody room fuel (len - r.1.toNat) r.2

/-- Message by message, with bodies of the lengths `ns`, until a call fails. -/
def serve (room : Nat → Nat) (fuel : Nat) : List Nat → HtcSess → Option (Int × HtcSess)
  | [], st => some (1, st)
  | n :: ns, st =>
    (st.step (if st.htc.reserved then .complete else .reinit)).bind fun r =>
    (waitHeader fuel r).bind fun r =>
    if r.1 = 1 then
      (readBody room fuel n r.2).bind fun r => if r.1 = 1 then serve room fuel ns r.2 else some r
    else some r

end HtcSess

end VarnishCache
