import Mathlib.Data.List.Basic

/-!
# The steps of a session

`CNT_Session` and the step functions of `bin/varnishd/cache_center.c`, with `ved_include` of `cache_esi_deliver.c`, which
calls `CNT_Session` from within `cnt_deliver`, and the assertions that `wrk_thread_real` of `cache_pool.c` makes after
`CNT_Session`. Of the session and the worker there are the fields that a branch or an assertion reads; a pointer is the
`Bool` that says that it is not null, a workspace that it is set up. What comes from outside (the return values and
settings of VCL, the client, the backend, the hash and the storage) is read from a `CntEnv`, one for each step. A failed
assertion, `INCOMPL` and `WRONG` are `none`.

`sp->err_code`, the texts, the headers, statistics, logging and the write vector are left out: no branch depends on them.
A worker leaves `CNT_Session` with the fields below clear, so which worker takes a session up again makes no difference
but for `nbusyobj`.
-/

namespace VarnishCache

/-- `enum step`. -/
inductive Stp where
  | wait | first | recv | start | pipe | pass | lookup | miss | hit
  | fetch | fetchbody | streambody | prepresp | deliver | error | done
  deriving DecidableEq

inductive VclRet where
  | deliver | error | fetch | hash | hitForPass | lookup | pass | pipe | restart
  deriving DecidableEq

inductive VclMet where
  | recv | pipe | pass | miss | hit | fetch | deliver | error
  deriving DecidableEq

/-- The table of `vcl_returns.h`. -/
def VclMet.returns : VclMet → List VclRet
  | .recv => [.error, .pass, .pipe, .lookup]
  | .pipe => [.error, .pipe]
  | .pass => [.error, .restart, .pass]
  | .miss => [.error, .restart, .pass, .fetch]
  | .hit => [.error, .restart, .pass, .deliver]
  | .fetch => [.error, .restart, .hitForPass, .deliver]
  | .deliver => [.restart, .deliver]
  | .error => [.restart, .deliver]

/-- A return value that the compiler admits in a method. -/
abbrev VclMet.Ret (m : VclMet) := { r : VclRet // r ∈ m.returns }

inductive HtcRx where
  | incomplete | complete | failed
  deriving DecidableEq

/-- `http_DissectRequest`: the request, a 400, another status. -/
inductive Dissected where
  | ok | junk | status
  deriving DecidableEq

inductive LookupRes where
  /-- Another session fetches the object. -/
  | park
  /-- A new busy objcore. -/
  | busy
  | hit (pass : Bool)
  deriving DecidableEq

/-- The values 0, 1 and -1 of `FetchHdr`. -/
inductive FetchHdrRes where
  | ok | retry | failed
  deriving DecidableEq

inductive ContentEncoding where
  | none | gzip | other
  deriving DecidableEq

/-- What a step gets from outside. -/
structure CntEnv where
  recv : VclMet.Ret .recv
  pipe : VclMet.Ret .pipe
  pass : VclMet.Ret .pass
  miss : VclMet.Ret .miss
  hit : VclMet.Ret .hit
  fetch : VclMet.Ret .fetch
  deliver : VclMet.Ret .deliver
  error : VclMet.Ret .error
  /-- `VTCP_blocking` fails. -/
  unblocked : Bool
  rx : HtcRx
  /-- `HTC_Reinit` finds a whole request. -/
  pipelined : Bool
  /-- `HTC_Reinit` leaves part of a request, or `session_linger` is set. -/
  linger : Bool
  dissected : Dissected
  /-- `http_DoConnection`. -/
  connClose : Bool
  /-- An `Expect` that is not `100-continue`. -/
  expect : Bool
  /-- The request is a `HEAD`. -/
  head : Bool
  lookup : LookupRes
  /-- `nbusyobj` of the worker that takes the session up. -/
  nbusyobj : Bool
  /-- `VDI_GetFd` for a pipe gives a connection. -/
  backend : Bool
  fetchHdr : FetchHdrRes
  fetchHdr' : FetchHdrRes
  /-- `RFC2616_Body`: the connection is to be closed, there is a `Content-Length`, there is no body. -/
  close : Bool
  contentLength : Bool
  bodyNone : Bool
  /-- What `vcl_fetch` sets. -/
  doEsi : Bool
  doGzip : Bool
  doGunzip : Bool
  doStream : Bool
  storage : Bool
  contentEncoding : ContentEncoding
  /-- `VRY_Create` finds the `Vary` malformed. -/
  badVary : Bool
  /-- The object is short-lived. -/
  shortlived : Bool
  /-- One of the calls of `STV_NewObject` gives an object. -/
  newObject : Bool
  /-- `RFC2616_Do_Cond`, for a conditional request and a response 200. -/
  cond : Bool
  /-- `FetchBody` fails. -/
  bodyFailed : Bool
  /-- The response can only be ended by a close. -/
  eofMode : Bool
  /-- How many includes `ESI_Deliver` finds in the object. -/
  includes : Nat
  /-- The client has gone away. -/
  writeFailed : Bool

structure CntParams where
  maxRestarts : Nat
  maxEsiDepth : Nat
  gzipSupport : Bool

/-- A reference to an objcore, with a number of its own. -/
structure CntOc where
  ref : Nat
  busy : Bool
  pass : Bool
  deriving DecidableEq

/-- An object, without an objcore for a pass or an error. -/
inductive CntObj where
  | anon (ref : Nat)
  | core (oc : CntOc)
  deriving DecidableEq

def CntObj.ref : CntObj → Nat
  | .anon r => r
  | .core oc => oc.ref

/-- `AssertObjCorePassOrBusy` on the objcore of an object. -/
def CntObj.passOrBusy : CntObj → Bool
  | .anon _ => true
  | .core oc => oc.busy

/-- What happens to references. -/
inductive RefEv where
  /-- `HSH_Lookup` or `STV_NewObject` gives a reference, to a busy objcore or not. -/
  | get (ref : Nat) (busy : Bool)
  | unbusy (ref : Nat)
  | deref (ref : Nat)
  deriving DecidableEq

def RefEv.ref : RefEv → Nat
  | .get r _ => r
  | .unbusy r => r
  | .deref r => r

/-- `ved_include` waiting for its include: its `obj` and `sxid`, the includes that come after this one, and `recvs`. -/
structure CntFrame where
  obj : Option CntObj
  sxid : Bool
  left : Nat
  recvs : Nat
  deriving DecidableEq

inductive CntPc where
  /-- In the loop of `CNT_Session`. -/
  | run
  /-- In `RES_WriteObj`, with includes left. -/
  | write (left : Nat)
  /-- `cnt_lookup` has lost the session to a busy object. -/
  | parked
  /-- Given to the worker pool by the acceptor. -/
  | queued
  /-- Given to the waiter. -/
  | waiter
  /-- After `SES_Delete`. -/
  | gone
  deriving DecidableEq

structure Cnt where
  pc : CntPc
  step : Stp
  restarts : Nat
  handling : VclRet
  obj : Option CntObj
  objcore : Option CntOc
  director : Bool
  vbc : Bool
  vcl : Bool
  /-- `xid` is not 0. -/
  xid : Bool
  hashObjhead : Bool
  /-- The session workspace is reserved, and `vary_b` points into it. -/
  varyB : Bool
  wantbody : Bool
  /-- The client connection is open. -/
  fd : Bool
  doclose : Bool
  bereq : Bool
  beresp : Bool
  resp : Bool
  /-- `wrk->do_close`. -/
  doClose : Bool
  storageHint : Bool
  hContentLength : Bool
  vfp : Bool
  bodyNone : Bool
  doStream : Bool
  doEsi : Bool
  doGzip : Bool
  doGunzip : Bool
  isGzip : Bool
  isGunzip : Bool
  nbusyobj : Bool
  /-- The calls of `ved_include` around this one: `esi_level` is their number. -/
  frames : List CntFrame
  /-- How often this request, or this include, has come to `cnt_recv`. -/
  recvs : Nat
  /-- The number of the next reference. -/
  nref : Nat
  /-- What happened to references, the last thing first. -/
  ledger : List RefEv
  deriving DecidableEq

namespace Cnt

/-! ## What the steps call -/

def flagsClear (st : Cnt) : Bool :=
  !st.doStream && !st.doEsi && !st.doGzip && !st.doGunzip && !st.isGzip && !st.isGunzip

def clearFlags (st : Cnt) : Cnt :=
  { st with
    doStream := false, doEsi := false, doGzip := false, doGunzip := false, isGzip := false, isGunzip := false }

/-- `VDI_CloseFd`. -/
def vdiCloseFd (st : Cnt) : Option Cnt :=
  if st.vbc then some { st with vbc := false, doClose := false } else none

/-- `HSH_Unbusy`, for the object of the session. -/
def hshUnbusy (st : Cnt) : Option Cnt :=
  match st.obj with
  | some (.core oc) =>
    if oc.busy && !st.nbusyobj then
      some { st with
        obj := some (.core { oc with busy := false }), nbusyobj := true, ledger := .unbusy oc.ref :: st.ledger }
    else none
  | _ => none

/-- `HSH_Deref`, for the object of the session. -/
def hshDeref (st : Cnt) : Option Cnt :=
  match st.obj with
  | none => none
  | some (.anon r) => some { st with obj := none, ledger := .deref r :: st.ledger }
  | some (.core oc) =>
    some { st with obj := none, nbusyobj := st.nbusyobj || oc.busy, ledger := .deref oc.ref :: st.ledger }

/-- `HSH_Deref`, for the objcore of the session. -/
def hshDerefOc (st : Cnt) : Cnt :=
  match st.objcore with
  | none => st
  | some oc =>
    { st with objcore := none, nbusyobj := st.nbusyobj || oc.busy, ledger := .deref oc.ref :: st.ledger }

/-- `HSH_Drop`. -/
def hshDrop (st : Cnt) : Option Cnt :=
  match st.obj with
  | none => none
  | some (.anon _) => st.hshDeref
  | some (.core _) => st.hshUnbusy.bind hshDeref

/-- `STV_NewObject`, where there is space: the object takes over the objcore of the session. -/
def stvNewObject (st : Cnt) : Cnt :=
  match st.objcore with
  | some oc => { st with obj := some (.core oc), objcore := none }
  | none =>
    { st with obj := some (.anon st.nref), nref := st.nref + 1, ledger := .get st.nref false :: st.ledger }

/-- `FetchHdr`, up to what it returns. -/
def fetchHdr (r : FetchHdrRes) (st : Cnt) : Option Cnt :=
  if st.director && st.obj.isNone && st.objcore.all (·.busy) then some { st with vbc := decide (r = .ok) } else none

/-- `FetchBody`, up to what it returns. -/
def fetchBody (st : Cnt) : Option Cnt :=
  if st.director && st.vbc && st.obj.any CntObj.passOrBusy then
    some { st with vbc := false, doClose := false, vfp := true }
  else none

/-- `CNT_Session` returns to `wrk_thread_real`. -/
def leave (pc : CntPc) (st : Cnt) : Option Cnt :=
  if st.flagsClear && !st.bereq && !st.beresp && !st.resp && !st.storageHint then some { st with pc := pc } else none

/-! ## The steps -/

def cntWait (e : CntEnv) (st : Cnt) : Option Cnt :=
  if !st.vcl && st.obj.isNone && !st.xid then
    match e.rx with
    | .incomplete => st.leave .waiter
    | .complete => some { st with step := .start }
    | .failed => some { st with fd := false, step := .done }
  else none

def cntPrepresp (p : CntParams) (e : CntEnv) (st : Cnt) : Option Cnt :=
  if st.vcl && (!st.doStream || st.obj.any CntObj.passOrBusy) && st.obj.isSome then
    let st := { st with doclose := st.doclose || e.eofMode, resp := true, handling := e.deliver }
    match e.deliver.val with
    | .deliver => some { st with step := if st.doStream then .streambody else .deliver }
    | .restart =>
      if p.maxRestarts ≤ st.restarts then some { st with step := if st.doStream then .streambody else .deliver }
      else
        (if st.doStream then st.vdiCloseFd.bind hshDrop else st.hshDeref).map fun st =>
          { st with
            restarts := st.restarts + 1, director := false, hContentLength := false, bereq := false, beresp := false,
            resp := false, step := .recv }
    | _ => none
  else none

/-- `cnt_deliver`, up to the includes in the object. -/
def cntDeliver (e : CntEnv) (st : Cnt) : Option Cnt :=
  if st.obj.isSome then some { st with director := false, restarts := 0, pc := .write e.includes } else none

/-- The rest of `cnt_deliver`. -/
def cntDeliverEnd (e : CntEnv) (st : Cnt) : Option Cnt :=
  st.hshDeref.map fun st =>
    { st with fd := st.fd && !e.writeFailed, resp := false, step := .done, pc := .run }

/-- `ved_include`, up to its call of `CNT_Session`. -/
def vedInclude (p : CntParams) (left : Nat) (st : Cnt) : Cnt :=
  if p.maxEsiDepth ≤ st.frames.length then { st with pc := .write left }
  else
    { st.clearFlags with
      pc := .run, frames := { obj := st.obj, sxid := st.xid, left := left, recvs := st.recvs } :: st.frames,
      obj := none, director := false, step := .recv, recvs := 0 }

def cntDone (e : CntEnv) (st : Cnt) : Option Cnt :=
  if st.obj.isNone && !st.vbc then
    let st := { st.clearFlags with director := false, restarts := 0, xid := false }
    match st.frames with
    | f :: fs => some { st with frames := fs, obj := f.obj, xid := f.sxid, recvs := f.recvs, pc := .write f.left }
    | [] =>
      let st := { st with vcl := false, fd := st.fd && !st.doclose }
      if st.fd then
        if e.pipelined then some { st with step := .start }
        else if e.linger then some { st with step := .wait }
        else st.leave .waiter
      else st.leave .gone
  else none

def cntError (p : CntParams) (e : CntEnv) (st : Cnt) : Option Cnt :=
  let st := st.clearFlags
  if st.obj.isNone && !e.newObject then
    some { st with
      nbusyobj := true, doclose := true, director := false, hContentLength := false, beresp := false, bereq := false,
      step := .done }
  else
    let st := if st.obj.isNone then stvNewObject { st with nbusyobj := true } else st
    let st := { st with handling := e.error }
    if e.error.val = .restart ∧ st.restarts < p.maxRestarts then
      st.hshDrop.map fun st => { st with director := false, restarts := st.restarts + 1, step := .recv }
    else some { st with handling := .deliver, doclose := true, wantbody := true, bereq := false, step := .prepresp }

/-- `cnt_fetch` after a failure, or where VCL does not want the body. -/
def fetchCleanup (st : Cnt) : Cnt :=
  { st.hshDerefOc with
    bereq := false, beresp := false, hContentLength := false, director := false, storageHint := false }

/-- `RFC2616_Body` and what `vcl_fetch` sets. -/
def fetchMethod (e : CntEnv) (st : Cnt) : Cnt :=
  { st with
    doClose := e.close, hContentLength := e.contentLength, bodyNone := e.bodyNone, handling := e.fetch, doEsi := e.doEsi,
    doGzip := e.doGzip, doGunzip := e.doGunzip, doStream := e.doStream, storageHint := e.storage }

/-- `cnt_fetch` after `vcl_fetch`. -/
def fetchReturn (e : CntEnv) (st : Cnt) : Option Cnt :=
  match e.fetch.val with
  | .hitForPass => some { st with objcore := st.objcore.map fun oc => { oc with pass := true }, step := .fetchbody }
  | .deliver => if st.objcore.all (·.busy) then some { st with step := .fetchbody } else none
  | .restart => st.vdiCloseFd.map fun st => { st.fetchCleanup with restarts := st.restarts + 1, step := .recv }
  | .error => st.vdiCloseFd.map fun st => { st.fetchCleanup with step := .error }
  | _ => none

def cntFetch (e : CntEnv) (st : Cnt) : Option Cnt :=
  if st.vcl && st.director && !st.vbc && !st.hContentLength && !st.doClose && !st.storageHint then
    (fetchHdr e.fetchHdr { st with beresp := true }).bind fun st =>
    (if e.fetchHdr = .retry then st.fetchHdr e.fetchHdr' else some st).bind fun st =>
    if !st.vbc then some { st.fetchCleanup with handling := .error, step := .error }
    else if st.doEsi then none
    else (st.fetchMethod e).fetchReturn e
  else none

/-- The choice of the filter in `cnt_fetchbody`. -/
def fetchFilter (p : CntParams) (e : CntEnv) (st : Cnt) : Cnt :=
  let isGzip := decide (e.contentEncoding = .gzip)
  let isGunzip := decide (e.contentEncoding = .none)
  let doGunzip := p.gzipSupport && st.doGunzip && isGzip
  let doGzip := p.gzipSupport && st.doGzip && isGunzip
  { st with
    isGzip := isGzip, isGunzip := isGunzip, doGunzip := doGunzip, doGzip := doGzip,
    vfp := st.doEsi || doGunzip || doGzip || isGzip,
    doStream := st.doStream && !st.doEsi && st.frames.isEmpty && st.wantbody && !st.bodyNone }

/-- `cnt_fetchbody` from the object on. -/
def fetchbodyObject (e : CntEnv) (st : Cnt) : Option Cnt :=
  let st := { st.stvNewObject with storageHint := false, doStream := st.doStream && !e.cond }
  if st.obj.any CntObj.passOrBusy then
    if st.doStream then some { st with step := .prepresp }
    else
      st.fetchBody.bind fun st =>
      let st := { st with hContentLength := false, bereq := false, beresp := false, vfp := false }
      if e.bodyFailed then st.hshDrop.map fun st => { st with step := .error }
      else
        match st.obj with
        | some (.core _) => st.hshUnbusy.map fun st => { st with step := .prepresp }
        | _ => some { st with step := .prepresp }
  else none

def cntFetchbody (p : CntParams) (e : CntEnv) (st : Cnt) : Option Cnt :=
  if (decide (st.handling = .hitForPass) || decide (st.handling = .deliver)) && !st.vfp then
    let pass := st.objcore.isNone || decide (st.handling = .hitForPass)
    let st := st.fetchFilter p e
    if st.doGzip && st.doGunzip then none
    else if st.objcore.isSome && e.badVary then st.vdiCloseFd.map fun st => { st with step := .error }
    else
      let st := { st with storageHint := st.storageHint || e.shortlived || pass }
      if e.newObject then st.fetchbodyObject e
      else st.vdiCloseFd.map fun st => { st with step := .error }
  else none

def cntStreambody (e : CntEnv) (st : Cnt) : Option Cnt :=
  if st.frames.isEmpty && st.wantbody then
    st.fetchBody.bind fun st =>
    let st := { st with hContentLength := false, bereq := false, beresp := false, vfp := false }
    (if e.bodyFailed then some { st with doclose := true }
      else match st.obj with
        | some (.core _) => st.hshUnbusy
        | _ => some st).bind fun st =>
    st.hshDeref.map fun st =>
    { st with director := false, restarts := 0, fd := st.fd && !e.writeFailed, resp := false, step := .done }
  else none

def cntFirst (st : Cnt) : Option Cnt :=
  if !st.xid && decide (st.restarts = 0) then some { st with step := .wait } else none

def cntHit (e : CntEnv) (st : Cnt) : Option Cnt :=
  match st.obj with
  | some (.core oc) =>
    if st.vcl && !oc.pass && !st.doStream then
      let st := { st with handling := e.hit }
      match e.hit.val with
      | .deliver => if !st.bereq && !st.beresp then some { st with step := .prepresp } else none
      | .pass => st.hshDeref.map fun st => { st with objcore := none, step := .pass }
      | .error => st.hshDeref.map fun st => { st with objcore := none, step := .error }
      | .restart =>
        st.hshDeref.map fun st =>
          { st with objcore := none, director := false, restarts := st.restarts + 1, step := .recv }
      | _ => none
    else none
  | _ => none

def cntLookup (e : CntEnv) (st : Cnt) : Option Cnt :=
  if st.vcl && st.director && st.objcore.isNone && (st.hashObjhead == st.varyB) then
    match e.lookup with
    | .park =>
      let st := { st with nbusyobj := true, hashObjhead := true, varyB := true }
      if st.frames.isEmpty then st.leave .parked
      else if st.flagsClear then some { st with pc := .parked } else none
    | .busy =>
      some { st with
        nbusyobj := false, hashObjhead := false, varyB := false, objcore := some ⟨st.nref, true, false⟩,
        nref := st.nref + 1, ledger := .get st.nref true :: st.ledger, step := .miss }
    | .hit pass =>
      let st :=
        { st with
          nbusyobj := true, hashObjhead := false, varyB := false, obj := some (.core ⟨st.nref, false, pass⟩),
          nref := st.nref + 1, ledger := .get st.nref false :: st.ledger }
      if pass then st.hshDeref.map fun st => { st with objcore := none, step := .pass }
      else some { st with step := .hit }
  else none

def cntMiss (e : CntEnv) (st : Cnt) : Option Cnt :=
  if st.vcl && st.obj.isNone && st.objcore.isSome then
    let st := { st with bereq := true, handling := e.miss }
    match e.miss.val with
    | .error => some { st.hshDerefOc with bereq := false, step := .error }
    | .pass => some { st.hshDerefOc with step := .pass }
    | .fetch => some { st with step := .fetch }
    | _ => none
  else none

def cntPass (e : CntEnv) (st : Cnt) : Option Cnt :=
  if st.vcl && st.obj.isNone then
    let st := { st with bereq := true, handling := e.pass }
    match e.pass.val with
    | .error => some { st with bereq := false, step := .error }
    | .pass => some { st with step := .fetch }
    | _ => none
  else none

def cntPipe (e : CntEnv) (st : Cnt) : Option Cnt :=
  if st.vcl && st.director then
    match e.pipe.val with
    | .pipe =>
      some { st with
        handling := .pipe, vbc := false, doClose := st.doClose && !e.backend, fd := st.fd && !e.backend, bereq := false,
        step := .done }
    | _ => none
  else none

def cntRecv (p : CntParams) (e : CntEnv) (st : Cnt) : Option Cnt :=
  if st.vcl && st.obj.isNone && !st.director then
    let st := { st with director := true, recvs := st.recvs + 1, handling := e.recv }
    if p.maxRestarts ≤ st.restarts then some { st with step := .error }
    else
      let st := { st.clearFlags with handling := .hash, wantbody := !e.head }
      match e.recv.val with
      | .lookup => some { st with step := .lookup }
      | .pipe => if st.frames.isEmpty then some { st with step := .pipe } else none
      | .pass => some { st with step := .pass }
      | .error => some { st with step := .error }
      | _ => none
  else none

def cntStart (e : CntEnv) (st : Cnt) : Option Cnt :=
  if decide (st.restarts = 0) && st.obj.isNone && !st.vcl then
    let st := { st with vcl := true, xid := true, recvs := 0 }
    match e.dissected with
    | .junk => some { st with fd := false, step := .done }
    | .status => some { st with step := .error }
    | .ok => some { st with doclose := e.connClose, step := if e.expect then .error else .recv }
  else none

/-! ## The dispatcher -/

/-- `CNT_Session` up to its loop. -/
def enter (st : Cnt) : Option Cnt :=
  if (decide (st.step = .first) || decide (st.step = .start) || decide (st.step = .lookup) || decide (st.step = .recv)) &&
      st.flagsClear then
    some { st with pc := .run }
  else none

/-- `wrk_thread_real` takes up a session. -/
def wrkSession (e : CntEnv) (st : Cnt) : Option Cnt :=
  (enter { st with storageHint := false, nbusyobj := e.nbusyobj }).map fun st =>
    if (st.step = .first ∨ st.step = .start) ∧ e.unblocked then { st with fd := false, step := .done } else st

def dispatch (p : CntParams) (e : CntEnv) (st : Cnt) : Option Cnt :=
  match st.step with
  | .wait => st.cntWait e
  | .first => st.cntFirst
  | .recv => st.cntRecv p e
  | .start => st.cntStart e
  | .pipe => st.cntPipe e
  | .pass => st.cntPass e
  | .lookup => st.cntLookup e
  | .miss => st.cntMiss e
  | .hit => st.cntHit e
  | .fetch => st.cntFetch e
  | .fetchbody => st.cntFetchbody p e
  | .streambody => st.cntStreambody e
  | .prepresp => st.cntPrepresp p e
  | .deliver => st.cntDeliver e
  | .error => st.cntError p e
  | .done => st.cntDone e

/-- What comes next: a step, an include, the rest of a delivery, or a worker that takes the session up again. -/
def next (p : CntParams) (e : CntEnv) (st : Cnt) : Option Cnt :=
  match st.pc with
  | .run => st.dispatch p e
  | .write 0 => st.cntDeliverEnd e
  | .write (left + 1) => some (st.vedInclude p left)
  | .parked => if st.frames.isEmpty then st.wrkSession e else st.enter
  | .queued => st.wrkSession e
  | .waiter => wrkSession e { st with step := .start }
  | .gone => some st

/-- A session after `n` steps. -/
def runs (p : CntParams) (e : Nat → CntEnv) (st : Cnt) : Nat → Option Cnt
  | 0 => some st
  | n + 1 => (st.runs p e n).bind (next p (e n))

/-- A session that the acceptor has made. -/
def accepted : Cnt :=
  { pc := .queued, step := .first, restarts := 0, handling := .hash, obj := none, objcore := none, director := false,
    vbc := false, vcl := false, xid := false, hashObjhead := false, varyB := false, wantbody := false, fd := true,
    doclose := false, bereq := false, beresp := false, resp := false, doClose := false, storageHint := false,
    hContentLength := false, vfp := false, bodyNone := false, doStream := false, doEsi := false, doGzip := false,
    doGunzip := false, isGzip := false, isGunzip := false, nbusyobj := false, frames := [], recvs := 0, nref := 0,
    ledger := [] }

end Cnt

end VarnishCache
