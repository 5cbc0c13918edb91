import Mathlib.Data.List.Basic
import Mathlib.Logic.Function.Basic

/-!
# References to backends

`VBE_AddBackend`, `VBE_DropRefLocked` and its callers of `bin/varnishd/cache_backend_cfg.c`, `vbe_GetVbe` and
`bes_conn_try` of `cache_backend.c`, `VDI_CloseFd` and `VDI_RecycleFd` of `cache_dir.c`. A critical section under
`b->mtx` is one step, and so is a call of `VBE_AddBackend`: it looks only at what the CLI thread owns, and raises
one count, which it does without taking `b->mtx`. A session has a VCL as long as it has a connection, and the
references of a VCL to its backends are given up only when no session has it. Backends have numbers; `none` is
memory that is not in use. The text that a new backend gets is left out of the steps, and is in `VBE_AddBackend` as
a function of its own. A step that cannot be taken, like a failed assertion on a count, is `none`; the assertion
that the last reference goes in the CLI thread is part of the state.
-/

namespace VarnishCache

/-- What `VBE_AddBackend` compares. -/
structure BackendKey where
  vclName : String
  ipv4 : Option (List UInt8)
  ipv6 : Option (List UInt8)
  deriving DecidableEq

/-- `struct vrt_backend`, with what `Emit_Sockaddr` of the compiler sees to. -/
structure BackendDef where
  key : BackendKey
  ipv4Addr : Option String
  ipv6Addr : Option String
  port : String
  resolved : key.ipv4 ≠ none ∨ key.ipv6 ≠ none
  sized : key.ipv4 ≠ some [] ∧ key.ipv6 ≠ some []

/-- The text that `VBE_AddBackend` prints into 128 bytes. -/
def BackendDef.text (vb : BackendDef) : String :=
  vb.key.vclName ++ "(" ++ vb.ipv4Addr.getD "" ++ "," ++ vb.ipv6Addr.getD "" ++ "," ++ vb.port ++ ")"

structure Backend where
  key : BackendKey
  refcount : Nat
  nConn : Nat
  /-- The idle connections. -/
  connlist : List Nat
  deriving DecidableEq

/-- What a session does with a backend. -/
inductive VbeConn where
  | idle
  /-- `vbe_GetVbe` has taken an idle connection and looks whether it is still good. -/
  | check (b vc : Nat)
  /-- `bes_conn_try` is connecting. -/
  | connecting (b : Nat)
  /-- `sp->vbc`. -/
  | vbc (b vc : Nat)
  deriving DecidableEq

def VbeConn.backend : VbeConn → Option Nat
  | .idle => none
  | .check b _ => some b
  | .connecting b => some b
  | .vbc b _ => some b

structure VbeSess where
  vcl : Option Nat
  conn : VbeConn
  deriving DecidableEq

structure VbeState where
  backend : Nat → Option Backend
  /-- `backends`. -/
  backends : List Nat
  /-- The references of VCLs, each with its VCL. -/
  vclRefs : List (Nat × Nat)
  /-- The VCLs that are nuked. -/
  nuked : Nat → Bool
  sess : Nat → VbeSess
  /-- The last reference of some backend was dropped outside the CLI thread. -/
  lastOutsideCli : Bool

inductive VbeStep where
  /-- `VBE_AddBackend` for a VCL; a new backend gets this number. -/
  | addBackend (vcl : Nat) (vb : BackendKey) (new : Nat)
  /-- `VCL_Nuke` of a VCL that no session has. -/
  | nukeVcl (vcl : Nat)
  /-- `VBE_DropRefVcl` of one reference of a nuked VCL. -/
  | dropRefVcl (i : Nat)
  | getVcl (sp vcl : Nat)
  | relVcl (sp : Nat)
  /-- `vbe_GetVbe` finds an idle connection. -/
  | recycle (sp b : Nat)
  /-- `vbe_CheckFd` likes it. -/
  | good (sp : Nat)
  /-- `vbe_CheckFd` does not. -/
  | tooLate (sp : Nat)
  /-- `bes_conn_try` up to its connecting. -/
  | connTry (sp b : Nat)
  | connected (sp vc : Nat)
  | failed (sp : Nat)
  | recycleFd (sp : Nat)
  | closeFd (sp : Nat)

namespace Backend

/-- The comparisons of `VBE_AddBackend`. -/
def same (b : Backend) (vb : BackendKey) : Bool :=
  b.key.vclName == vb.vclName && (vb.ipv4.isNone || b.key.ipv4 == vb.ipv4) && (vb.ipv6.isNone || b.key.ipv6 == vb.ipv6)

end Backend

namespace VbeState

variable (s : VbeState)

def setBackend (b : Nat) (v : Backend) : VbeState := { s with backend := Function.update s.backend b (some v) }

def setConn (sp : Nat) (c : VbeConn) : VbeState :=
  { s with sess := Function.update s.sess sp { s.sess sp with conn := c } }

/-- `VBE_Nuke`. -/
def nuke (b : Nat) : VbeState :=
  { s with backend := Function.update s.backend b none, backends := s.backends.filter (fun a => a ≠ b) }

/-- `VBE_DropRefLocked`, in the CLI thread or another. The record is as it is inside the lock. -/
def dropRefLocked (cli : Bool) (b : Nat) (v : Backend) : Option VbeState :=
  if v.refcount = 0 then none
  else if v.refcount = 1 then some { s.nuke b with lastOutsideCli := s.lastOutsideCli || !cli }
  else some (s.setBackend b { v with refcount := v.refcount - 1 })

/-- `VBE_DropRefVcl`. -/
def dropRefVcl (b : Nat) : Option VbeState :=
  match s.backend b with
  | none => none
  | some v => s.dropRefLocked true b v

/-- `VBE_DropRefConn`, from a session. -/
def dropRefConn (b : Nat) : Option VbeState :=
  match s.backend b with
  | none => none
  | some v => if v.nConn = 0 then none else s.dropRefLocked false b { v with nConn := v.nConn - 1 }

/-- The loop of `VBE_AddBackend`. -/
def findBackend (vb : BackendKey) : Option Nat :=
  s.backends.find? (fun b => ((s.backend b).map (fun v => v.same vb)).getD false)

/-- `VBE_AddBackend`: the backend that it returns. -/
def vbeAddBackend (vb : BackendDef) (new : Nat) : Option (VbeState × Nat) :=
  match s.findBackend vb.key with
  | some b =>
    match s.backend b with
    | none => none
    | some v => some (s.setBackend b { v with refcount := v.refcount + 1 }, b)
  | none =>
    if 128 ≤ vb.text.utf8ByteSize then none
    else
      some ({ s.setBackend new { key := vb.key, refcount := 1, nConn := 0, connlist := [] } with
        backends := s.backends ++ [new] }, new)

/-- The session has this VCL and the VCL this backend. -/
def mayUse (sp b : Nat) : Bool :=
  match (s.sess sp).vcl with
  | none => false
  | some vcl => s.vclRefs.contains (vcl, b)

def step : VbeStep → Option VbeState
  | .addBackend vcl vb new =>
    if s.nuked vcl then none
    else
      match s.findBackend vb with
      | some b =>
        match s.backend b with
        | none => none
        | some v =>
          some { s.setBackend b { v with refcount := v.refcount + 1 } with vclRefs := s.vclRefs ++ [(vcl, b)] }
      | none =>
        if (s.backend new).isSome then none
        else
          some { s.setBackend new { key := vb, refcount := 1, nConn := 0, connlist := [] } with
            backends := s.backends ++ [new], vclRefs := s.vclRefs ++ [(vcl, new)] }
  | .nukeVcl vcl => some { s with nuked := Function.update s.nuked vcl true }
  | .dropRefVcl i =>
    match s.vclRefs[i]? with
    | none => none
    | some (vcl, b) =>
      if s.nuked vcl then (s.dropRefVcl b).map (fun s => { s with vclRefs := s.vclRefs.eraseIdx i }) else none
  | .getVcl sp vcl =>
    if s.nuked vcl || (s.sess sp).vcl.isSome then none
    else some { s with sess := Function.update s.sess sp { s.sess sp with vcl := some vcl } }
  | .relVcl sp =>
    if (s.sess sp).conn = .idle then some { s with sess := Function.update s.sess sp { vcl := none, conn := .idle } }
    else none
  | .recycle sp b =>
    if s.mayUse sp b && (s.sess sp).conn == .idle then
      match s.backend b with
      | none => none
      | some v =>
        match v.connlist with
        | [] => some s
        | vc :: connlist =>
          some ((s.setBackend b { v with refcount := v.refcount + 1, connlist := connlist }).setConn sp (.check b vc))
    else none
  | .good sp =>
    match (s.sess sp).conn with
    | .check b vc => some (s.setConn sp (.vbc b vc))
    | _ => none
  | .tooLate sp =>
    match (s.sess sp).conn with
    | .check b _ => (s.dropRefConn b).map (fun s => s.setConn sp .idle)
    | _ => none
  | .connTry sp b =>
    if s.mayUse sp b && (s.sess sp).conn == .idle then
      match s.backend b with
      | none => none
      | some v =>
        some ((s.setBackend b { v with refcount := v.refcount + 1, nConn := v.nConn + 1 }).setConn sp (.connecting b))
    else none
  | .connected sp vc =>
    match (s.sess sp).conn with
    | .connecting b => some (s.setConn sp (.vbc b vc))
    | _ => none
  | .failed sp =>
    match (s.sess sp).conn with
    | .connecting b =>
      match s.backend b with
      | none => none
      | some v =>
        some ((s.setBackend b { v with refcount := v.refcount - 1, nConn := v.nConn - 1 }).setConn sp .idle)
    | _ => none
  | .recycleFd sp =>
    match (s.sess sp).conn with
    | .vbc b vc =>
      match s.backend b with
      | none => none
      | some v =>
        (s.dropRefLocked false b { v with connlist := vc :: v.connlist }).map (fun s => s.setConn sp .idle)
    | _ => none
  | .closeFd sp =>
    match (s.sess sp).conn with
    | .vbc b _ => (s.dropRefConn b).map (fun s => s.setConn sp .idle)
    | _ => none

/-- No session has the VCL when it is nuked. -/
def NukeOk : VbeStep → Prop
  | .nukeVcl vcl => ∀ sp, (s.sess sp).vcl ≠ some vcl
  | _ => True

/-- Before the first VCL is loaded. -/
def init : VbeState :=
  { backend := fun _ => none, backends := [], vclRefs := [], nuked := fun _ => false,
    sess := fun _ => { vcl := none, conn := .idle }, lastOutsideCli := false }

/-- The backend that a session has a connection to, or is getting one. -/
def used (sp : Nat) : Option Nat := (s.sess sp).conn.backend

end VbeState

/-- The states of all runs in which VCLs are nuked only when no session has them. -/
inductive VbeReach : VbeState → Prop where
  | init : VbeReach .init
  | step {s s' : VbeState} (c : VbeStep) (h : VbeReach s) (hok : s.NukeOk c) (hstep : s.step c = some s') : VbeReach s'

end VarnishCache
