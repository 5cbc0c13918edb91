import Mathlib.Data.List.Basic
import Mathlib.Logic.Function.Basic

/-!
# The life of a VCL

`bin/varnishd/cache_vcl.c`, with the places where a reference to a VCL goes from a worker to a session and back
(`cnt_start`, `cnt_done`), or is given up (`wrk_thread_real`, `WRK_QueueSession`). A critical section under
`vcl_mtx` is one step, and so is what the CLI thread does to `vcl_head` between two of them. `VCL_Refresh` looks at
`vcl_active` without the lock, and `VCL_Poll` at one `conf->busy` after the other. Records have numbers; `none` is
memory that is not in use, and a freed number can be used again. A step that cannot be taken is `none`.
-/

namespace VarnishCache

structure Vcls where
  name : String
  discard : Bool
  busy : Nat
  deriving DecidableEq

/-- `wrk->vcl`, and where the worker is in `VCL_Refresh`. -/
inductive VclWrk where
  | has (vcl : Option Nat)
  /-- It holds another VCL than the active one and is to release it. -/
  | stale (vcl : Nat)
  /-- It is to get the active one. -/
  | get
  /-- `VCL_Refresh` has returned. -/
  | fresh (vcl : Nat)
  deriving DecidableEq

/-- The VCL that a worker has a reference to. -/
def VclWrk.vcl : VclWrk → Option Nat
  | .has vcl => vcl
  | .stale vcl => some vcl
  | .get => none
  | .fresh vcl => some vcl

/-- Where the CLI thread is. -/
inductive VclCli where
  | idle
  /-- `ccf_config_discard` has unlocked. -/
  | discard (vcl : Nat)
  /-- `VCL_Poll` has these records to go. -/
  | poll (rest : List Nat)
  deriving DecidableEq

structure VclState where
  vcls : Nat → Option Vcls
  /-- `vcl_head`. -/
  head : List Nat
  /-- `vcl_active`. -/
  active : Option Nat
  /-- `sp->vcl` of each session. -/
  sess : Nat → Option Nat
  wrk : Nat → VclWrk
  cli : VclCli

inductive VclStep where
  /-- `vcl.load`; the record gets this number if the library can be opened and initialised. -/
  | load (name : String) (vcl : Option Nat)
  | use (name : String)
  | discard (name : String)
  /-- The rest of `ccf_config_discard`. -/
  | discardNuke
  | poll
  | pollNext
  | pollEnd
  /-- The first line of `VCL_Refresh`. -/
  | refresh (w : Nat)
  /-- `VCL_Rel` in `VCL_Refresh`. -/
  | refreshRel (w : Nat)
  /-- `VCL_Get`. -/
  | get (w : Nat)
  /-- `cnt_start`: the session takes the reference of its worker. -/
  | start (w sp : Nat)
  /-- `VCL_Rel` of the worker's reference: in `cnt_done`, or between sessions, or when the worker ends. -/
  | wrkRel (w : Nat)
  /-- `cnt_done`: the worker takes the reference back. -/
  | done (w sp : Nat)
  /-- `WRK_QueueSession` cannot queue a session that was parked. -/
  | sessRel (sp : Nat)

namespace VclState

variable (s : VclState)

/-- `vcl_find`. -/
def find (name : String) : Option Nat :=
  s.head.find? (fun vcl => match s.vcls vcl with
    | none => false
    | some v => !v.discard && v.name == name)

def setVcls (vcl : Nat) (v : Vcls) : VclState := { s with vcls := Function.update s.vcls vcl (some v) }

/-- `VCL_Nuke`. -/
def nuke (vcl : Nat) : VclState :=
  { s with vcls := Function.update s.vcls vcl none, head := s.head.filter (fun a => a ≠ vcl) }

/-- `VCL_Rel` inside the lock. -/
def rel (vcl : Nat) : Option VclState :=
  match s.vcls vcl with
  | none => none
  | some v => if v.busy = 0 then none else some (s.setVcls vcl { v with busy := v.busy - 1 })

/-- `VCL_Get` inside the lock. -/
def takeRef (vcl : Nat) : Option VclState :=
  match s.vcls vcl with
  | none => none
  | some v => if v.discard then none else some (s.setVcls vcl { v with busy := v.busy + 1 })

def setWrk (w : Nat) (v : VclWrk) : VclState := { s with wrk := Function.update s.wrk w v }

def setSess (sp : Nat) (v : Option Nat) : VclState := { s with sess := Function.update s.sess sp v }

/-- Nuke a VCL if `test` is right and it is not busy. -/
def nukeIdle (test : Vcls → Bool) (vcl : Nat) : VclState :=
  match s.vcls vcl with
  | none => s
  | some v => if test v && v.busy == 0 then s.nuke vcl else s

/-- A command of the CLI. -/
def cliStep : VclStep → Option VclState
  | .load name vcl =>
    match s.find name, vcl with
    | some _, _ => some s
    | none, none => some s
    | none, some vcl =>
      if (s.vcls vcl).isSome then none
      else
        let s := s.setVcls vcl { name := name, discard := false, busy := 0 }
        some { s with head := s.head ++ [vcl], active := some (s.active.getD vcl) }
  | .use name =>
    match s.find name with
    | none => some s
    | some vcl => some { s with active := some vcl }
  | .discard name =>
    match s.find name with
    | none => some s
    | some vcl =>
      if s.active = some vcl then some s
      else
        match s.vcls vcl with
        | none => none
        | some v => some { s.setVcls vcl { v with discard := true } with cli := .discard vcl }
  | .poll => some { s with cli := .poll s.head }
  | _ => none

def step : VclStep → Option VclState
  | .discardNuke =>
    match s.cli with
    | .discard vcl => some { s.nukeIdle (fun _ => true) vcl with cli := .idle }
    | _ => none
  | .pollNext =>
    match s.cli with
    | .poll (vcl :: rest) => some { s.nukeIdle (·.discard) vcl with cli := .poll rest }
    | _ => none
  | .pollEnd => if s.cli = .poll [] then some { s with cli := .idle } else none
  | .refresh w =>
    match s.wrk w with
    | .has vcl =>
      match vcl with
      | none => some (s.setWrk w .get)
      | some vcl => some (s.setWrk w (if s.active = some vcl then .fresh vcl else .stale vcl))
    | _ => none
  | .refreshRel w =>
    match s.wrk w with
    | .stale vcl => (s.rel vcl).map (fun s => s.setWrk w .get)
    | _ => none
  | .get w =>
    match s.wrk w, s.active with
    | .get, some vcl => (s.takeRef vcl).map (fun s => s.setWrk w (.fresh vcl))
    | _, _ => none
  | .start w sp =>
    match s.wrk w, s.sess sp with
    | .fresh vcl, none => some ((s.setSess sp (some vcl)).setWrk w (.has none))
    | _, _ => none
  | .wrkRel w =>
    match s.wrk w with
    | .has (some vcl) => (s.rel vcl).map (fun s => s.setWrk w (.has none))
    | _ => none
  | .done w sp =>
    match s.wrk w, s.sess sp with
    | .has none, some vcl => some ((s.setWrk w (.has (some vcl))).setSess sp none)
    | _, _ => none
  | .sessRel sp =>
    match s.sess sp with
    | some vcl => (s.rel vcl).map (fun s => s.setSess sp none)
    | none => none
  | c => if s.cli = .idle then s.cliStep c else none

/-- Before the first `vcl.load`. -/
def init : VclState :=
  { vcls := fun _ => none, head := [], active := none, sess := fun _ => none, wrk := fun _ => .has none, cli := .idle }

def run : VclState → List VclStep → Option VclState
  | s, [] => some s
  | s, c :: cs => (s.step c).bind (fun s => run s cs)

end VclState

/-- Who can have a reference to a VCL. -/
inductive VclHolder where
  | sess (sp : Nat)
  | wrk (w : Nat)
  deriving DecidableEq

/-- The VCL that somebody has a reference to. -/
def VclState.holding (s : VclState) : VclHolder → Option Nat
  | .sess sp => s.sess sp
  | .wrk w => (s.wrk w).vcl

end VarnishCache
