import Mathlib.Data.List.Basic
import Mathlib.Logic.Function.Basic

/-!
# A worker pool

`wrk_thread_real`, `WRK_Queue` and `wrk_decimate_flock` of `bin/varnishd/cache_pool.c`, for one pool: a call of
`WRK_Queue` picks one pool and touches no other. A critical section under `qp->mtx` is one step. `WRK_Queue` writes
`w->sp` and signals after it has unlocked, so these are steps of their own. A wait on `w->cond` can return at any
time: a return without a signal is a spurious wake-up. The stack of a worker that has left its loop, with `w->sp`
and `w->cond` on it, is gone: a call that still uses it has failed. Each call of `WRK_Queue` has a session number of
its own. A step that cannot be taken is `none`.
-/

namespace VarnishCache

/-- Where a worker is in `wrk_thread_real`. -/
inductive WrkPc where
  | out
  /-- At the top of the loop. -/
  | top
  /-- In `Lck_CondWait`, and whether it was signalled. -/
  | wait (signalled : Bool)
  /-- It has found `w->sp` set. -/
  | ready
  /-- In `CNT_Session`. -/
  | session
  /-- It has left the loop. -/
  | left
  deriving DecidableEq

structure PoolWrk where
  pc : WrkPc
  sp : Option Nat
  deriving DecidableEq

namespace PoolWrk

variable (v : PoolWrk)

/-- The session that a worker has got and not yet run. -/
def given : Option Nat :=
  match v.pc with
  | .wait _ => v.sp
  | .ready => v.sp
  | _ => none

/-- `pthread_cond_signal`. -/
def signalled : PoolWrk :=
  match v.pc with
  | .wait _ => { v with pc := .wait true }
  | _ => v

end PoolWrk

/-- `struct wq`, its workers, and the calls that have unlocked it. -/
structure WrkPool where
  queue : List Nat
  lqueue : Nat
  idle : List Nat
  wrk : Nat → PoolWrk
  /-- Calls of `WRK_Queue` that have taken a worker off the idle list, with the session. -/
  handing : List (Nat × Nat)
  /-- Calls of `WRK_Queue` that have written `w->sp`. -/
  signalling : List Nat
  /-- Workers that `wrk_decimate_flock` has taken off the idle list. -/
  retiring : List Nat
  /-- The sessions for which `WRK_Queue` returns 0. -/
  accepted : List Nat
  /-- The sessions that were run, each with its worker. -/
  ran : List (Nat × Nat)
  /-- A check has failed, or a worker that has left its loop was used. -/
  failed : Bool

inductive PoolStep where
  /-- A worker thread is made. -/
  | create (w : Nat)
  /-- A worker looks at the queue. -/
  | look (w : Nat)
  /-- The wait of a worker returns. -/
  | wake (w : Nat)
  /-- `CNT_Session` is called. -/
  | session (w : Nat)
  /-- `CNT_Session` has returned. -/
  | finish (w : Nat)
  /-- `WRK_Queue` up to its unlocking. -/
  | queue (sp : Nat)
  /-- `WRK_Queue` writes `w->sp`. -/
  | hand (i : Nat)
  | signal (i : Nat)
  /-- `wrk_decimate_flock`, where the last idle worker has to go. -/
  | decimate
  | kiss (i : Nat)

namespace WrkPool

variable (queueMax : Nat) (s : WrkPool)

def setWrk (w : Nat) (v : PoolWrk) : WrkPool := { s with wrk := Function.update s.wrk w v }

def hasLeft (w : Nat) : Bool := (s.wrk w).pc = .left

def step : PoolStep → Option WrkPool
  | .create w => if (s.wrk w).pc = .out then some (s.setWrk w { pc := .top, sp := none }) else none
  | .look w =>
    if (s.wrk w).pc = .top then
      match s.queue with
      | sp :: queue =>
        some { s.setWrk w { pc := .ready, sp := some sp } with queue := queue, lqueue := s.lqueue - 1 }
      | [] => some { s.setWrk w { pc := .wait false, sp := none } with idle := w :: s.idle }
    else none
  | .wake w =>
    match (s.wrk w).pc with
    | .wait _ => some (s.setWrk w { s.wrk w with pc := if (s.wrk w).sp = none then .left else .ready })
    | _ => none
  | .session w =>
    match s.wrk w with
    | ⟨.ready, some sp⟩ => some { s.setWrk w { pc := .session, sp := some sp } with ran := s.ran ++ [(sp, w)] }
    | _ => none
  | .finish w => if (s.wrk w).pc = .session then some (s.setWrk w { pc := .top, sp := none }) else none
  | .queue sp =>
    if sp ∈ s.accepted then none
    else
      match s.idle with
      | w :: idle =>
        some { s with idle := idle, handing := s.handing ++ [(sp, w)], accepted := s.accepted ++ [sp] }
      | [] =>
        if queueMax < s.lqueue then some s
        else
          some { s with queue := s.queue ++ [sp], lqueue := s.lqueue + 1, accepted := s.accepted ++ [sp] }
  | .hand i =>
    match s.handing[i]? with
    | some (sp, w) =>
      some { s.setWrk w { s.wrk w with sp := some sp } with
        handing := s.handing.eraseIdx i, signalling := s.signalling ++ [w], failed := s.failed || s.hasLeft w }
    | none => none
  | .signal i =>
    match s.signalling[i]? with
    | some w =>
      some { s.setWrk w (s.wrk w).signalled with
        signalling := s.signalling.eraseIdx i, failed := s.failed || s.hasLeft w }
    | none => none
  | .decimate =>
    match s.idle.getLast? with
    | some w => some { s with idle := s.idle.dropLast, retiring := s.retiring ++ [w] }
    | none => none
  | .kiss i =>
    match s.retiring[i]? with
    | some w =>
      some { s.setWrk w (s.wrk w).signalled with
        retiring := s.retiring.eraseIdx i, failed := s.failed || s.hasLeft w || (s.wrk w).sp.isSome }
    | none => none

/-- A pool that has just been added. -/
def init : WrkPool :=
  { queue := [], lqueue := 0, idle := [], wrk := fun _ => { pc := .out, sp := none }, handing := [], signalling := [],
    retiring := [], accepted := [], ran := [], failed := false }

def run : WrkPool → List PoolStep → Option WrkPool
  | s, [] => some s
  | s, c :: cs => (s.step queueMax c).bind (fun s => run s cs)

def given (w : Nat) : Option Nat := (s.wrk w).given

def acceptance (sp : Nat) : Nat := if sp ∈ s.accepted then 1 else 0

/-- How often a session is in the queue, or with a call of `WRK_Queue`, or was run. -/
def places (sp : Nat) : Nat := s.queue.count sp + (s.handing.map (·.1)).count sp + (s.ran.map (·.1)).count sp

/-- The workers on the idle list, and those that were taken off it and not told yet. -/
def listed : List Nat := s.idle ++ (s.handing.map (·.2) ++ s.retiring)

/-- The condition on a step: a wait does not return while the worker is on the idle list, nor when it was taken off
it and `w->sp` is not written or the kiss not given yet, nor without a session while a call that handed it one is
still to signal. -/
def WakeOk : PoolStep → Prop
  | .wake w => w ∉ s.listed ∧ ((s.wrk w).sp = none → w ∉ s.signalling)
  | _ => True

instance : DecidablePred s.WakeOk
  | .wake w => inferInstanceAs (Decidable (w ∉ s.listed ∧ ((s.wrk w).sp = none → w ∉ s.signalling)))
  | .create _ => .isTrue trivial
  | .look _ => .isTrue trivial
  | .session _ => .isTrue trivial
  | .finish _ => .isTrue trivial
  | .queue _ => .isTrue trivial
  | .hand _ => .isTrue trivial
  | .signal _ => .isTrue trivial
  | .decimate => .isTrue trivial
  | .kiss _ => .isTrue trivial

/-- What the threads do by themselves, without new calls and new threads. A wait returns behind a signal. -/
def Internal : PoolStep → Prop
  | .create _ => False
  | .queue _ => False
  | .decimate => False
  | .wake w => (s.wrk w).pc = .wait true ∧ s.WakeOk (.wake w)
  | _ => True

/-- All steps of a run meet a condition on the state before them. -/
def Along (P : WrkPool → PoolStep → Prop) : WrkPool → List PoolStep → Prop
  | _, [] => True
  | s, c :: cs => P s c ∧ ∀ s', s.step queueMax c = some s' → Along P s' cs

instance decidableAlong (P : WrkPool → PoolStep → Prop) [∀ s, DecidablePred (P s)] :
    (s : WrkPool) → DecidablePred (s.Along queueMax P)
  | _, [] => .isTrue trivial
  | s, c :: cs =>
    match h : s.step queueMax c with
    | none => decidable_of_iff (P s c) ⟨fun hc => ⟨hc, fun s' hs => by simp [h] at hs⟩, And.left⟩
    | some s' =>
      have := decidableAlong P s' cs
      decidable_of_iff (P s c ∧ s'.Along queueMax P cs) (and_congr_right fun _ => by simp [h])

/-- The condition on a run. -/
abbrev WakesOk : WrkPool → List PoolStep → Prop := Along queueMax WakeOk

/-- The threads come to rest. Then every session that was accepted was run once, or is in the queue of a pool without a
worker. -/
structure Settles : Prop where
  stops : ∃ n, ∀ cs s', s.run queueMax cs = some s' → s.Along queueMax Internal cs → cs.length ≤ n
  served : ∀ cs s', s.run queueMax cs = some s' → s.Along queueMax Internal cs →
    (∀ c, s'.Internal c → s'.step queueMax c = none) → ∀ sp ∈ s'.accepted, (s'.ran.map (·.1)).count sp = 1 ∨
      sp ∈ s'.queue ∧ ∀ w, (s'.wrk w).pc = .out ∨ (s'.wrk w).pc = .left

end WrkPool

end VarnishCache
