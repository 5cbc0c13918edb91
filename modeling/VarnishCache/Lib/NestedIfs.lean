import Mathlib.Data.List.Basic
import Mathlib.Tactic

/-!
# Programs of nested ifs

A program is a list of lines that open a block under a test, close a block, do something or return. One that goes from
the path of tests of one case to the path of the next one, and closes no more blocks than it has to, returns the first
case whose tests all hold.
-/

namespace NestedIfs

inductive Line (τ σ ρ : Type*) where
  | ifOpen (t : τ)
  | close
  | stmt (s : σ)
  | ret (r : ρ)

/-- A run that passes over `skip` open blocks, or has returned, with what it has done so far. -/
inductive Run (σ ρ : Type*) where
  | going (skip : Nat) (trace : List σ)
  | done (r : ρ) (trace : List σ)

variable {τ σ ρ : Type*} {holds : τ → Bool} {path path' : List τ} {tr : List σ} {l : Nat}

def step (holds : τ → Bool) : Run σ ρ → Line τ σ ρ → Run σ ρ
  | .done r tr, _ => .done r tr
  | .going 0 tr, .ifOpen t => .going (if holds t then 0 else 1) tr
  | .going 0 tr, .close => .going 0 tr
  | .going 0 tr, .stmt s => .going 0 (tr ++ [s])
  | .going 0 tr, .ret r => .done r tr
  | .going (k + 1) tr, .ifOpen _ => .going (k + 2) tr
  | .going (k + 1) tr, .close => .going k tr
  | .going (k + 1) tr, .stmt _ => .going (k + 1) tr
  | .going (k + 1) tr, .ret _ => .going (k + 1) tr

def exec (holds : τ → Bool) (st : Run σ ρ) (lines : List (Line τ σ ρ)) : Run σ ρ := lines.foldl (step holds) st

lemma exec_append (st : Run σ ρ) (p q : List (Line τ σ ρ)) : exec holds st (p ++ q) = exec holds (exec holds st p) q :=
  List.foldl_append

lemma exec_done (r : ρ) (tr : List σ) (lines : List (Line τ σ ρ)) : exec holds (.done r tr) lines = .done r tr := by
  induction lines with
  | nil => rfl
  | cons line lines ih => exact ih

/-- How many of the open blocks are passed over: all from the first test that fails on. -/
def skipped (holds : τ → Bool) : List τ → Nat
  | [] => 0
  | t :: path => if holds t then skipped holds path else path.length + 1

lemma skipped_eq_zero : skipped holds path = 0 ↔ ∀ t ∈ path, holds t = true := by
  induction path with
  | nil => simp [skipped]
  | cons t path ih =>
    by_cases ht : holds t = true
    · simp [skipped, ht, ih]
    · simp [skipped, ht]

lemma skipped_concat (path : List τ) (t : τ) : skipped holds (path ++ [t]) =
    if skipped holds path = 0 then (if holds t then 0 else 1) else skipped holds path + 1 := by
  induction path with
  | nil => simp [skipped]
  | cons u path ih =>
    by_cases hu : holds u = true
    · simp [skipped, hu, ih]
    · simp [skipped, hu]

lemma step_ifOpen (t : τ) : step holds (.going (skipped holds path) tr) (Line.ifOpen t) =
    (.going (skipped holds (path ++ [t])) tr : Run σ ρ) := by
  rw [skipped_concat]
  cases skipped holds path with
  | zero => rfl
  | succ k => rfl

lemma step_close (t : τ) : step holds (.going (skipped holds (path ++ [t])) tr) Line.close =
    (.going (skipped holds path) tr : Run σ ρ) := by
  rw [skipped_concat]
  cases skipped holds path with
  | zero => cases holds t <;> rfl
  | succ k => rfl

lemma exec_ifOpen (q : List τ) : exec holds (.going (skipped holds path) tr) (q.map Line.ifOpen) =
    (.going (skipped holds (path ++ q)) tr : Run σ ρ) := by
  induction q generalizing path with
  | nil =>
    rw [List.append_nil]
    rfl
  | cons t q ih =>
    change exec holds (step holds _ _) (q.map Line.ifOpen) = _
    rw [step_ifOpen, ih, List.append_assoc]
    rfl

lemma exec_closes (path q : List τ) : exec holds (.going (skipped holds (path ++ q)) tr)
    (List.replicate q.length Line.close) = (.going (skipped holds path) tr : Run σ ρ) := by
  induction q using List.reverseRecOn with
  | nil =>
    rw [List.append_nil]
    rfl
  | append_singleton q t ih =>
    rw [List.length_append, List.length_singleton, List.replicate_succ, ← List.append_assoc]
    change exec holds (step holds _ _) _ = _
    rw [step_close, ih]

/-- From inside of `path` into `path'`, with `l` blocks that stay open. -/
def goTo (depth : Nat) (path' : List τ) (l : Nat) : List (Line τ σ ρ) :=
  List.replicate (depth - l) Line.close ++ (path'.drop l).map Line.ifOpen

lemma exec_goTo (htake : path.take l = path'.take l) :
    exec holds (.going (skipped holds path) tr) (goTo path.length path' l) =
      (.going (skipped holds path') tr : Run σ ρ) := by
  have hclose : exec holds (.going (skipped holds (path.take l ++ path.drop l)) tr) _ = (.going _ tr : Run σ ρ) :=
    exec_closes (path.take l) (path.drop l)
  rw [List.take_append_drop, List.length_drop] at hclose
  rw [goTo, exec_append, hclose, htake, exec_ifOpen, List.take_append_drop]

/-- One case: its statements and its result, if all its tests hold. -/
lemma exec_case (htake : path.take l = path'.take l) (ss : List σ) (r : ρ) :
    exec holds (.going (skipped holds path) tr) (goTo path.length path' l ++ ss.map Line.stmt ++ [Line.ret r]) =
      if ∀ t ∈ path', holds t = true then .done r (tr ++ ss) else .going (skipped holds path') tr := by
  rw [exec_append, exec_append, exec_goTo htake]
  by_cases hall : ∀ t ∈ path', holds t = true
  · rw [if_pos hall, skipped_eq_zero.mpr hall]
    have hss : ∀ tr, exec holds (.going 0 tr) (ss.map Line.stmt) = (.going 0 (tr ++ ss) : Run σ ρ) := by
      induction ss with
      | nil =>
        intro tr
        rw [List.append_nil]
        rfl
      | cons s ss ih =>
        intro tr
        change exec holds (.going 0 (tr ++ [s])) (ss.map Line.stmt) = _
        rw [ih, List.append_assoc]
        rfl
    rw [hss]
    rfl
  · rw [if_neg hall]
    obtain ⟨k, hk⟩ := Nat.exists_eq_succ_of_ne_zero (skipped_eq_zero.not.mpr hall)
    have hss : exec holds (.going (k + 1) tr) (ss.map Line.stmt) = (.going (k + 1) tr : Run σ ρ) := by
      induction ss with
      | nil => rfl
      | cons s ss ih => exact ih
    rw [hk, hss]
    rfl

end NestedIfs
