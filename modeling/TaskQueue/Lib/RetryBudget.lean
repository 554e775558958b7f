/-
# TaskQueue.Lib.RetryBudget -- what a bounded-retry queue is for

An abstract ledger: every enrolled task has a budget and the list of its outcomes,
most recent first.  An outcome may be recorded only while the task is open, that is
until its first success or until `max 1 budget` failures; an open task may be
withdrawn.  Nothing here says who attempts a task, or when.

* `step_sound` keeps `Entry.Sound` over one step, `sound_of_run` over a run: the
  budget is never exceeded and a success is the last outcome.
* `Entry.Sound.closed` splits the closed entries into succeeded and exhausted ones.
-/
import TaskQueue.Lib.Run

namespace RetryBudget

set_option autoImplicit false

open Transition

inductive Outcome where
  | success
  | failure
  deriving DecidableEq, Repr

/-- A task's budget of attempts and its outcomes, most recent first. -/
structure Entry where
  budget : Nat
  outcomes : List Outcome

/-- No success yet, and an attempt left; one attempt is always granted. -/
def Entry.Open (e : Entry) : Prop :=
  Outcome.success ∉ e.outcomes ∧ e.outcomes.length < max 1 e.budget

instance (e : Entry) : Decidable e.Open := inferInstanceAs (Decidable (_ ∧ _))

def Entry.record (e : Entry) (o : Outcome) : Entry := { e with outcomes := o :: e.outcomes }

/-- The ledger of the tasks that were enrolled and not withdrawn. -/
abbrev Ledger (κ : Type) := κ → Option Entry

inductive Act (κ : Type) where
  | enroll (k : κ) (budget : Nat)
  | withdraw (k : κ)
  | record (k : κ) (o : Outcome)

variable {κ : Type} [DecidableEq κ]

def put (l : Ledger κ) (k : κ) (e : Option Entry) : Ledger κ := fun i => if i = k then e else l i

def step (l : Ledger κ) : Act κ → Option (Ledger κ)
  | .enroll k budget => if l k = none then some (put l k (some ⟨budget, []⟩)) else none
  | .withdraw k =>
      match l k with
      | some e => if e.Open then some (put l k none) else none
      | none => none
  | .record k o =>
      match l k with
      | some e => if e.Open then some (put l k (some (e.record o))) else none
      | none => none

/-- Within budget, and with a success only as the last outcome. -/
structure Entry.Sound (e : Entry) : Prop where
  bounded : e.outcomes.length ≤ max 1 e.budget
  final : ∀ o rest, e.outcomes = o :: rest → Outcome.success ∉ rest

theorem Entry.sound_new (budget : Nat) : Entry.Sound ⟨budget, []⟩ :=
  ⟨Nat.zero_le _, by simp⟩

theorem Entry.Open.sound_record {e : Entry} (isOpen : e.Open) (o : Outcome) :
    (e.record o).Sound := by
  refine ⟨isOpen.2, fun o' rest same => ?_⟩
  cases same
  exact isOpen.1

/-- A closed entry either ends in its only success or has used its budget on failures. -/
theorem Entry.Sound.closed {e : Entry} (sound : e.Sound) (closed : ¬ e.Open) :
    (∃ rest, e.outcomes = .success :: rest ∧ Outcome.success ∉ rest) ∨
      (Outcome.success ∉ e.outcomes ∧ e.outcomes.length = max 1 e.budget) := by
  by_cases won : Outcome.success ∈ e.outcomes
  · left
    cases shape : e.outcomes with
    | nil => simp [shape] at won
    | cons o rest =>
        have tail := sound.final o rest shape
        rw [shape, List.mem_cons] at won
        exact ⟨rest, by rw [won.resolve_right tail], tail⟩
  · right
    refine ⟨won, Nat.le_antisymm sound.bounded ?_⟩
    exact Nat.not_lt.1 fun short => closed ⟨won, short⟩

theorem step_sound {l l' : Ledger κ} {a : Act κ} (sound : ∀ k e, l k = some e → e.Sound)
    (taken : step l a = some l') : ∀ k e, l' k = some e → e.Sound := by
  intro i e at_
  cases a with
  | enroll k budget =>
      simp only [step, Option.ite_none_right_eq_some, Option.some.injEq] at taken
      obtain ⟨-, rfl⟩ := taken
      simp only [put] at at_
      split at at_
      · cases at_
        exact Entry.sound_new budget
      · exact sound i e at_
  | withdraw k =>
      simp only [step] at taken
      split at taken
      · simp only [Option.ite_none_right_eq_some, Option.some.injEq] at taken
        obtain ⟨-, rfl⟩ := taken
        simp only [put] at at_
        split at at_
        · cases at_
        · exact sound i e at_
      · cases taken
  | record k o =>
      simp only [step] at taken
      split at taken
      · simp only [Option.ite_none_right_eq_some, Option.some.injEq] at taken
        obtain ⟨isOpen, rfl⟩ := taken
        simp only [put] at at_
        split at at_
        · cases at_
          exact isOpen.sound_record o
        · exact sound i e at_
      · cases taken

/-- **Every entry of every reachable ledger is sound.** -/
theorem sound_of_run {t : History (Ledger κ) (Act κ)} {l : Ledger κ}
    (run : Run step (fun _ => none) t l) : ∀ k e, l k = some e → e.Sound :=
  run.invariant (P := fun _ l => ∀ k e, l k = some e → e.Sound) (by simp)
    fun _ _ _ _ _ sound taken => step_sound sound taken

end RetryBudget
