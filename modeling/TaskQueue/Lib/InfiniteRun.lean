/-
# TaskQueue.Lib.InfiniteRun -- runs that go on for ever

An infinite run is a sequence of states and one of events, and every initial part of it is a
finite `Run`.  What holds of finite runs holds at every moment of it; the rules here are for
what happens at some later moment.

* `past` is the history at a moment, `Unfolds.run` the finite run up to it.
* `persists`: what every step from a moment on keeps.
* `leads`: a party that is scheduled as long as it has not got there, and that comes nearer
  with each of its own steps, gets there.
* `settles`: a number that never rises from some moment on is constant from a later one on.
-/
import Mathlib.Order.WellFounded
import TaskQueue.Lib.Run

namespace Transition

set_option autoImplicit false

variable {S E : Type}

/-- The states and the events of an infinite run from `s₀`. -/
structure Unfolds (step : S → E → Option S) (s₀ : S) (states : Nat → S) (events : Nat → E) :
    Prop where
  starts : states 0 = s₀
  steps : ∀ n, step (states n) (events n) = some (states (n + 1))

/-- The history after `n` steps. -/
def past (states : Nat → S) (events : Nat → E) : Nat → History S E
  | 0 => []
  | n + 1 => (states n, events n) :: past states events n

section

variable {step : S → E → Option S} {s₀ : S} {states : Nat → S} {events : Nat → E}

theorem Unfolds.run (unfolds : Unfolds step s₀ states events) :
    ∀ n, Run step s₀ (past states events n) (states n)
  | 0 => by
      rw [unfolds.starts]
      exact .nil
  | n + 1 => .snoc (unfolds.run n) (unfolds.steps n)

/-- A step before an infinite run. -/
def prepend {α : Type} (first : α) (rest : Nat → α) : Nat → α
  | 0 => first
  | n + 1 => rest n

theorem Unfolds.prepend {s : S} {e : E} (taken : step s e = some s₀)
    (unfolds : Unfolds step s₀ states events) :
    Unfolds step s (Transition.prepend s states) (Transition.prepend e events) where
  starts := rfl
  steps
    | 0 => taken.trans (congrArg some unfolds.starts.symm)
    | n + 1 => unfolds.steps n

end

/-! ## Later moments -/

/-- What every step from moment `n` on keeps, if it holds then. -/
theorem persists {P : Nat → Prop} {n : Nat} (next : ∀ k, n ≤ k → P k → P (k + 1)) (start : P n) :
    ∀ k, n ≤ k → P k := fun _ later => Nat.le_induction start next _ later

/-- The first moment from `n` on at which something happens, with what lasts until then. -/
theorem persists_until (own P : Nat → Prop) {n : Nat} (happens : ∃ m, n ≤ m ∧ own m)
    (next : ∀ k, n ≤ k → P k → ¬ own k → P (k + 1)) (start : P n) :
    ∃ m, n ≤ m ∧ own m ∧ P m := by
  classical
  by_contra never
  -- as long as it has not happened `P` lasts, and so it never happens
  have lasts : ∀ k, n ≤ k → P k := persists (fun k later holds =>
    next k later holds fun now => never ⟨k, later, now, holds⟩) start
  obtain ⟨m, later, now⟩ := happens
  exact never ⟨m, later, now, lasts m later⟩

/-- **Leads to.**  In `phase` a party is scheduled again; the steps of others keep the phase and
do not raise the rank; its own reach the goal, or keep the phase and lower the rank. -/
theorem leads (phase own goal : Nat → Prop) (rank : Nat → Nat)
    (scheduled : ∀ n, phase n → ∃ m, n ≤ m ∧ own m)
    (waits : ∀ n, phase n → ¬ own n → phase (n + 1) ∧ rank (n + 1) ≤ rank n)
    (goesOn : ∀ n, phase n → own n → goal n ∨ phase (n + 1) ∧ rank (n + 1) < rank n) :
    ∀ n, phase n → ∃ m, n ≤ m ∧ phase m ∧ goal m := by
  intro n start
  induction left : rank n using Nat.strong_induction_on generalizing n with
  | _ r ih =>
      obtain ⟨m, later, now, still, below⟩ := persists_until own
        (fun k => phase k ∧ rank k ≤ r) (scheduled n start) (fun k _ holds other => by
          obtain ⟨still, le⟩ := waits k holds.1 other
          exact ⟨still, Nat.le_trans le holds.2⟩) ⟨start, left.le⟩
      rcases goesOn m still now with reached | ⟨still', less⟩
      · exact ⟨m, later, still, reached⟩
      · obtain ⟨m', later', there⟩ := ih _ (Nat.lt_of_lt_of_le less below) (m + 1) still' rfl
        exact ⟨m', by omega, there⟩

/-- A number that never rises from some moment on settles. -/
theorem settles {f : Nat → Nat} {N : Nat} (falls : ∀ n, N ≤ n → f (n + 1) ≤ f n) :
    ∃ M, N ≤ M ∧ ∀ n, M ≤ n → f n = f M := by
  obtain ⟨M, late, least⟩ := WellFounded.has_min (measure f).wf {n | N ≤ n} ⟨N, Nat.le_refl N⟩
  refine ⟨M, late, fun n later => ?_⟩
  have below : f n ≤ f M := persists (P := fun k => f k ≤ f M)
    (fun k after le => Nat.le_trans (falls k (Nat.le_trans late after)) le) (Nat.le_refl _) n later
  have above : ¬ f n < f M := least n (Nat.le_trans late later)
  omega

end Transition
