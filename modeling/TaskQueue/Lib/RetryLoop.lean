/-
# TaskQueue.Lib.RetryLoop -- trying again, one attempt after another

`attempts` tries an action until it succeeds, fails for good, or has been tried `left` more
times.  The action sees the number of the attempt and the error of the one before, and is
`none` while it has not ended; so is the loop then.

* `Failed` is how far the loop can get without an end: so many failures, and the last error.
* `attempts_of_failed`: from there the loop goes on as from the start.
* `succeeds_iff` and `givesUp_iff`: the two ends of the loop, by what its attempts did.
* `succeeds_of_fails`, `givesUp_of_fails`: an action whose failures do not depend on the past.
* `attempts_mono`: an action that ends more often does not change an end of the loop.
-/
import Mathlib.Data.Nat.Init

namespace RetryLoop

set_option autoImplicit false

variable {V E : Type}

/-- How a loop ends, with the number of its last attempt, from 0 on. -/
inductive Result (V E : Type) where
  /-- it succeeded; `last` is the error of the attempt before -/
  | succeeded (attempt : ℕ) (value : V) (last : Option E)
  | gaveUp (attempt : ℕ) (error : E)

/-- What attempt `k` after the error `last` comes to. -/
abbrev Action (V E : Type) := ℕ → Option E → Option (Except E V)

/-- Try again after every failure that is not fatal, `left` more times at most. -/
def attempts (act : Action V E) (fatal : E → Bool) : ℕ → ℕ → Option E → Option (Result V E)
  | 0, k, last =>
      match act k last with
      | none => none
      | some (.ok value) => some (.succeeded k value last)
      | some (.error e) => some (.gaveUp k e)
  | left + 1, k, last =>
      match act k last with
      | none => none
      | some (.ok value) => some (.succeeded k value last)
      | some (.error e) =>
          if fatal e then some (.gaveUp k e) else attempts act fatal left (k + 1) (some e)

/-- The first `k` attempts failed, none of them fatally, the last with the error `last`. -/
inductive Failed (act : Action V E) (fatal : E → Bool) : ℕ → Option E → Prop
  | start : Failed act fatal 0 none
  | again {k : ℕ} {last : Option E} {e : E} (before : Failed act fatal k last)
      (fails : act k last = some (.error e)) (goesOn : fatal e = false) :
      Failed act fatal (k + 1) (some e)

section

variable {act act' : Action V E} {fatal : E → Bool} {left k : ℕ} {last : Option E} {e : E} {v : V}

theorem attempts_ok (ends : act k last = some (.ok v)) :
    attempts act fatal left k last = some (.succeeded k v last) := by
  cases left <;> simp [attempts, ends]

theorem attempts_fatal (ends : act k last = some (.error e)) (stops : fatal e = true) :
    attempts act fatal left k last = some (.gaveUp k e) := by
  cases left <;> simp [attempts, ends, stops]

theorem attempts_last (ends : act k last = some (.error e)) :
    attempts act fatal 0 k last = some (.gaveUp k e) := by
  simp [attempts, ends]

theorem attempts_again (ends : act k last = some (.error e)) (goesOn : fatal e = false) :
    attempts act fatal (left + 1) k last = attempts act fatal left (k + 1) (some e) := by
  simp [attempts, ends, goesOn]

theorem attempts_none (runs : act k last = none) : attempts act fatal left k last = none := by
  cases left <;> simp [attempts, runs]

/-- After failures the loop goes on as from the start. -/
theorem attempts_of_failed (failed : Failed act fatal k last) :
    attempts act fatal (k + left) 0 none = attempts act fatal left k last := by
  induction failed generalizing left with
  | start => rw [Nat.zero_add]
  | @again k last e before fails goesOn ih =>
      rw [Nat.add_right_comm, Nat.add_assoc, ih, attempts_again fails goesOn]

/-- An action that ends whenever another does fails where that one does. -/
theorem Failed.mono (more : ∀ k last out, act k last = some out → act' k last = some out)
    (failed : Failed act fatal k last) : Failed act' fatal k last := by
  induction failed with
  | start => exact .start
  | again _ fails goesOn ih => exact ih.again (more _ _ _ fails) goesOn

/-- Where the loop ends, it got there by failures. -/
theorem failed_of_ends {r : Result V E} (failed : Failed act fatal k last)
    (ends : attempts act fatal left k last = some r) :
    ∃ i last', i ≤ left ∧ Failed act fatal (k + i) last' ∧
      ((∃ v, act (k + i) last' = some (.ok v) ∧ r = .succeeded (k + i) v last') ∨
        ∃ e, act (k + i) last' = some (.error e) ∧ (fatal e = true ∨ i = left) ∧
          r = .gaveUp (k + i) e) := by
  induction left generalizing k last with
  | zero =>
      cases act_ : act k last with
      | none => cases (attempts_none act_).symm.trans ends
      | some out =>
          refine ⟨0, last, Nat.le_refl 0, failed, ?_⟩
          cases out with
          | ok v =>
              cases (attempts_ok act_).symm.trans ends
              exact .inl ⟨v, act_, rfl⟩
          | error e =>
              cases (attempts_last act_).symm.trans ends
              exact .inr ⟨e, act_, .inr rfl, rfl⟩
  | succ left ih =>
      cases act_ : act k last with
      | none => cases (attempts_none act_).symm.trans ends
      | some out =>
          cases out with
          | ok v =>
              cases (attempts_ok act_).symm.trans ends
              exact ⟨0, last, Nat.zero_le _, failed, .inl ⟨v, act_, rfl⟩⟩
          | error e =>
              cases stops : fatal e with
              | true =>
                  cases (attempts_fatal act_ stops).symm.trans ends
                  exact ⟨0, last, Nat.zero_le _, failed, .inr ⟨e, act_, .inl stops, rfl⟩⟩
              | false =>
                  rw [attempts_again act_ stops] at ends
                  obtain ⟨i, last', le, failed', out⟩ := ih (failed.again act_ stops) ends
                  rw [Nat.add_assoc, Nat.add_comm 1 i] at failed' out
                  refine ⟨i + 1, last', Nat.succ_le_succ le, failed', ?_⟩
                  simpa only [Nat.succ.injEq] using out

/-- **When the loop succeeds**: attempt `k` does, after failures that were not fatal. -/
theorem succeeds_iff {n : ℕ} :
    attempts act fatal n 0 none = some (.succeeded k v last) ↔
      k ≤ n ∧ Failed act fatal k last ∧ act k last = some (.ok v) := by
  constructor
  · intro ends
    obtain ⟨i, last', le, failed, out⟩ := failed_of_ends .start ends
    rw [Nat.zero_add] at failed out
    rcases out with ⟨v', act_, same⟩ | ⟨e, -, -, same⟩
    · cases same
      exact ⟨le, failed, act_⟩
    · cases same
  · rintro ⟨le, failed, act_⟩
    obtain ⟨left, rfl⟩ := Nat.exists_eq_add_of_le le
    rw [attempts_of_failed failed, attempts_ok act_]

/-- **When the loop gives up**: attempt `k` fails, for good or as the last one. -/
theorem givesUp_iff {n : ℕ} :
    attempts act fatal n 0 none = some (.gaveUp k e) ↔
      k ≤ n ∧ ∃ last, Failed act fatal k last ∧ act k last = some (.error e) ∧
        (fatal e = true ∨ k = n) := by
  constructor
  · intro ends
    obtain ⟨i, last, le, failed, out⟩ := failed_of_ends .start ends
    rw [Nat.zero_add] at failed out
    rcases out with ⟨v, -, same⟩ | ⟨e', act_, stops, same⟩
    · cases same
    · cases same
      exact ⟨le, last, failed, act_, stops⟩
  · rintro ⟨le, last, failed, act_, stops⟩
    obtain ⟨left, rfl⟩ := Nat.exists_eq_add_of_le le
    rw [attempts_of_failed failed]
    rcases stops with stops | done
    · exact attempts_fatal act_ stops
    · obtain rfl : left = 0 := by omega
      exact attempts_last act_

/-! ## Failing until an attempt -/

/-- The error of the attempt before. -/
def lastError (err : ℕ → E) : ℕ → Option E
  | 0 => none
  | k + 1 => some (err k)

/-- Attempts that fail whatever happened before lead to one another. -/
theorem failed_of_fails (err : ℕ → E) {m : ℕ}
    (fails : ∀ k < m, ∀ last, act k last = some (.error (err k)))
    (goesOn : ∀ k, fatal (err k) = false) : ∀ {k}, k ≤ m → Failed act fatal k (lastError err k)
  | 0, _ => .start
  | k + 1, le =>
      (failed_of_fails err fails goesOn (Nat.le_of_succ_le le)).again (fails k le _) (goesOn k)

/-- **An action that fails before attempt `m` and succeeds there** takes the loop to `m`. -/
theorem succeeds_of_fails (err : ℕ → E) {m n : ℕ}
    (fails : ∀ k < m, ∀ last, act k last = some (.error (err k)))
    (goesOn : ∀ k, fatal (err k) = false) (ends : ∀ last, act m last = some (.ok v))
    (le : m ≤ n) :
    attempts act fatal n 0 none = some (.succeeded m v (lastError err m)) :=
  succeeds_iff.2 ⟨le, failed_of_fails err fails goesOn (Nat.le_refl m), ends _⟩

/-- An action that fails as often as it is tried uses up the attempts. -/
theorem givesUp_of_fails (err : ℕ → E) {n : ℕ}
    (fails : ∀ k < n + 1, ∀ last, act k last = some (.error (err k)))
    (goesOn : ∀ k, fatal (err k) = false) :
    attempts act fatal n 0 none = some (.gaveUp n (err n)) := by
  refine givesUp_iff.2
    ⟨Nat.le_refl n, lastError err n, ?_, fails n (Nat.lt_succ_self n) _, .inr rfl⟩
  exact failed_of_fails err fails goesOn (Nat.le_succ n)

/-- An action that ends whenever another does takes the loop to the same end. -/
theorem attempts_mono (more : ∀ k last out, act k last = some out → act' k last = some out)
    {r : Result V E} (ends : attempts act fatal left k last = some r) :
    attempts act' fatal left k last = some r := by
  induction left generalizing k last with
  | zero =>
      cases act_ : act k last with
      | none => cases (attempts_none act_).symm.trans ends
      | some out =>
          have act_' := more k last out act_
          cases out with
          | ok v => rwa [attempts_ok act_', ← attempts_ok act_]
          | error e => rwa [attempts_last act_', ← attempts_last act_]
  | succ left ih =>
      cases act_ : act k last with
      | none => cases (attempts_none act_).symm.trans ends
      | some out =>
          have act_' := more k last out act_
          cases out with
          | ok v => rwa [attempts_ok act_', ← attempts_ok act_]
          | error e =>
              cases stops : fatal e with
              | true => rwa [attempts_fatal act_' stops, ← attempts_fatal act_ stops]
              | false =>
                  rw [attempts_again act_ stops] at ends
                  rw [attempts_again act_' stops]
                  exact ih ends

end

end RetryLoop
