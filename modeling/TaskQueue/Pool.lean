/-
# TaskQueue.Pool -- waiting for the database

`create_pool` is how the API and the workers start before PostgreSQL is ready: six attempts to
open a pool, with sleeps of 1, 2, 4, 8 and 16 seconds after connection errors.  Its docstring
says "up to 30 s", and a `RuntimeError("Unreachable")` stands behind the loop.

* `createPool` is the loop, against a database whose answer depends on when it is asked.
* `createPool_eq`: it is a retry loop with five more attempts.
* `create_pool_waits`: what it makes of a database that comes up at some moment.
-/
import Mathlib.Algebra.Order.BigOperators.Group.Finset
import Mathlib.Data.Rat.Defs
import Mathlib.Tactic.Linarith
import TaskQueue.Lib.RetryLoop
import TaskQueue.Worker

namespace TaskQueue

set_option autoImplicit false

/-- What `asyncpg.create_pool` raised. -/
structure ConnectError where
  error : PyError
  /-- it is an `asyncpg.PostgresConnectionError` or an `OSError` -/
  connection : Bool

/-- One attempt to open a pool: its outcome, and how long it took. -/
structure Attempt (P : Type) where
  outcome : Except ConnectError P
  took : Time

def unreachable : PyError where
  name := "RuntimeError"
  message := "Unreachable"

/-- The loop of `create_pool`: its answer, and when it has it. -/
def tryConnect {P : Type} (connect : Time → Attempt P) :
    List ℕ → Time → Except PyError P × Time
  | [], now => (.error unreachable, now)
  | attempt :: rest, now =>
      let done := now + (connect now).took
      match (connect now).outcome with
      | .ok pool => (.ok pool, done)
      | .error e =>
          if e.connection then
            if attempt = 5 then (.error e.error, done)
            else tryConnect connect rest (done + 2 ^ attempt)
          else (.error e.error, done)

/-- `create_pool`, called at `t₀`. -/
def createPool {P : Type} (connect : Time → Attempt P) (t₀ : Time) : Except PyError P × Time :=
  tryConnect connect (List.range 6) t₀

/-- When attempt `k` starts, if all before it have failed. -/
def startOf {P : Type} (connect : Time → Attempt P) (t₀ : Time) : ℕ → Time
  | 0 => t₀
  | k + 1 => startOf connect t₀ k + (connect (startOf connect t₀ k)).took + 2 ^ k

section

variable {P : Type} {connect : Time → Attempt P} {t₀ τ d : Time} {k : ℕ} {pool : P}
  {e : ConnectError}

/-- Attempt `k`. -/
def poolAction (connect : Time → Attempt P) (t₀ : Time) : RetryLoop.Action P ConnectError :=
  fun k _ => some (connect (startOf connect t₀ k)).outcome

/-- The answer of the loop at an end, and when it has it. -/
def ended (connect : Time → Attempt P) (t₀ : Time) :
    RetryLoop.Result P ConnectError → Except PyError P × Time
  | .succeeded k pool _ =>
      (.ok pool, startOf connect t₀ k + (connect (startOf connect t₀ k)).took)
  | .gaveUp k e =>
      (.error e.error, startOf connect t₀ k + (connect (startOf connect t₀ k)).took)

theorem tryConnect_eq {left : ℕ} {last : Option ConnectError} (six : k + left = 5) :
    (RetryLoop.attempts (poolAction connect t₀) (fun e => !e.connection) left k last).map
        (ended connect t₀) =
      some (tryConnect connect (List.range' k (left + 1)) (startOf connect t₀ k)) := by
  induction left generalizing k last with
  | zero =>
      rw [List.range'_succ, tryConnect]
      cases outcome : (connect (startOf connect t₀ k)).outcome with
      | ok pool =>
          rw [RetryLoop.attempts_ok (congrArg some outcome)]
          rfl
      | error e =>
          rw [RetryLoop.attempts_last (congrArg some outcome)]
          dsimp only
          rw [if_pos (show k = 5 from six), ite_self]
          rfl
  | succ left ih =>
      rw [List.range'_succ, tryConnect]
      cases outcome : (connect (startOf connect t₀ k)).outcome with
      | ok pool =>
          rw [RetryLoop.attempts_ok (congrArg some outcome)]
          rfl
      | error e =>
          cases caught : e.connection with
          | false =>
              rw [RetryLoop.attempts_fatal (congrArg some outcome) (by rw [caught]; rfl)]
              simp only [caught]
              rfl
          | true =>
              rw [RetryLoop.attempts_again (congrArg some outcome) (by rw [caught]; rfl),
                ih (by omega)]
              have notLast : k ≠ 5 := by omega
              simp only [caught, if_true, if_neg notLast]
              rfl

/-- `create_pool` is a retry loop. -/
theorem createPool_eq (connect : Time → Attempt P) (t₀ : Time) :
    (RetryLoop.attempts (poolAction connect t₀) (fun e => !e.connection) 5 0 none).map
      (ended connect t₀) = some (createPool connect t₀) := by
  rw [tryConnect_eq (Nat.zero_add 5), ← List.range_eq_range']
  rfl

/-- Every attempt is at least the sleeps before it after the first. -/
theorem le_startOf (took : ∀ now, 0 ≤ (connect now).took) :
    ∀ k, t₀ + (2 ^ k - 1) ≤ startOf connect t₀ k
  | 0 => by simp [startOf]
  | k + 1 => by
      have before := le_startOf took k
      have nonneg := took (startOf connect t₀ k)
      rw [startOf, pow_succ]
      linarith

theorem startOf_mono (took : ∀ now, 0 ≤ (connect now).took) : Monotone (startOf connect t₀) := by
  apply monotone_nat_of_le_succ
  intro k
  have nonneg := took (startOf connect t₀ k)
  have sleep : (0 : ℚ) ≤ 2 ^ k := by positivity
  rw [startOf]
  linarith

/-- Attempts that are refused lead to the next. -/
theorem failed_of_refused :
    ∀ {k}, (∀ i < k, ∃ e, (connect (startOf connect t₀ i)).outcome = .error e ∧
        e.connection = true) →
      ∃ last, RetryLoop.Failed (poolAction connect t₀) (fun e => !e.connection) k last
  | 0, _ => ⟨none, .start⟩
  | k + 1, refused => by
      obtain ⟨last, failed⟩ := failed_of_refused fun i below =>
        refused i (Nat.lt_succ_of_lt below)
      obtain ⟨e, outcome, caught⟩ := refused k (Nat.lt_succ_self k)
      exact ⟨some e, failed.again (congrArg some outcome) (by rw [caught]; rfl)⟩

end

/-- **How long `create_pool` waits.**  Of a database that refuses connections with a
`PostgresConnectionError` or an `OSError` until `τ` and accepts them from then on it makes a
pool exactly if `τ` is not after the start of the sixth attempt, which is at least 31 seconds
after the call; it then has it within about twice the time that it had to wait.  Otherwise it
raises the error of the sixth attempt. -/
theorem create_pool_waits {P : Type} (connect : Time → Attempt P) (t₀ τ d : Time)
    (took : ∀ now, 0 ≤ (connect now).took ∧ (connect now).took ≤ d)
    (down : ∀ now < τ, ∃ e, (connect now).outcome = .error e ∧ e.connection = true)
    (up : ∀ now, τ ≤ now → ∃ pool, (connect now).outcome = .ok pool) :
    t₀ + 31 ≤ startOf connect t₀ 5 ∧
      (τ ≤ startOf connect t₀ 5 → ∃ pool now, createPool connect t₀ = (.ok pool, now) ∧
        now ≤ max t₀ (2 * τ - t₀ + 1 + d) + d) ∧
      (startOf connect t₀ 5 < τ → ∃ e,
        (connect (startOf connect t₀ 5)).outcome = .error e ∧
          (createPool connect t₀).1 = .error e.error) := by
  have nonneg (now : Time) : 0 ≤ (connect now).took := (took now).1
  have ends := createPool_eq connect t₀
  refine ⟨?_, fun inTime => ?_, fun late => ?_⟩
  · have start : t₀ + (2 ^ 5 - 1) ≤ startOf connect t₀ 5 := le_startOf nonneg 5
    norm_num at start
    exact start
  · -- the first attempt at which the database is up
    have some_ : ∃ k, τ ≤ startOf connect t₀ k := ⟨5, inTime⟩
    obtain ⟨k, upThen, before⟩ : ∃ k, τ ≤ startOf connect t₀ k ∧
        ∀ i < k, startOf connect t₀ i < τ :=
      ⟨Nat.find some_, Nat.find_spec some_, fun i below => not_le.1 (Nat.find_min some_ below)⟩
    have le : k ≤ 5 := by
      by_contra more
      exact absurd inTime (not_le.2 (before 5 (not_le.1 more)))
    obtain ⟨last, failed⟩ := failed_of_refused fun i below => down _ (before i below)
    obtain ⟨pool, outcome⟩ := up _ upThen
    rw [RetryLoop.succeeds_iff.2 ⟨le, failed, congrArg some outcome⟩] at ends
    refine ⟨pool, _, (Option.some.inj ends).symm, ?_⟩
    have last_ := (took (startOf connect t₀ k)).2
    cases k with
    | zero => exact add_le_add (le_max_left _ _) last_
    | succ k =>
        -- the sleep before it is no longer than the wait until then, and a second
        have early := before k (Nat.lt_succ_self k)
        have sleep : t₀ + (2 ^ k - 1) ≤ startOf connect t₀ k := le_startOf nonneg k
        have took_ := (took (startOf connect t₀ k)).2
        refine add_le_add (le_trans ?_ (le_max_right _ _)) last_
        rw [startOf]
        linarith
  · have early (i : ℕ) (below : i ≤ 5) : startOf connect t₀ i < τ :=
      lt_of_le_of_lt (startOf_mono nonneg below) late
    obtain ⟨last, failed⟩ := failed_of_refused fun i below => down _ (early i (Nat.le_of_lt below))
    obtain ⟨e, outcome, -⟩ := down _ (early 5 (Nat.le_refl 5))
    rw [RetryLoop.givesUp_iff.2 ⟨Nat.le_refl 5, last, failed, congrArg some outcome, .inr rfl⟩]
      at ends
    exact ⟨e, outcome, congrArg Prod.fst (Option.some.inj ends).symm⟩

/-- A database that comes up after five seconds; an attempt takes one. -/
def demoConnect (now : Time) : Attempt Unit where
  outcome :=
    if now < 5 then
      .error { error := { name := "ConnectionRefusedError", message := "" }, connection := true }
    else .ok ()
  took := 1

/-- The third attempt finds it. -/
theorem create_pool_waits_five :
    ∃ pool now, createPool demoConnect 0 = (.ok pool, now) ∧ now ≤ 13 := by
  have down (now : Time) (early : now < 5) : ∃ e, (demoConnect now).outcome = .error e ∧
      e.connection = true := ⟨_, if_pos early, rfl⟩
  have up (now : Time) (late : 5 ≤ now) : ∃ pool, (demoConnect now).outcome = .ok pool :=
    ⟨(), if_neg (not_lt.2 late)⟩
  obtain ⟨start, inTime, -⟩ := create_pool_waits demoConnect 0 5 1
    (fun _ => ⟨zero_le_one, le_refl 1⟩) down up
  obtain ⟨pool, now, answer, soon⟩ := inTime (by linarith)
  exact ⟨pool, now, answer, soon.trans (by norm_num)⟩

end TaskQueue
