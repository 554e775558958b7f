/-
# TaskQueue.Primality -- the `is_prime` handler

`_is_prime_handler` takes `int(job["payload"]["n"])`, settles the numbers below 3 and the
even ones by themselves, and tries the odd divisors up to the integer square root of the
others, counting them in `checked`.
-/
import TaskQueue.Handlers
import TaskQueue.Lib.TrialDivision

namespace TaskQueue

set_option autoImplicit false

open TrialDivision

/-- The result of `_is_prime_handler`. -/
structure Primality where
  isPrime : Bool
  divisorsChecked : ℕ

/-- `{"n": n, "is_prime": …, "divisors_checked": …}`. -/
def Primality.result (n : ℤ) (v : Primality) : Json :=
  .obj
    [("n", .int n), ("is_prime", .bool v.isPrime), ("divisors_checked", .int v.divisorsChecked)]

/-- The trial division of `_is_prime_handler`. -/
def trialDivision (n : ℤ) : Primality :=
  if n < 2 then { isPrime := false, divisorsChecked := 0 }
  else if n = 2 then { isPrime := true, divisorsChecked := 1 }
  else if n % 2 = 0 then { isPrime := false, divisorsChecked := 1 }
  else
    let limit := n.toNat.sqrt + 1
    let out := Loop.search (fun d : ℕ => n % (d : ℤ) = 0) (Loop.range 3 limit 2) 1
    { isPrime := !out.2, divisorsChecked := out.1 }

/-- `_is_prime_handler`. -/
def isPrimeHandler (py : PyInt) (payload : Json) : Except PyError Json :=
  (intArg py payload).map fun n => (trialDivision n).result n

theorem trialDivision_small {n : ℤ} (below : n < 2) :
    trialDivision n = { isPrime := false, divisorsChecked := 0 } := by
  rw [trialDivision, if_pos below]

theorem trialDivision_even {n : ℤ} (from2 : 2 ≤ n) (even : n % 2 = 0) :
    trialDivision n = { isPrime := n = 2, divisorsChecked := 1 } := by
  rw [trialDivision, if_neg (by omega)]
  by_cases two : n = 2
  · simp [two]
  · rw [if_neg two, if_pos even]
    simp [two]

/-- An odd number from 3 on goes through the loop. -/
theorem trialDivision_odd {n : ℕ} (odd : n % 2 = 1) (from3 : 3 ≤ n) :
    ((trialDivision n).isPrime = true ↔ n.Prime) ∧
      (trialDivision n).divisorsChecked = 1 + (odds (min n.minFac n.sqrt)).card := by
  have stops : (fun d : ℕ => decide ((n : ℤ) % d = 0)) = fun d => decide (n % d = 0) := by
    funext d
    exact decide_eq_decide.2 (by exact_mod_cast Iff.rfl)
  have loop : trialDivision n =
      { isPrime := !(Loop.search (fun d => n % d = 0) (candidates n) 1).2
        divisorsChecked := (Loop.search (fun d => n % d = 0) (candidates n) 1).1 } := by
    rw [trialDivision, if_neg (by omega), if_neg (by omega), if_neg (by omega), stops]
    rfl
  rw [loop, search_candidates odd from3, Loop.search_snd, prime_iff_none_divides odd from3]
  refine ⟨?_, rfl⟩
  simp [Nat.dvd_iff_mod_eq_zero]

theorem trialDivision_prime (n : ℤ) :
    (trialDivision n).isPrime = true ↔ ∃ p : ℕ, p.Prime ∧ n = p := by
  rcases lt_or_ge n 2 with below | from2
  · rw [trialDivision_small below]
    refine iff_of_false (by decide) ?_
    rintro ⟨p, prime, rfl⟩
    have := prime.two_le
    omega
  obtain ⟨m, rfl⟩ := Int.eq_ofNat_of_zero_le (show 0 ≤ n by omega)
  have same : (∃ p : ℕ, p.Prime ∧ (m : ℤ) = p) ↔ m.Prime := by
    constructor
    · rintro ⟨p, prime, same⟩
      rwa [Int.ofNat.inj same]
    · intro prime
      exact ⟨m, prime, rfl⟩
  rw [same]
  rcases Nat.mod_two_eq_zero_or_one m with even | odd
  · rw [trialDivision_even from2 (by omega), decide_eq_true_iff]
    constructor
    · intro two
      rw [show m = 2 by omega]
      exact Nat.prime_two
    · intro prime
      rcases (Nat.dvd_prime prime).1 (Nat.dvd_of_mod_eq_zero even) with one | two
      · omega
      · rw [← two]
        rfl
  · exact (trialDivision_odd odd (by omega)).1

/-- **The `is_prime` handler decides primality.**  For every integer, the handler answers
that it is prime exactly when it is; it has checked no divisor of a number below 2, one of an
even number, and of an odd one from 3 on one and the odd numbers from 3 to the least prime
factor or the integer square root, whichever is less. -/
theorem is_prime_decides (py : PyInt) (payload : Json) (n : ℤ) (arg : intArg py payload = .ok n) :
    ∃ (isPrime : Bool) (checked : ℕ),
      isPrimeHandler py payload =
          .ok (.obj
            [("n", .int n), ("is_prime", .bool isPrime), ("divisors_checked", .int checked)]) ∧
        (isPrime = true ↔ ∃ p : ℕ, p.Prime ∧ n = p) ∧
        (n < 2 → checked = 0) ∧ (2 ≤ n → n % 2 = 0 → checked = 1) ∧
        (3 ≤ n → n % 2 = 1 →
          checked = 1 + ((Finset.Icc 3 (min n.toNat.minFac n.toNat.sqrt)).filter
            fun d => d % 2 = 1).card) := by
  refine ⟨_, (trialDivision n).divisorsChecked, ?_, trialDivision_prime n, ?_, ?_, ?_⟩
  · simp [isPrimeHandler, arg, Except.map, Primality.result]
  · intro below
    rw [trialDivision_small below]
  · intro from2 even
    rw [trialDivision_even from2 even]
  · intro from3 odd
    obtain ⟨m, rfl⟩ := Int.eq_ofNat_of_zero_le (show 0 ≤ n by omega)
    exact (trialDivision_odd (by omega) (by omega)).2

/-- 49 is the square of the last divisor that the loop tries. -/
theorem is_prime_decides_square :
    ∃ checked : ℕ,
      isPrimeHandler demoInt (.obj [("n", .int 49)]) =
          .ok (.obj [("n", .int 49), ("is_prime", .bool false),
            ("divisors_checked", .int checked)]) ∧
        checked = 1 + ((Finset.Icc 3 (min (Nat.minFac 49) (Nat.sqrt 49))).filter
          fun d => d % 2 = 1).card := by
  obtain ⟨isPrime, checked, returns, prime, -, -, odd⟩ :=
    is_prime_decides demoInt (.obj [("n", .int 49)]) 49 rfl
  have composite : isPrime = false := by
    rw [← Bool.not_eq_true, prime]
    rintro ⟨p, isPrime', same⟩
    rw [show p = 49 by omega] at isPrime'
    revert isPrime'
    decide
  rw [composite] at returns
  exact ⟨checked, returns, odd (by decide) (by decide)⟩

end TaskQueue
