/-
# TaskQueue.Lib.TrialDivision -- odd candidates up to the square root

Trial division of an odd number looks for its first divisor among 3, 5, … up to the integer
square root.  A number that is not prime has one there, its least prime factor; a prime has
none.

* `prime_iff_none_divides` is what the search finds.
* `search_candidates` is how many candidates it looks at.
-/
import Mathlib.Data.Nat.Prime.Defs
import Mathlib.Data.Nat.Sqrt
import Mathlib.Order.Interval.Finset.Nat
import TaskQueue.Lib.Loop

namespace TrialDivision

set_option autoImplicit false

/-- `range(3, isqrt(n) + 1, 2)`. -/
def candidates (n : ℕ) : List ℕ := Loop.range 3 (n.sqrt + 1) 2

/-- The odd numbers from 3 to `m`. -/
def odds (m : ℕ) : Finset ℕ := (Finset.Icc 3 m).filter fun d => d % 2 = 1

variable {n d : ℕ}

theorem mem_candidates : d ∈ candidates n ↔ 3 ≤ d ∧ d ≤ n.sqrt ∧ d % 2 = 1 := by
  rw [candidates, Loop.mem_range (by decide)]
  constructor
  · rintro ⟨i, rfl, below⟩
    omega
  · rintro ⟨from3, upto, odd⟩
    exact ⟨(d - 3) / 2, by omega, by omega⟩

theorem pairwise_candidates (n : ℕ) : (candidates n).Pairwise (· < ·) :=
  Loop.pairwise_range (by decide)

/-- The least prime factor of an odd number is odd. -/
theorem minFac_odd (odd : n % 2 = 1) (from3 : 3 ≤ n) : 3 ≤ n.minFac ∧ n.minFac % 2 = 1 := by
  have prime := Nat.minFac_prime (n := n) (by omega)
  have divides := Nat.minFac_dvd n
  have two := prime.two_le
  have odd' : n.minFac % 2 = 1 := by
    by_contra even
    have half : 2 ∣ n := (Nat.dvd_of_mod_eq_zero (by omega)).trans divides
    omega
  omega

/-- If a candidate is not below the least prime factor, that factor is a candidate. -/
theorem minFac_mem (odd : n % 2 = 1) (from3 : 3 ≤ n) (member : d ∈ candidates n)
    (le : n.minFac ≤ d) : n.minFac ∈ candidates n := by
  obtain ⟨-, upto, -⟩ := mem_candidates.1 member
  obtain ⟨from3', odd'⟩ := minFac_odd odd from3
  exact mem_candidates.2 ⟨from3', le.trans upto, odd'⟩

/-- **What the search finds.** -/
theorem prime_iff_none_divides (odd : n % 2 = 1) (from3 : 3 ≤ n) :
    n.Prime ↔ ∀ d ∈ candidates n, ¬ d ∣ n := by
  constructor
  · intro prime d member divides
    obtain ⟨from3', upto, -⟩ := mem_candidates.1 member
    have below : d * d ≤ n := Nat.le_sqrt.1 upto
    rcases (Nat.dvd_prime prime).1 divides with rfl | rfl
    · omega
    · have : d * 3 ≤ d * d := Nat.mul_le_mul_left d from3'
      omega
  · intro none_
    by_contra composite
    obtain ⟨from3', odd'⟩ := minFac_odd odd from3
    have square := Nat.minFac_sq_le_self (by omega) composite
    rw [pow_two] at square
    have member := mem_candidates.2 ⟨from3', Nat.le_sqrt.2 square, odd'⟩
    exact none_ _ member (Nat.minFac_dvd n)

/-- The candidates up to `p` are the odd numbers up to `p` and the square root. -/
theorem countP_candidates (n p : ℕ) :
    (candidates n).countP (fun d => d ≤ p) = (odds (min p n.sqrt)).card := by
  have nodup : ((candidates n).filter fun d => d ≤ p).Nodup :=
    ((pairwise_candidates n).imp fun lt => Nat.ne_of_lt lt).filter _
  rw [List.countP_eq_length_filter, ← List.toFinset_card_of_nodup nodup]
  congr 1
  ext d
  simp only [List.mem_toFinset, List.mem_filter, mem_candidates, decide_eq_true_eq, odds,
    Finset.mem_filter, Finset.mem_Icc, le_min_iff]
  tauto

/-- **How many candidates the search looks at**: those up to the least prime factor. -/
theorem search_candidates (odd : n % 2 = 1) (from3 : 3 ≤ n) (count : ℕ) :
    (Loop.search (fun d => n % d = 0) (candidates n) count).1 =
      count + (odds (min n.minFac n.sqrt)).card := by
  rw [Loop.search_fst (p := n.minFac) (pairwise_candidates n), countP_candidates]
  · intro d member divides
    have from3' := (mem_candidates.1 member).1
    refine Nat.minFac_le_of_dvd (by omega) (Nat.dvd_of_mod_eq_zero ?_)
    simpa using divides
  · intro d member le
    refine ⟨minFac_mem odd from3 member le, ?_⟩
    simpa using Nat.mod_eq_zero_of_dvd (Nat.minFac_dvd n)

end TrialDivision
