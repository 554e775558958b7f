/-
# TaskQueue.Lib.Quantiles -- the cut points of a sample

`n - 1` cut points divide a sorted sample of `ld` values into `n` parts.  Cut point `i` stands at
`i * (ld + 1) / n`, counted from 1, and has the value of the line through the two values next to
it there.  A point that stands before the first or after the last value is on the line through
the two values at that end, and may be outside of the sample.

Every operation on the values is followed by a `round`: the identity for exact arithmetic, and
that of the floats otherwise.

* `cut_mono`: the exact cut points are in order.
* `first_le_cut`: a point that does not stand before the first value is not below it.
* `cut_le_last_iff`: when a point is not above the last.
* `cut_near`: how far a rounded cut point is from the exact one.
-/
import Mathlib.Algebra.Order.Field.Basic
import Mathlib.Data.List.GetD
import Mathlib.Data.List.Sort
import Mathlib.Tactic.FieldSimp
import Mathlib.Tactic.Linarith
import Mathlib.Tactic.Ring

set_option autoImplicit false

namespace Quantiles

/-- The place of the lower one of the two values next to cut point `i`, counted from 1. -/
def cell (ld n i : ℕ) : ℕ :=
  let j := i * (ld + 1) / n
  if j < 1 then 1 else if ld - 1 < j then ld - 1 else j

section

variable {ld n i k : ℕ}

theorem cell_eq (two : 2 ≤ ld) : cell ld n i = max 1 (min (i * (ld + 1) / n) (ld - 1)) := by
  unfold cell
  dsimp only
  split
  · omega
  · split <;> omega

theorem cell_bounds (two : 2 ≤ ld) : 1 ≤ cell ld n i ∧ cell ld n i + 1 ≤ ld := by
  rw [cell_eq two]
  omega

theorem cell_mono (two : 2 ≤ ld) (le : i ≤ k) : cell ld n i ≤ cell ld n k := by
  have scaled : i * (ld + 1) / n ≤ k * (ld + 1) / n :=
    Nat.div_le_div_right (Nat.mul_le_mul_right _ le)
  rw [cell_eq two, cell_eq two]
  omega

/-- Below the last cell a point stands before the upper value. -/
theorem lt_upper (parts : 0 < n) (two : 2 ≤ ld) (below : cell ld n i + 1 < ld) :
    i * (ld + 1) < n * (cell ld n i + 1) := by
  refine (Nat.lt_mul_div_succ (i * (ld + 1)) parts).trans_le (Nat.mul_le_mul_left n ?_)
  rw [cell_eq two] at below ⊢
  omega

/-- Above the first cell a point does not stand before the lower value. -/
theorem lower_le (two : 2 ≤ ld) (above : 1 < cell ld n i) : n * cell ld n i ≤ i * (ld + 1) := by
  refine (Nat.mul_le_mul_left n ?_).trans (Nat.mul_div_le (i * (ld + 1)) n)
  rw [cell_eq two] at above ⊢
  omega

/-- A cut point stands at most one part before the lower of its two values, and at most one part
behind the upper one. -/
theorem part_bounds (parts : 0 < n) (two : 2 ≤ ld) (below : i < n) :
    -(n : ℤ) ≤ i * (ld + 1) - cell ld n i * n ∧
      (i * (ld + 1) - cell ld n i * n : ℤ) ≤ 2 * n := by
  have bounds := cell_bounds (n := n) (i := i) two
  constructor
  · rcases Nat.lt_or_eq_of_le bounds.1 with above | first
    · have stands : (n * cell ld n i : ℤ) ≤ i * (ld + 1) := by
        exact_mod_cast lower_le two above
      linarith [Int.natCast_nonneg n]
    · rw [← first]
      have nonneg : (0 : ℤ) ≤ i * (ld + 1) := by positivity
      push_cast
      linarith
  · rcases Nat.lt_or_eq_of_le bounds.2 with within | last
    · have stands : (i * (ld + 1) : ℤ) < n * (cell ld n i + 1) := by
        exact_mod_cast lt_upper parts two within
      linarith [Int.natCast_nonneg n]
    · have upper : (i : ℤ) ≤ n - 1 := by omega
      have size : (cell ld n i : ℤ) = ld - 1 := by omega
      have wide : (0 : ℤ) ≤ ld + 1 := by positivity
      have scaled := mul_le_mul_of_nonneg_right upper wide
      rw [size]
      linarith

/-- A point that stands behind all values is in the last cell. -/
theorem cell_of_behind (parts : 0 < n) (two : 2 ≤ ld) (behind : n * ld < i * (ld + 1)) :
    cell ld n i = ld - 1 := by
  have stands : ld ≤ i * (ld + 1) / n :=
    (Nat.le_div_iff_mul_le parts).2 (by rw [Nat.mul_comm]; exact Nat.le_of_lt behind)
  rw [cell_eq two]
  omega

end

variable {α : Type} [Field α] [LinearOrder α]

/-- The line through `x` and `y`, `delta` parts of `n` after `x`. -/
def between (round : α → α) (n : ℕ) (x y : α) (delta : ℤ) : α :=
  round (round (round (x * (n - delta)) + round (y * delta)) / n)

/-- Cut point `i` of a sorted sample. -/
def cut (round : α → α) (n : ℕ) (data : List α) (i : ℕ) : α :=
  let j := cell data.length n i
  between round n (data.getD (j - 1) 0) (data.getD j 0) (i * (data.length + 1) - j * n)

/-- The cut points of a sample with two values or more. -/
def quantiles (round : α → α) (n : ℕ) (data : List α) : Option (List α) :=
  if data.length < 2 then none
  else some ((List.range' 1 (n - 1)).map (cut round n data.mergeSort))

section

variable {round : α → α} {n i k : ℕ} {data : List α}

theorem getD_mono (sorted : data.Pairwise (· ≤ ·)) (le : i ≤ k) (below : k < data.length) :
    data.getD i 0 ≤ data.getD k 0 := by
  rw [List.getD_eq_getElem _ _ (lt_of_le_of_lt le below), List.getD_eq_getElem _ _ below]
  rcases Nat.lt_or_eq_of_le le with less | rfl
  · exact List.pairwise_iff_getElem.1 sorted i k _ below less
  · exact le_refl _

/-- The two values next to a point are in order. -/
theorem cell_le (sorted : data.Pairwise (· ≤ ·)) (two : 2 ≤ data.length) :
    data.getD (cell data.length n i - 1) 0 ≤ data.getD (cell data.length n i) 0 :=
  getD_mono sorted (Nat.sub_le _ 1) (Nat.lt_of_succ_le (cell_bounds two).2)

/-- The last two values are the same exactly if the last one occurs twice. -/
theorem last_twice_iff (sorted : data.Pairwise (· ≤ ·)) (two : 2 ≤ data.length) :
    data.getD (data.length - 2) 0 = data.getD (data.length - 1) 0 ↔
      2 ≤ data.count (data.getD (data.length - 1) 0) := by
  obtain ⟨init, x, y, rfl⟩ : ∃ init x y, data = init ++ [x, y] := by
    rcases List.eq_nil_or_concat data with rfl | ⟨front, y, rfl⟩
    · cases two
    rcases List.eq_nil_or_concat front with rfl | ⟨init, x, rfl⟩
    · simp at two
    · exact ⟨init, x, y, by simp⟩
  have le : x ≤ y := by
    have pair := (List.pairwise_append.1 sorted).2.1
    exact (List.pairwise_cons.1 pair).1 y List.mem_cons_self
  have x_last : (init ++ [x, y]).getD ((init ++ [x, y]).length - 2) 0 = x := by simp
  have y_last : (init ++ [x, y]).getD ((init ++ [x, y]).length - 1) 0 = y := by
    simp
  rw [x_last, y_last]
  constructor
  · rintro rfl
    simp
  · intro twice
    by_contra differ
    have less : x < y := lt_of_le_of_ne le differ
    have none_ : init.count y = 0 := by
      apply List.count_eq_zero.2
      intro member
      have below := (List.pairwise_append.1 sorted).2.2 y member x List.mem_cons_self
      exact absurd (below.trans_lt less) (lt_irrefl y)
    simp [none_, differ] at twice

/-- The point that a caller looks up. -/
theorem quantiles_get (two : 2 ≤ data.length) (first : 1 ≤ i) (below : i < n) :
    ((quantiles round n data).bind fun cuts => cuts[i - 1]?) =
      some (cut round n data.mergeSort i) := by
  have index : i - 1 < n - 1 := by omega
  rw [quantiles, if_neg (by omega), Option.bind_some, List.getElem?_map,
    List.getElem?_range' index, Option.map_some, Nat.one_mul, Nat.add_sub_cancel' first]

end

variable [IsStrictOrderedRing α]

section

variable {n : ℕ} {x y : α} {delta delta' : ℤ}

theorem between_eq (parts : 0 < n) (x y : α) (delta : ℤ) :
    between id n x y delta = y - (y - x) * ((n - delta : ℤ) / n) := by
  have scale : (n : α) ≠ 0 := Nat.cast_ne_zero.2 (Nat.pos_iff_ne_zero.1 parts)
  simp only [between, id_eq]
  push_cast
  field_simp
  ring

theorem between_mono (parts : 0 < n) (le : x ≤ y) (before : delta ≤ delta') :
    between id n x y delta ≤ between id n x y delta' := by
  rw [between_eq parts, between_eq parts]
  refine sub_le_sub_left (mul_le_mul_of_nonneg_left ?_ (sub_nonneg.2 le)) y
  refine div_le_div_of_nonneg_right ?_ (Nat.cast_nonneg n)
  exact_mod_cast sub_le_sub_left before (n : ℤ)

theorem between_zero (parts : 0 < n) (x y : α) : between id n x y 0 = x := by
  have scale : (n : α) ≠ 0 := Nat.cast_ne_zero.2 (Nat.pos_iff_ne_zero.1 parts)
  simp only [between, id_eq]
  push_cast
  field_simp
  ring

theorem between_full (parts : 0 < n) (x y : α) : between id n x y n = y := by
  rw [between_eq parts, sub_self, Int.cast_zero, zero_div, mul_zero, sub_zero]

/-- Beyond `y` the line is above it, unless it is level. -/
theorem between_beyond (parts : 0 < n) (le : x ≤ y) (beyond : (n : ℤ) < delta) :
    between id n x y delta ≤ y ↔ x = y := by
  have slope : ((n - delta : ℤ) : α) / n < 0 := by
    refine div_neg_of_neg_of_pos ?_ (Nat.cast_pos.2 parts)
    exact_mod_cast sub_neg.2 beyond
  rw [between_eq parts, sub_le_self_iff]
  constructor
  · intro nonneg
    have level : y - x ≤ 0 := nonpos_of_mul_nonneg_left nonneg slope
    exact le_antisymm le (sub_nonpos.1 level)
  · rintro rfl
    rw [sub_self, zero_mul]

end

section

variable {n i k : ℕ} {data : List α}

/-- A point that does not stand behind the upper value is not above it. -/
theorem cut_le_upper (parts : 0 < n) (sorted : data.Pairwise (· ≤ ·)) (two : 2 ≤ data.length)
    (stands : i * (data.length + 1) ≤ n * (cell data.length n i + 1)) :
    cut id n data i ≤ data.getD (cell data.length n i) 0 := by
  have scaled : (i * (data.length + 1) : ℤ) ≤ n * (cell data.length n i + 1) := by
    exact_mod_cast stands
  have part : (i * (data.length + 1) - cell data.length n i * n : ℤ) ≤ n := by linarith
  exact (between_mono parts (cell_le sorted two) part).trans_eq (between_full parts _ _)

/-- A point that does not stand before the lower value is not below it. -/
theorem lower_le_cut (parts : 0 < n) (sorted : data.Pairwise (· ≤ ·)) (two : 2 ≤ data.length)
    (stands : n * cell data.length n i ≤ i * (data.length + 1)) :
    data.getD (cell data.length n i - 1) 0 ≤ cut id n data i := by
  have scaled : (n * cell data.length n i : ℤ) ≤ i * (data.length + 1) := by
    exact_mod_cast stands
  have part : (0 : ℤ) ≤ i * (data.length + 1) - cell data.length n i * n := by linarith
  exact (between_zero parts _ _).symm.trans_le (between_mono parts (cell_le sorted two) part)

/-- **The cut points are in order.** -/
theorem cut_mono (parts : 0 < n) (sorted : data.Pairwise (· ≤ ·)) (two : 2 ≤ data.length)
    (le : i ≤ k) : cut id n data i ≤ cut id n data k := by
  have bounds := cell_bounds (n := n) (i := k) two
  rcases Nat.lt_or_eq_of_le (cell_mono (n := n) two le) with less | same
  · -- there is a value between them
    have upper := cut_le_upper parts sorted two
      (Nat.le_of_lt (lt_upper (i := i) parts two (by omega)))
    have lower := lower_le_cut parts sorted two
      (lower_le (i := k) two (by have := cell_bounds (n := n) (i := i) two; omega))
    refine (upper.trans (getD_mono sorted ?_ ?_)).trans lower <;> omega
  · unfold cut
    dsimp only
    rw [same]
    refine between_mono parts (cell_le sorted two) (sub_le_sub_right ?_ _)
    exact_mod_cast Nat.mul_le_mul_right (data.length + 1) le

theorem first_le_cut (parts : 0 < n) (sorted : data.Pairwise (· ≤ ·)) (two : 2 ≤ data.length)
    (stands : n ≤ i * (data.length + 1)) : data.getD 0 0 ≤ cut id n data i := by
  have bounds := cell_bounds (n := n) (i := i) two
  have lower := lower_le_cut (i := i) parts sorted two (by
    rcases Nat.lt_or_eq_of_le bounds.1 with above | first
    · exact lower_le two above
    · rw [← first, Nat.mul_one]
      exact stands)
  exact (getD_mono sorted (Nat.zero_le _) (by omega)).trans lower

/-- **When a cut point is in the sample's range.**  It is not above the last value exactly if it
does not stand behind it, or the last two values are the same. -/
theorem cut_le_last_iff (parts : 0 < n) (sorted : data.Pairwise (· ≤ ·))
    (two : 2 ≤ data.length) :
    cut id n data i ≤ data.getD (data.length - 1) 0 ↔
      i * (data.length + 1) ≤ n * data.length ∨
        data.getD (data.length - 2) 0 = data.getD (data.length - 1) 0 := by
  have bounds := cell_bounds (n := n) (i := i) two
  rcases Nat.lt_or_ge (n * data.length) (i * (data.length + 1)) with behind | stands
  · have last := cell_of_behind parts two behind
    have beyond : (n : ℤ) < i * (data.length + 1) - (data.length - 1 : ℕ) * n := by
      have scaled : (n * data.length : ℤ) < i * (data.length + 1) := by exact_mod_cast behind
      rw [Nat.cast_sub (by omega), Nat.cast_one]
      linarith
    have le : data.getD (data.length - 2) 0 ≤ data.getD (data.length - 1) 0 :=
      getD_mono sorted (by omega) (by omega)
    rw [cut, last, Nat.sub_sub, between_beyond parts le beyond]
    exact (or_iff_right (Nat.not_le_of_lt behind)).symm
  · refine iff_of_true ?_ (.inl stands)
    have upper := cut_le_upper (i := i) parts sorted two (by
      rcases Nat.lt_or_eq_of_le bounds.2 with below | last
      · exact Nat.le_of_lt (lt_upper parts two below)
      · rw [last]
        exact stands)
    exact upper.trans (getD_mono sorted (by omega) (by omega))

/-! ## Rounding -/

/-- The relative error of one operation is at most `ε`. -/
def Rounds (ε : α) (round : α → α) : Prop := ∀ q, |round q - q| ≤ ε * |q|

variable {ε : α} {round : α → α}

/-- One more operation on a value that is `k` relative errors away. -/
theorem Rounds.next (rounds : Rounds ε round) (nonneg : 0 ≤ ε) {x a m c : α}
    (close : |x - a| ≤ (c - 1) * m) (bound : |a| ≤ m) :
    |round x - a| ≤ (c * (1 + ε) - 1) * m := by
  have size : |x| ≤ c * m := by
    calc |x| = |(x - a) + a| := by rw [sub_add_cancel]
      _ ≤ |x - a| + |a| := abs_add_le _ _
      _ ≤ (c - 1) * m + m := add_le_add close bound
      _ = c * m := by ring
  calc |round x - a| ≤ |round x - x| + |x - a| := abs_sub_le _ _ _
    _ ≤ ε * |x| + (c - 1) * m := add_le_add (rounds x) close
    _ ≤ ε * (c * m) + (c - 1) * m := by gcongr
    _ = (c * (1 + ε) - 1) * m := by ring

/-- A rounded value of the line against the exact one. -/
theorem between_near (rounds : Rounds ε round) (nonneg : 0 ≤ ε) (parts : 0 < n) (x y : α)
    (delta : ℤ) :
    |between round n x y delta - between id n x y delta| ≤
      ((1 + ε) ^ 3 - 1) * ((|x * (n - delta)| + |y * delta|) / n) := by
  have scale : (0 : α) < n := Nat.cast_pos.2 parts
  set a := x * (n - delta)
  set b := y * (delta : α)
  have sum : |round a + round b - (a + b)| ≤ ((1 + ε) - 1) * (|a| + |b|) := by
    calc |round a + round b - (a + b)| = |(round a - a) + (round b - b)| := by ring_nf
      _ ≤ |round a - a| + |round b - b| := abs_add_le _ _
      _ ≤ ε * |a| + ε * |b| := add_le_add (rounds a) (rounds b)
      _ = ((1 + ε) - 1) * (|a| + |b|) := by ring
  have summed := rounds.next nonneg sum (abs_add_le a b)
  have divided : |round (round a + round b) / n - (a + b) / n| ≤
      ((1 + ε) * (1 + ε) - 1) * ((|a| + |b|) / n) := by
    rw [← sub_div, abs_div, abs_of_pos scale, ← mul_div_assoc]
    gcongr
  have bound : |(a + b) / n| ≤ (|a| + |b|) / n := by
    rw [abs_div, abs_of_pos scale]
    gcongr
    exact abs_add_le a b
  calc |between round n x y delta - between id n x y delta|
      ≤ ((1 + ε) * (1 + ε) * (1 + ε) - 1) * ((|a| + |b|) / n) :=
        rounds.next nonneg divided bound
    _ = ((1 + ε) ^ 3 - 1) * ((|a| + |b|) / n) := by ring

/-- **A rounded cut point is near the exact one**, in terms of the largest value. -/
theorem cut_near (rounds : Rounds ε round) (nonneg : 0 ≤ ε) (parts : 0 < n)
    (two : 2 ≤ data.length) (below : i < n) {m : α} (largest : ∀ x ∈ data, |x| ≤ m) :
    |cut round n data i - cut id n data i| ≤ ((1 + ε) ^ 3 - 1) * (3 * m) := by
  have scale : (0 : α) < n := Nat.cast_pos.2 parts
  have bounds := cell_bounds (n := n) (i := i) two
  obtain ⟨before, behind⟩ := part_bounds parts two below
  have value (k : ℕ) (inside : k < data.length) : |data.getD k 0| ≤ m := by
    rw [List.getD_eq_getElem _ _ inside]
    exact largest _ (List.getElem_mem _)
  have lower := value (cell data.length n i - 1) (by omega)
  have upper := value (cell data.length n i) (by omega)
  have error : 0 ≤ (1 + ε) ^ 3 - 1 := sub_nonneg.2 (one_le_pow₀ (le_add_of_nonneg_right nonneg))
  refine (between_near rounds nonneg parts _ _ _).trans (mul_le_mul_of_nonneg_left ?_ error)
  generalize (i * (data.length + 1) - cell data.length n i * n : ℤ) = delta at before behind ⊢
  have weights : |(n - delta : α)| + |(delta : α)| ≤ 3 * n := by
    have whole : |(n - delta : ℤ)| + |delta| ≤ 3 * n := by
      rcases abs_cases (n - delta : ℤ) with ⟨same, _⟩ | ⟨same, _⟩ <;>
        rcases abs_cases delta with ⟨same', _⟩ | ⟨same', _⟩ <;> omega
    exact_mod_cast whole
  rw [div_le_iff₀ scale, abs_mul, abs_mul]
  calc |data.getD (cell data.length n i - 1) 0| * |(n - delta : α)| +
        |data.getD (cell data.length n i) 0| * |(delta : α)|
      ≤ m * |(n - delta : α)| + m * |(delta : α)| := by gcongr
    _ = m * (|(n - delta : α)| + |(delta : α)|) := by ring
    _ ≤ m * (3 * n) := mul_le_mul_of_nonneg_left weights ((abs_nonneg _).trans lower)
    _ = 3 * m * n := by ring

end

end Quantiles
