/-
# TaskQueue.Lib.Paging -- pages of a list that is sorted anew for each

`ORDER BY` fixes an order only up to its key: two queries may list rows of one key in
different orders.  A client that reads page after page, each from a query of its own, sees
slices of different lists.  `page` is one slice, `Arranges` an order that a query may have
chosen, descending in the key, and an `Arrangement` chooses one for whatever rows it is given.

* `take_perm`: at a boundary that no group of equal keys straddles, every order has the same
  rows before it, so every page has the same rows too (`page_perm`).
* `swapped`: at a boundary that a group straddles, two orders differ by a swap across it.
* `pages_partition_iff` puts the two together.
-/
import Mathlib.Data.List.Nodup
import Mathlib.Data.List.Perm.Basic
import Mathlib.Order.Lattice

namespace Paging

set_option autoImplicit false

variable {α K : Type} [LinearOrder K] {key : α → K}

/-- `LIMIT limit OFFSET k * limit`. -/
def page (limit k : ℕ) (order : List α) : List α := (order.drop (k * limit)).take limit

/-- `order` lists the rows by `ORDER BY key DESC`. -/
structure Arranges (key : α → K) (rows order : List α) : Prop where
  perm : order.Perm rows
  sorted : order.Pairwise fun a b => key b ≤ key a

/-- The rows that come before every row of the group of `x`, in any order. -/
def ahead (key : α → K) (rows : List α) (x : α) : ℕ := rows.countP fun y => key x < key y

/-- The same with the group of `x` itself. -/
def through (key : α → K) (rows : List α) (x : α) : ℕ := rows.countP fun y => key x ≤ key y

/-- Rows of one key lie on both sides of the boundary `b`. -/
def Straddles (key : α → K) (rows : List α) (b : ℕ) : Prop :=
  ∃ x ∈ rows, ahead key rows x < b ∧ b < through key rows x

instance (key : α → K) (rows : List α) (b : ℕ) : Decidable (Straddles key rows b) :=
  inferInstanceAs (Decidable (∃ x ∈ rows, _))

/-- Some order exists. -/
theorem exists_arranges (key : α → K) (rows : List α) : ∃ order, Arranges key rows order := by
  refine ⟨rows.mergeSort fun a b => key b ≤ key a, List.mergeSort_perm _ _, ?_⟩
  have sorted := @List.pairwise_mergeSort _ (fun a b => decide (key b ≤ key a))
    (fun a b c first second => by
      simp only [decide_eq_true_eq] at first second ⊢
      exact le_trans second first)
    (fun a b => by simpa using le_total (key b) (key a)) rows
  simpa using sorted

/-- How a query arranges rows that it is asked to sort. -/
structure Arrangement (key : α → K) where
  order : List α → List α
  arranges : ∀ rows, Arranges key rows (order rows)

/-- Every order of given rows is one that some query chooses. -/
theorem exists_arrangement {rows order : List α} (arranges : Arranges key rows order) :
    ∃ a : Arrangement key, a.order rows = order := by
  classical
  choose sort sorts using exists_arranges key
  refine ⟨⟨fun other => if other = rows then order else sort other, fun other => ?_⟩, if_pos rfl⟩
  by_cases same : other = rows
  · simpa [same] using arranges
  · simpa [same] using sorts other

/-! ## Boundaries that no group straddles -/

variable {rows order order' : List α}

/-- Of the rows behind a boundary none has all its group before it, and of those before it
all have, unless their group straddles the boundary. -/
theorem take_eq_filter (arranges : Arranges key rows order) {b : ℕ}
    (clean : ¬ Straddles key rows b) :
    order.take b = order.filter fun x => through key rows x ≤ b := by
  have whole := List.take_append_drop b order
  have sorted := arranges.sorted
  rw [← whole, List.pairwise_append] at sorted
  obtain ⟨-, -, across⟩ := sorted
  have counts (p : α → Bool) :
      rows.countP p = (order.take b).countP p + (order.drop b).countP p := by
    rw [← arranges.perm.countP_eq, ← List.countP_append, whole]
  have before : ∀ x ∈ order.take b, through key rows x ≤ b := by
    intro x member
    have notFirst : ahead key rows x < b := by
      have behind : (order.drop b).countP (fun y => key x < key y) = 0 := by
        rw [List.countP_eq_zero]
        intro y member'
        simpa using across x member y member'
      have itself : (order.take b).countP (fun y => key x < key y) < (order.take b).length := by
        refine Nat.lt_of_le_of_ne List.countP_le_length fun all => ?_
        rw [List.countP_eq_length] at all
        exact absurd (by simpa using all x member) (lt_irrefl (key x))
      have short := List.length_take_le b order
      rw [ahead, counts, behind]
      omega
    by_contra late
    have row : x ∈ rows := arranges.perm.subset (List.mem_of_mem_take member)
    exact clean ⟨x, row, notFirst, Nat.not_le.1 late⟩
  have behind : ∀ x ∈ order.drop b, ¬ through key rows x ≤ b := by
    intro x member
    have all : (order.take b).countP (fun y => key x ≤ key y) = (order.take b).length := by
      rw [List.countP_eq_length]
      intro y member'
      simpa using across y member' x member
    have itself : 0 < (order.drop b).countP (fun y => key x ≤ key y) :=
      List.countP_pos_iff.2 ⟨x, member, by simp⟩
    have some_ := List.length_pos_of_mem member
    rw [List.length_drop] at some_
    rw [through, counts, all, List.length_take]
    omega
  conv_rhs => rw [← whole]
  rw [List.filter_append, List.filter_eq_self.2 (by simpa using before),
    List.filter_eq_nil_iff.2 (by simpa using behind), List.append_nil]

/-- Every order has the same rows before a boundary that no group straddles. -/
theorem take_perm (arranges : Arranges key rows order) (arranges' : Arranges key rows order')
    {b : ℕ} (clean : ¬ Straddles key rows b) : (order.take b).Perm (order'.take b) := by
  rw [take_eq_filter arranges clean, take_eq_filter arranges' clean]
  exact (arranges.perm.trans arranges'.perm.symm).filter _

theorem take_succ_page (limit k : ℕ) (order : List α) :
    order.take ((k + 1) * limit) = order.take (k * limit) ++ page limit k order := by
  rw [page, Nat.succ_mul, List.take_add]

/-- Between two such boundaries every order has the same page. -/
theorem page_perm (arranges : Arranges key rows order) (arranges' : Arranges key rows order')
    {limit k : ℕ} (clean : ∀ k, ¬ Straddles key rows (k * limit)) :
    (page limit k order).Perm (page limit k order') := by
  have through := take_perm arranges arranges' (clean (k + 1))
  rw [take_succ_page, take_succ_page] at through
  have upTo := take_perm arranges arranges' (clean k)
  exact (List.perm_append_left_iff _).1 (through.trans (upTo.symm.append_right _))

/-- The pages of one order are its rows. -/
theorem flatMap_page (limit n : ℕ) (order : List α) :
    ((List.range n).flatMap fun k => page limit k order) = order.take (n * limit) := by
  induction n with
  | zero => simp
  | succ n ih => simp [List.range_succ, ih, take_succ_page]

/-! ## Boundaries that a group straddles -/

/-- When a group straddles the boundary behind `a`, the rows next to it have one key. -/
theorem group_across {front back : List α} {a c x : α}
    (sorted : ((front ++ [a]) ++ c :: back).Pairwise fun a b => key b ≤ key a)
    (late : ahead key ((front ++ [a]) ++ c :: back) x < front.length + 1)
    (early : front.length + 1 < through key ((front ++ [a]) ++ c :: back) x) : key a ≤ key c := by
  rw [List.pairwise_append] at sorted
  obtain ⟨upTo, behind, across⟩ := sorted
  by_contra differ
  rw [not_le] at differ
  have length : (front ++ [a]).length = front.length + 1 := by simp
  rcases lt_or_ge (key c) (key x) with ends | group
  · -- the group of `x` ends before `c`
    have none_ : (c :: back).countP (fun y => key x ≤ key y) = 0 := by
      rw [List.countP_eq_zero]
      intro y member
      rcases List.mem_cons.1 member with rfl | later
      · simpa using ends
      · simpa using lt_of_le_of_lt ((List.pairwise_cons.1 behind).1 y later) ends
    have bound : (front ++ [a]).countP (fun y => key x ≤ key y) ≤ (front ++ [a]).length :=
      List.countP_le_length
    rw [through, List.countP_append, none_] at early
    omega
  · -- everything up to `a` comes before the group of `x`
    have all : (front ++ [a]).countP (fun y => key x < key y) = (front ++ [a]).length := by
      rw [List.countP_eq_length]
      intro y member
      have aboveA : key a ≤ key y := by
        rcases List.mem_append.1 member with inFront | isA
        · exact (List.pairwise_append.1 upTo).2.2 y inFront a (by simp)
        · rw [List.mem_singleton.1 isA]
      simpa using lt_of_le_of_lt group (lt_of_lt_of_le differ aboveA)
    rw [ahead, List.countP_append, all] at late
    omega

/-- Across a straddled boundary two rows of an order can change places. -/
theorem swapped (arranges : Arranges key rows order) {b : ℕ} (straddles : Straddles key rows b) :
    ∃ front a c back, order = (front ++ [a]) ++ c :: back ∧ front.length + 1 = b ∧
      Arranges key rows ((front ++ [c]) ++ a :: back) := by
  obtain ⟨x, -, late, early⟩ := straddles
  have ahead_ : ahead key order x = ahead key rows x := arranges.perm.countP_eq _
  have through_ : through key order x = through key rows x := arranges.perm.countP_eq _
  rw [← ahead_] at late
  rw [← through_] at early
  have long : b < order.length := Nat.lt_of_lt_of_le early List.countP_le_length
  obtain ⟨m, rfl⟩ : ∃ m, b = m + 1 := ⟨b - 1, by omega⟩
  have split : order = (order.take m ++ [order[m]]) ++ order[m + 1] :: order.drop (m + 2) := by
    rw [← List.drop_eq_getElem_cons long, List.append_assoc, List.singleton_append,
      ← List.drop_eq_getElem_cons (by omega), List.take_append_drop]
  have length : (order.take m).length + 1 = m + 1 := by
    rw [List.length_take]
    omega
  generalize order.take m = front at split length
  generalize order[m] = a at split
  generalize order[m + 1] = c at split
  generalize order.drop (m + 2) = back at split
  subst split
  have sorted := arranges.sorted
  have same := group_across (x := x) sorted (by omega) (by omega)
  refine ⟨front, a, c, back, rfl, length, ?_, ?_⟩
  · have swap : (front ++ c :: a :: back).Perm (front ++ a :: c :: back) :=
      List.Perm.append_left front (List.Perm.swap a c back)
    exact (by simpa using swap : ((front ++ [c]) ++ a :: back).Perm _).trans arranges.perm
  · simp only [List.append_assoc, List.singleton_append, List.pairwise_append, List.pairwise_cons,
      List.mem_cons, forall_eq_or_imp] at sorted ⊢
    obtain ⟨inFront, ⟨⟨-, aBack⟩, cBack, inBack⟩, frontAll⟩ := sorted
    refine ⟨inFront, ⟨⟨same, cBack⟩, aBack, inBack⟩, fun y member => ?_⟩
    obtain ⟨ya, yc, yBack⟩ := frontAll y member
    exact ⟨yc, ya, yBack⟩

/-- **When pages of different queries fit together.**  Whatever order each query chooses, the
pages are a permutation of the rows exactly when no group of equal keys straddles a page
boundary. -/
theorem pages_partition_iff {limit n : ℕ} (nodup : rows.Nodup) (pos : 0 < limit)
    (enough : rows.length ≤ n * limit) :
    (∀ orders : ℕ → List α, (∀ k, Arranges key rows (orders k)) →
        ((List.range n).flatMap fun k => page limit k (orders k)).Perm rows) ↔
      ∀ k, ¬ Straddles key rows (k * limit) := by
  obtain ⟨order, arranges⟩ := exists_arranges key rows
  have len : order.length = rows.length := arranges.perm.length_eq
  constructor
  · intro partition k straddles
    obtain ⟨front, a, c, back, shape, boundary, arranges'⟩ := swapped arranges straddles
    have inside : front.length + 2 ≤ order.length := by
      rw [shape]
      simp
    obtain ⟨k, rfl⟩ : ∃ m, k = m + 1 := by
      cases k with
      | zero => omega
      | succ k => exact ⟨k, rfl⟩
    have bound : k + 1 < n := by
      refine Nat.lt_of_mul_lt_mul_right (a := limit) ?_
      omega
    -- the page before the boundary reads the swapped order, all others the first one
    have perm := partition
      (fun i => if i = k then (front ++ [c]) ++ a :: back else order)
      (fun i => by
        split
        · exact arranges'
        · exact arranges)
    have distinct := perm.nodup_iff.2 nodup
    rw [List.nodup_flatMap] at distinct
    have apart := (List.pairwise_iff_getElem.1 distinct.2) k (k + 1) (by simp; omega)
      (by simpa using bound) (Nat.lt_succ_self k)
    simp only [Function.onFun, List.getElem_range, if_true, Nat.succ_ne_self, if_false] at apart
    -- `c` is the last row of the former and the first of the latter
    have last : c ∈ page limit k ((front ++ [c]) ++ a :: back) := by
      have at_ : k * limit ≤ front.length := by
        have := Nat.add_one_mul k limit
        omega
      rw [page, List.append_assoc, List.drop_append_of_le_length at_, List.mem_take_iff_getElem]
      refine ⟨front.length - k * limit, ?_, ?_⟩
      · have := Nat.add_one_mul k limit
        simp only [List.length_append, List.length_drop, List.length_cons]
        omega
      · rw [List.getElem_append_right (by simp)]
        simp
    have first : c ∈ page limit (k + 1) order := by
      rw [page, ← boundary, shape, List.mem_take_iff_getElem]
      refine ⟨0, by simp; omega, ?_⟩
      simp
    exact apart last first
  · intro clean orders all
    have pages : ∀ k, (page limit k (orders k)).Perm (page limit k order) :=
      fun k => page_perm (all k) arranges clean
    refine (List.Perm.flatMap_left _ fun k _ => pages k).trans ?_
    rw [flatMap_page, List.take_of_length_le (by omega)]
    exact arranges.perm

end Paging
