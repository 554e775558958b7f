/-
# TaskQueue.Lib.SerialTable -- SQL tables with a serial key

A table maps a key to its row and hands out keys from a sequence.  `fresh` is part
of the table: no row sits at a key the sequence has not reached, so an inserted row
never replaces one.  `insert`, `updateWhere`, `updateKey` and `delete` are the four
statements; each comes with the row it leaves at every key.

Comparisons follow SQL's three-valued logic: `none` is the truth value of a
comparison with `NULL`, and a `WHERE` clause keeps a row only when it `holds`.

* `countWhere` is `COUNT(*)`; `countWhere_at_key` and `countWhere_congr` say how a
  statement that touches one key, or none that matters, moves it.
* `countP_among` counts the rows of a list of keys by the list.
* `groupCount` is `COUNT(*)` by `GROUP BY`: a group without rows has no line.
-/
import Mathlib.Logic.Function.Basic
import Mathlib.Data.Nat.Basic
import Mathlib.Data.List.Dedup

set_option autoImplicit false

namespace Sql

/-- A truth value of SQL; `none` is unknown. -/
abbrev Tri := Option Bool

def Tri.and : Tri → Tri → Tri
  | some false, _ => some false
  | _, some false => some false
  | some true, some true => some true
  | _, _ => none

/-- A `WHERE` clause keeps the rows on which it is true, not those on which it is unknown. -/
def Tri.holds (v : Tri) : Bool := v == some true

variable {α : Type}

def lt [LT α] [DecidableLT α] : Option α → Option α → Tri
  | some a, some b => some (decide (a < b))
  | _, _ => none

def eq [DecidableEq α] : Option α → Option α → Tri
  | some a, some b => some (decide (a = b))
  | _, _ => none

@[simp] theorem holds_and (v w : Tri) : (v.and w).holds = (v.holds && w.holds) := by
  rcases v with _ | _ | _ <;> rcases w with _ | _ | _ <;> rfl

@[simp] theorem holds_some (b : Bool) : Tri.holds (some b) = b := by cases b <;> rfl

@[simp] theorem holds_none : Tri.holds none = false := rfl

theorem holds_lt [LT α] [DecidableLT α] {a b : Option α} :
    (lt a b).holds = true ↔ ∃ x y, a = some x ∧ b = some y ∧ x < y := by
  cases a <;> cases b <;> simp [lt]

theorem holds_eq [DecidableEq α] {a b : Option α} :
    (eq a b).holds = true ↔ ∃ x, a = some x ∧ b = some x := by
  cases a <;> cases b <;> simp [eq, eq_comm]

end Sql

/-- A table whose key is a sequence. -/
structure SerialTable (ρ : Type) where
  row : ℕ → Option ρ
  next : ℕ
  fresh : ∀ i, next ≤ i → row i = none

namespace SerialTable

variable {ρ : Type}

def empty : SerialTable ρ := ⟨fun _ => none, 1, fun _ _ => rfl⟩

/-- Insert a row under the next key of the sequence. -/
def insert (t : SerialTable ρ) (r : ρ) : SerialTable ρ where
  row := Function.update t.row t.next (some r)
  next := t.next + 1
  fresh i beyond := by
    rw [Function.update_of_ne (by omega)]
    exact t.fresh i (by omega)

/-- Rewrite the rows that satisfy a `WHERE` clause. -/
def updateWhere (t : SerialTable ρ) (p : ρ → Bool) (f : ρ → ρ) : SerialTable ρ where
  row i := (t.row i).map fun r => if p r then f r else r
  next := t.next
  fresh i beyond := by rw [t.fresh i beyond]; rfl

/-- Rewrite the row at one key, if there is one. -/
def updateKey (t : SerialTable ρ) (k : ℕ) (f : ρ → ρ) : SerialTable ρ where
  row := Function.update t.row k ((t.row k).map f)
  next := t.next
  fresh i beyond := by
    by_cases same : i = k
    · subst same
      rw [Function.update_self, t.fresh i beyond]
      rfl
    · rw [Function.update_of_ne same]
      exact t.fresh i beyond

def delete (t : SerialTable ρ) (k : ℕ) : SerialTable ρ where
  row := Function.update t.row k none
  next := t.next
  fresh i beyond := by
    by_cases same : i = k
    · rw [same, Function.update_self]
    · rw [Function.update_of_ne same]
      exact t.fresh i beyond

/-- The keys of the rows, in key order. -/
def keys (t : SerialTable ρ) : List ℕ := (List.range t.next).filter fun i => (t.row i).isSome

theorem lt_next {t : SerialTable ρ} {i : ℕ} {r : ρ} (at_ : t.row i = some r) : i < t.next := by
  by_contra beyond
  rw [t.fresh i (by omega)] at at_
  cases at_

theorem mem_keys {t : SerialTable ρ} {i : ℕ} : i ∈ t.keys ↔ ∃ r, t.row i = some r := by
  simp only [keys, List.mem_filter, List.mem_range, Option.isSome_iff_exists]
  constructor
  · intro key
    exact key.2
  · rintro ⟨r, at_⟩
    exact ⟨lt_next at_, r, at_⟩

theorem row_insert (t : SerialTable ρ) (r : ρ) (i : ℕ) :
    (t.insert r).row i = if i = t.next then some r else t.row i := by
  by_cases same : i = t.next <;> simp [insert, same]

@[simp] theorem row_updateWhere (t : SerialTable ρ) (p : ρ → Bool) (f : ρ → ρ) (i : ℕ) :
    (t.updateWhere p f).row i = (t.row i).map fun r => if p r then f r else r := rfl

theorem row_updateKey (t : SerialTable ρ) (k : ℕ) (f : ρ → ρ) (i : ℕ) :
    (t.updateKey k f).row i = if i = k then (t.row i).map f else t.row i := by
  by_cases same : i = k
  · subst same
    simp [updateKey]
  · simp [updateKey, same]

theorem row_delete (t : SerialTable ρ) (k i : ℕ) :
    (t.delete k).row i = if i = k then none else t.row i := by
  by_cases same : i = k <;> simp [delete, same]

@[simp] theorem next_insert (t : SerialTable ρ) (r : ρ) : (t.insert r).next = t.next + 1 := rfl

@[simp] theorem next_updateWhere (t : SerialTable ρ) (p : ρ → Bool) (f : ρ → ρ) :
    (t.updateWhere p f).next = t.next := rfl

@[simp] theorem next_updateKey (t : SerialTable ρ) (k : ℕ) (f : ρ → ρ) :
    (t.updateKey k f).next = t.next := rfl

@[simp] theorem next_delete (t : SerialTable ρ) (k : ℕ) : (t.delete k).next = t.next := rfl

/-! ## Reading a table -/

/-- The rows with their keys, in key order. -/
def entries (t : SerialTable ρ) : List (ℕ × ρ) :=
  (List.range t.next).filterMap fun i => (t.row i).map fun r => (i, r)

/-- `SELECT COUNT(*) … WHERE p`. -/
def countWhere (t : SerialTable ρ) (p : ρ → Bool) : ℕ := t.entries.countP fun x => p x.2

theorem mem_entries {t : SerialTable ρ} {i : ℕ} {r : ρ} :
    (i, r) ∈ t.entries ↔ t.row i = some r := by
  simp only [entries, List.mem_filterMap, List.mem_range, Option.map_eq_some_iff, Prod.mk.injEq]
  constructor
  · rintro ⟨k, -, r', at_, rfl, rfl⟩
    exact at_
  · intro at_
    exact ⟨i, lt_next at_, r, at_, rfl, rfl⟩

theorem countWhere_pos_iff {t : SerialTable ρ} {p : ρ → Bool} :
    0 < t.countWhere p ↔ ∃ i r, t.row i = some r ∧ p r = true := by
  simp only [countWhere, List.countP_pos_iff, Prod.exists, mem_entries]

theorem entries_keys_nodup (t : SerialTable ρ) : (t.entries.map Prod.fst).Nodup := by
  have keys : t.entries.map Prod.fst = (List.range t.next).filter fun i => (t.row i).isSome := by
    rw [entries, List.map_filterMap, ← List.filterMap_eq_filter]
    congr 1
    funext i
    cases row : t.row i <;> simp [Option.guard, row]
  rw [keys]
  exact List.nodup_range.filter _

/-- `SELECT COUNT(*) … WHERE id = ANY(ids) AND p`, by the ids. -/
theorem countP_among {t : SerialTable ρ} {ids : List ℕ} (distinct : ids.Nodup) (p : ρ → Bool) :
    t.entries.countP (fun x => x.1 ∈ ids && p x.2) = ids.countP fun i => (t.row i).any p := by
  rw [List.countP_eq_length_filter, List.countP_eq_length_filter,
    ← List.length_map (f := Prod.fst)]
  refine List.Perm.length_eq ((List.perm_ext_iff_of_nodup ?_ (distinct.filter _)).2 fun i => ?_)
  · exact t.entries_keys_nodup.sublist (List.filter_sublist.map Prod.fst)
  · simp only [List.mem_map, List.mem_filter, Bool.and_eq_true, decide_eq_true_eq, Prod.exists,
      mem_entries, Option.any_eq_true]
    constructor
    · rintro ⟨k, r, ⟨row, wanted, passes⟩, rfl⟩
      exact ⟨wanted, r, row, passes⟩
    · rintro ⟨wanted, r, row, passes⟩
      exact ⟨i, r, ⟨row, wanted, passes⟩, rfl⟩

/-- The count over the keys below any bound that the sequence has not passed. -/
theorem countWhere_eq (t : SerialTable ρ) (p : ρ → Bool) {n : ℕ} (bound : t.next ≤ n) :
    t.countWhere p = (List.range n).countP fun i => (t.row i).any p := by
  induction bound with
  | refl =>
      rw [countWhere, entries, List.countP_filterMap]
      congr 1
      funext i
      cases t.row i <;> rfl
  | @step m le ih => simp [List.range_succ, ih, t.fresh m le]

/-- A statement that touches one key moves the count by that row. -/
theorem countWhere_at_key {t t' : SerialTable ρ} (p : ρ → Bool) (k : ℕ)
    (elsewhere : ∀ i, i ≠ k → t'.row i = t.row i) :
    t'.countWhere p + ((t.row k).any p).toNat = t.countWhere p + ((t'.row k).any p).toNat := by
  -- below a bound that has not passed the key the two agree
  have upTo (n : ℕ) :
      (List.range n).countP (fun i => (t'.row i).any p) +
          (if k < n then ((t.row k).any p).toNat else 0) =
        (List.range n).countP (fun i => (t.row i).any p) +
          (if k < n then ((t'.row k).any p).toNat else 0) := by
    induction n with
    | zero => rfl
    | succ n ih =>
        simp only [List.range_succ, List.countP_append, List.countP_singleton]
        by_cases here : n = k
        · subst here
          simp only [Nat.lt_irrefl, if_false, Nat.lt_succ_self, if_true] at ih ⊢
          cases (t.row n).any p <;> cases (t'.row n).any p <;> simp <;> omega
        · have same : k < n + 1 ↔ k < n := by omega
          rw [elsewhere n here]
          simp only [same]
          omega
  have total := upTo (max (k + 1) (max t.next t'.next))
  rw [if_pos (by omega), if_pos (by omega)] at total
  rwa [countWhere_eq t' p (n := max (k + 1) (max t.next t'.next)) (by omega),
    countWhere_eq t p (n := max (k + 1) (max t.next t'.next)) (by omega)]

/-- Two tables with the same keys in question have the same count. -/
theorem countWhere_congr {t t' : SerialTable ρ} {p : ρ → Bool}
    (same : ∀ i, (t'.row i).any p = (t.row i).any p) : t'.countWhere p = t.countWhere p := by
  rw [countWhere_eq t' p (Nat.le_max_left _ t.next), countWhere_eq t p (Nat.le_max_right t'.next _)]
  simp only [same]

/-- A count splits over an exclusive alternative. -/
theorem countWhere_or (t : SerialTable ρ) {p q : ρ → Bool}
    (exclusive : ∀ r, p r = true → q r = false) :
    (t.countWhere fun r => p r || q r) = t.countWhere p + t.countWhere q := by
  simp only [countWhere]
  induction t.entries with
  | nil => rfl
  | cons x rest ih =>
      simp only [List.countP_cons, ih]
      cases left : p x.2 with
      | true =>
          simp only [exclusive x.2 left, Bool.or_false, if_true, Bool.false_eq_true, if_false]
          omega
      | false =>
          simp only [Bool.false_or, Bool.false_eq_true, if_false]
          omega

variable {κ : Type} [DecidableEq κ]

/-- The groups of `GROUP BY key`. -/
def groups (t : SerialTable ρ) (key : ρ → κ) : List κ := (t.entries.map fun x => key x.2).dedup

/-- `SELECT key, COUNT(*) … GROUP BY key`. -/
def groupCount (t : SerialTable ρ) (key : ρ → κ) : List (κ × ℕ) :=
  (t.groups key).map fun k => (k, t.countWhere fun r => key r = k)

theorem mem_groups {t : SerialTable ρ} {key : ρ → κ} {k : κ} :
    k ∈ t.groups key ↔ 0 < t.countWhere fun r => key r = k := by
  simp only [groups, List.mem_dedup, List.mem_map, Prod.exists, mem_entries, countWhere_pos_iff,
    decide_eq_true_eq]

/-- A lookup among the groups, at 0 where there is none, is the count. -/
theorem lookup_groupCount (t : SerialTable ρ) (key : ρ → κ) (k : κ) :
    ((t.groupCount key).lookup k).getD 0 = t.countWhere fun r => key r = k := by
  have found (ks : List κ) (f : κ → ℕ) :
      (ks.map fun k => (k, f k)).lookup k = if k ∈ ks then some (f k) else none := by
    induction ks with
    | nil => rfl
    | cons k' ks ih =>
        by_cases same : k = k'
        · subst same
          simp
        · have differs : (k == k') = false := beq_false_of_ne same
          simp [List.lookup_cons, differs, ih, same]
  rw [groupCount, found]
  split
  · rfl
  · rename_i absent
    rw [mem_groups] at absent
    simp only [Option.getD_none]
    omega

end SerialTable
