/-
# TaskQueue.Lib.SessionLock -- counted, session-level exclusive locks

A lock table maps a key to the one session that holds it and to how often that
session took it: exclusion between sessions is built into the type, re-entrancy
within one is a count.  `tryLock` takes a free or own lock and refuses a foreign
one, `unlock` gives one count back, `closeWhere` drops every lock of the sessions
that close.

* `owner_tryLock`, `owner_unlock_ne` and `owner_lockAll` say who holds a key afterwards;
  `count_*` say how often.
* `count_pos_iff` ties the two: whoever has a positive count at a key is its owner.
-/
import Mathlib.Logic.Function.Basic
import Mathlib.Data.Nat.Basic

namespace SessionLock

set_option autoImplicit false

/-- Holder of every key, with the number of times it took the lock beyond the first. -/
structure Locks (σ κ : Type) where
  hold : κ → Option (σ × ℕ)

namespace Locks

variable {σ κ : Type}

def empty : Locks σ κ := ⟨fun _ => none⟩

def owner (l : Locks σ κ) (k : κ) : Option σ := (l.hold k).map Prod.fst

variable [DecidableEq σ]

/-- How often session `s` holds key `k`. -/
def count (l : Locks σ κ) (s : σ) (k : κ) : ℕ :=
  match l.hold k with
  | some (s', n) => if s' = s then n + 1 else 0
  | none => 0

/-- No other session holds `k`. -/
def Obtainable (l : Locks σ κ) (s : σ) (k : κ) : Prop := l.owner k = none ∨ l.owner k = some s

instance (l : Locks σ κ) (s : σ) (k : κ) : Decidable (l.Obtainable s k) :=
  inferInstanceAs (Decidable (_ ∨ _))

variable [DecidableEq κ]

/-- Take the lock without waiting: refused, and `false`, when another session holds it. -/
def tryLock (l : Locks σ κ) (s : σ) (k : κ) : Locks σ κ × Bool :=
  match l.hold k with
  | none => (⟨Function.update l.hold k (some (s, 0))⟩, true)
  | some (s', n) =>
      if s' = s then (⟨Function.update l.hold k (some (s, n + 1))⟩, true) else (l, false)

/-- Give one count back; nothing happens when the session does not hold the lock. -/
def unlock (l : Locks σ κ) (s : σ) (k : κ) : Locks σ κ :=
  match l.hold k with
  | none => l
  | some (s', n) =>
      if s' = s then ⟨Function.update l.hold k (if n = 0 then none else some (s, n - 1))⟩ else l

omit [DecidableEq κ] in
/-- Drop every lock of the sessions that close. -/
def closeWhere (l : Locks σ κ) (closes : σ → Bool) : Locks σ κ :=
  ⟨fun k => (l.hold k).filter fun h => !closes h.1⟩

/-- Try a list of keys, one after the other. -/
def lockAll (l : Locks σ κ) (s : σ) : List κ → Locks σ κ
  | [] => l
  | k :: ks => lockAll (l.tryLock s k).1 s ks

/-! ## Who holds a key -/

omit [DecidableEq κ] in
theorem count_pos_iff {l : Locks σ κ} {s : σ} {k : κ} : 0 < l.count s k ↔ l.owner k = some s := by
  unfold count owner
  cases l.hold k with
  | none => simp
  | some h =>
      by_cases same : h.1 = s <;> simp [same]

omit [DecidableEq κ] in
/-- A session whose counts stay keeps what it owns and gets nothing. -/
theorem owner_congr {l l' : Locks σ κ} {s : σ} (same : l'.count s = l.count s) {k : κ} :
    l'.owner k = some s ↔ l.owner k = some s := by
  rw [← count_pos_iff, ← count_pos_iff, same]

/-- The call succeeds exactly when no other session holds the key. -/
theorem tryLock_snd (l : Locks σ κ) (s : σ) (k : κ) :
    (l.tryLock s k).2 = decide (l.Obtainable s k) := by
  unfold tryLock
  rcases at_ : l.hold k with _ | ⟨t, n⟩
  · simp [Obtainable, owner, at_]
  · by_cases mine : t = s <;> simp [Obtainable, owner, at_, mine]

theorem owner_tryLock (l : Locks σ κ) (s : σ) (k j : κ) :
    (l.tryLock s k).1.owner j = if j = k ∧ l.Obtainable s k then some s else l.owner j := by
  unfold tryLock Obtainable
  cases at_ : l.hold k with
  | none => by_cases same : j = k <;> simp [owner, same, at_]
  | some h =>
      by_cases mine : h.1 = s <;> by_cases same : j = k <;> simp [owner, mine, same, at_]

theorem count_tryLock (l : Locks σ κ) (s s' : σ) (k j : κ) :
    (l.tryLock s k).1.count s' j =
      l.count s' j + if s' = s ∧ j = k ∧ l.Obtainable s k then 1 else 0 := by
  unfold tryLock
  by_cases same : j = k
  · subst same
    rcases at_ : l.hold j with _ | ⟨t, n⟩
    · by_cases me : s = s'
      · simp [count, Obtainable, owner, at_, me]
      · simp [count, at_, me, Ne.symm me]
    · by_cases mine : t = s
      · by_cases me : s = s'
        · simp [count, Obtainable, owner, at_, mine, me]
        · simp [count, at_, mine, me, Ne.symm me]
      · simp [Obtainable, owner, at_, mine]
  · rcases at_ : l.hold k with _ | ⟨t, n⟩
    · simp [count, same]
    · by_cases mine : t = s <;> simp [count, same, mine]

theorem owner_unlock_ne (l : Locks σ κ) (s : σ) {k j : κ} (ne : j ≠ k) :
    (l.unlock s k).owner j = l.owner j := by
  unfold unlock
  split
  · rfl
  · split
    · simp [owner, ne]
    · rfl

theorem count_unlock (l : Locks σ κ) (s s' : σ) (k j : κ) :
    (l.unlock s k).count s' j = l.count s' j - if s' = s ∧ j = k then 1 else 0 := by
  unfold unlock
  by_cases same : j = k
  · subst same
    rcases at_ : l.hold j with _ | ⟨t, n⟩
    · simp [count, at_]
    · by_cases mine : t = s
      · by_cases me : s = s'
        · cases n <;> simp [count, at_, mine, me]
        · cases n <;> simp [count, at_, mine, me, Ne.symm me]
      · by_cases me : t = s'
        · have : s' ≠ s := me ▸ mine
          simp [count, at_, mine, this]
        · simp [count, at_, mine, me]
  · rcases at_ : l.hold k with _ | ⟨t, n⟩
    · simp [count, same]
    · by_cases mine : t = s <;> simp [count, same, mine]

omit [DecidableEq κ] in
theorem count_closeWhere (l : Locks σ κ) (closes : σ → Bool) (s : σ) (j : κ) :
    (l.closeWhere closes).count s j = if closes s then 0 else l.count s j := by
  rcases at_ : l.hold j with _ | ⟨t, n⟩
  · simp [closeWhere, count, at_]
  · by_cases same : t = s
    · by_cases gone : closes s <;> simp [closeWhere, count, at_, same, gone, Option.filter]
    · by_cases gone : closes t <;> simp [closeWhere, count, at_, same, gone, Option.filter]

/-! ## Trying a list of keys -/

/-- What a session may take does not change while it takes locks itself. -/
theorem obtainable_tryLock (l : Locks σ κ) (s : σ) (k j : κ) :
    (l.tryLock s k).1.Obtainable s j ↔ l.Obtainable s j := by
  unfold Obtainable
  rw [owner_tryLock]
  split
  · rename_i h
    simpa [h.1, Obtainable] using h.2
  · rfl

theorem owner_lockAll (l : Locks σ κ) (s : σ) (ks : List κ) (j : κ) :
    (l.lockAll s ks).owner j = if j ∈ ks ∧ l.Obtainable s j then some s else l.owner j := by
  induction ks generalizing l with
  | nil => simp [lockAll]
  | cons k ks ih =>
      simp only [lockAll, ih, obtainable_tryLock, owner_tryLock]
      by_cases inRest : j ∈ ks <;> by_cases same : j = k <;> by_cases free : l.Obtainable s j <;>
        simp_all

theorem owner_lockAll_self {l : Locks σ κ} {s : σ} {j : κ} (ks : List κ)
    (held : l.owner j = some s) : (l.lockAll s ks).owner j = some s := by
  rw [owner_lockAll]
  split
  · rfl
  · exact held

theorem count_lockAll (l : Locks σ κ) (s s' : σ) (ks : List κ) (j : κ) :
    (l.lockAll s ks).count s' j =
      l.count s' j + if s' = s ∧ l.Obtainable s j then ks.count j else 0 := by
  induction ks generalizing l with
  | nil => simp [lockAll]
  | cons k ks ih =>
      simp only [lockAll, ih, obtainable_tryLock, count_tryLock, List.count_cons]
      by_cases me : s' = s
      · by_cases same : j = k
        · subst same
          by_cases free : l.Obtainable s j <;> simp [me, free, Nat.add_assoc, Nat.add_comm]
        · simp [me, same, Ne.symm same]
      · simp [me]

end Locks

end SessionLock
