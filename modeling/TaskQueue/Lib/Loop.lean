/-
# TaskQueue.Lib.Loop -- while loops and for loops

`whileFuel guard body` runs `while guard: body` for fewer than `fuel` rounds and is
`none` when the loop has not ended by then, so that a loop that never ends is `none`
for every fuel.  `search` is a for loop that counts its rounds and returns from one that
meets a test; `range` are the integers that it may run over.

* `whileFuel_mono`: more fuel never changes a result; `enough` finds fuel for several loops.
* `ends_iff`: some fuel suffices exactly when some iterate of the body fails the guard.
* `diverges`: a loop whose invariant implies its guard does not end.
* `whileFuel_map`: a loop whose state is a function of another's ends where that one does.
* `search_snd` and `search_fst`: whether a search returns, and after how many rounds.
-/
import Mathlib.Logic.Function.Iterate
import Mathlib.Order.Lattice

namespace Loop

set_option autoImplicit false

variable {σ : Type}

/-- `while guard(s): s = body(s)`, started from `s`. -/
def whileFuel (guard : σ → Bool) (body : σ → σ) : ℕ → σ → Option σ
  | 0, _ => none
  | fuel + 1, s => if guard s then whileFuel guard body fuel (body s) else some s

variable {guard : σ → Bool} {body : σ → σ}

theorem whileFuel_succ {fuel : ℕ} {s out : σ} (ends : whileFuel guard body fuel s = some out) :
    whileFuel guard body (fuel + 1) s = some out := by
  induction fuel generalizing s with
  | zero => cases ends
  | succ fuel ih =>
      rw [whileFuel] at ends ⊢
      split at ends
      · rename_i again
        rw [if_pos again]
        exact ih ends
      · rename_i done
        rw [if_neg done]
        exact ends

/-- More fuel never changes a result. -/
theorem whileFuel_mono {fuel more : ℕ} {s out : σ} (le : fuel ≤ more)
    (ends : whileFuel guard body fuel s = some out) : whileFuel guard body more s = some out := by
  induction le with
  | refl => exact ends
  | step _ ih => exact whileFuel_succ ih

/-- A property that every round keeps holds at the end, where the guard fails. -/
theorem whileFuel_invariant {P : σ → Prop}
    (preserved : ∀ s, guard s = true → P s → P (body s)) {fuel : ℕ} {s out : σ} (init : P s)
    (ends : whileFuel guard body fuel s = some out) : P out ∧ guard out = false := by
  induction fuel generalizing s with
  | zero => cases ends
  | succ fuel ih =>
      rw [whileFuel] at ends
      split at ends
      · rename_i again
        exact ih (preserved s again init) ends
      · rename_i done
        cases ends
        exact ⟨init, Bool.eq_false_iff.2 done⟩

/-- A loop that reaches a state outside its guard ends. -/
theorem ends_of_iterate {k : ℕ} {s : σ} (leaves : guard (body^[k] s) = false) :
    ∃ fuel out, whileFuel guard body fuel s = some out := by
  induction k generalizing s with
  | zero => exact ⟨1, s, if_neg (by simpa using leaves)⟩
  | succ k ih =>
      by_cases again : guard s = true
      · obtain ⟨fuel, out, ends⟩ := ih leaves
        exact ⟨fuel + 1, out, (if_pos again).trans ends⟩
      · exact ⟨1, s, if_neg again⟩

/-- **When a loop ends.** -/
theorem ends_iff {s : σ} :
    (∃ fuel out, whileFuel guard body fuel s = some out) ↔ ∃ k, guard (body^[k] s) = false := by
  constructor
  · rintro ⟨fuel, out, ends⟩
    -- what is left of the loop is an iterate of the body
    obtain ⟨⟨k, rfl⟩, leaves⟩ := whileFuel_invariant (P := fun out => ∃ k, body^[k] s = out)
      (fun x _ reached => by
        obtain ⟨k, rfl⟩ := reached
        exact ⟨k + 1, Function.iterate_succ_apply' body k s⟩) ⟨0, rfl⟩ ends
    exact ⟨k, leaves⟩
  · rintro ⟨k, leaves⟩
    exact ends_of_iterate leaves

/-- A loop whose invariant implies its guard never ends. -/
theorem diverges {P : σ → Prop} (goesOn : ∀ s, P s → guard s = true)
    (preserved : ∀ s, P s → P (body s)) {s : σ} (init : P s) (fuel : ℕ) :
    whileFuel guard body fuel s = none := by
  cases outcome : whileFuel guard body fuel s with
  | none => rfl
  | some out =>
      obtain ⟨holds, leaves⟩ := whileFuel_invariant (fun s _ => preserved s) init outcome
      cases leaves.symm.trans (goesOn out holds)

/-- **A loop seen through a function.**  Where the function takes guard to guard and body to
body, it takes the end of one loop to the end of the other. -/
theorem whileFuel_map {τ : Type} {guard' : τ → Bool} {body' : τ → τ} (f : σ → τ)
    (guards : ∀ s, guard' (f s) = guard s) (bodies : ∀ s, body' (f s) = f (body s)) (fuel : ℕ)
    (s : σ) : whileFuel guard' body' fuel (f s) = (whileFuel guard body fuel s).map f := by
  induction fuel generalizing s with
  | zero => rfl
  | succ fuel ih =>
      rw [whileFuel, whileFuel, guards, bodies]
      cases guard s with
      | true => exact ih (body s)
      | false => rfl

/-- Fuel that is enough for each of finitely many loops is enough for all. -/
theorem enough {α : Type} {ends : ℕ → α → Prop}
    (mono : ∀ {fuel more : ℕ} {x : α}, fuel ≤ more → ends fuel x → ends more x) {xs : List α}
    (each : ∀ x ∈ xs, ∃ fuel, ends fuel x) : ∃ fuel, ∀ x ∈ xs, ends fuel x := by
  induction xs with
  | nil => exact ⟨0, fun x member => by cases member⟩
  | cons x xs ih =>
      obtain ⟨here, first⟩ := each x List.mem_cons_self
      obtain ⟨later, rest⟩ := ih fun y member => each y (List.mem_cons_of_mem _ member)
      refine ⟨max here later, fun y member => ?_⟩
      rcases List.mem_cons.1 member with rfl | behind
      · exact mono (Nat.le_max_left _ _) first
      · exact mono (Nat.le_max_right _ _) (rest y behind)

/-! ## For loops -/

variable {α : Type}

/-- `for x in xs: count += 1; if stops(x): return`: the count at the end, and whether the
loop returned. -/
def search (stops : α → Bool) : List α → ℕ → ℕ × Bool
  | [], count => (count, false)
  | x :: xs, count => if stops x then (count + 1, true) else search stops xs (count + 1)

theorem search_snd (stops : α → Bool) (xs : List α) (count : ℕ) :
    (search stops xs count).2 = xs.any stops := by
  induction xs generalizing count with
  | nil => rfl
  | cons x xs ih =>
      rw [search, List.any_cons]
      cases stops x with
      | true => rfl
      | false => exact ih (count + 1)

/-- **The rounds of a search** in an increasing list: those up to `p`, if `p` is the least
that stops it, or is behind all that could be. -/
theorem search_fst [LinearOrder α] {stops : α → Bool} {xs : List α} {p : α}
    (sorted : xs.Pairwise (· < ·)) (least : ∀ x ∈ xs, stops x = true → p ≤ x)
    (reached : ∀ x ∈ xs, p ≤ x → p ∈ xs ∧ stops p = true) (count : ℕ) :
    (search stops xs count).1 = count + xs.countP fun x => x ≤ p := by
  induction xs generalizing count with
  | nil => rfl
  | cons x xs ih =>
      obtain ⟨below, sorted'⟩ := List.pairwise_cons.1 sorted
      -- `p` is not behind `x` in the list unless `x` is before it in the order
      have first (le : p ≤ x) : p = x := by
        rcases List.mem_cons.1 (reached x List.mem_cons_self le).1 with same | behind
        · exact same
        · exact absurd le (not_le.2 (below p behind))
      by_cases stop : stops x = true
      · obtain rfl := first (least x List.mem_cons_self stop)
        have none_ : xs.countP (fun x => x ≤ p) = 0 := by
          refine List.countP_eq_zero.2 fun y member => ?_
          simpa using below y member
        simp [search, stop, none_]
      · have before : x ≤ p := by
          by_contra after
          have le := le_of_not_ge after
          obtain rfl := first le
          exact stop (reached p List.mem_cons_self le).2
        have reached' : ∀ y ∈ xs, p ≤ y → p ∈ xs ∧ stops p = true := by
          intro y member le
          obtain ⟨here, stopped⟩ := reached y (List.mem_cons_of_mem _ member) le
          refine ⟨(List.mem_cons.1 here).resolve_left ?_, stopped⟩
          rintro rfl
          exact stop stopped
        rw [search, if_neg stop,
          ih sorted' (fun y member => least y (List.mem_cons_of_mem _ member)) reached',
          List.countP_cons_of_pos (by simpa using before)]
        omega

/-- A for loop whose every round ends does. -/
theorem foldlM_total {f : σ → α → Option σ} {xs : List α}
    (total : ∀ x ∈ xs, ∀ s, ∃ s', f s x = some s') (s : σ) : ∃ out, xs.foldlM f s = some out := by
  induction xs generalizing s with
  | nil => exact ⟨s, rfl⟩
  | cons x xs ih =>
      obtain ⟨s', round⟩ := total x List.mem_cons_self s
      obtain ⟨out, rest⟩ := ih (fun y member => total y (List.mem_cons_of_mem _ member)) s'
      refine ⟨out, ?_⟩
      rw [List.foldlM_cons, round]
      exact rest

/-- `range(start, stop, step)`. -/
def range (start stop step : ℕ) : List ℕ :=
  List.range' start ((stop - start + step - 1) / step) step

theorem mem_range {start stop step x : ℕ} (pos : 0 < step) :
    x ∈ range start stop step ↔ ∃ i, x = start + step * i ∧ x < stop := by
  rw [range, List.mem_range']
  refine exists_congr fun i => ?_
  rw [and_comm, Nat.lt_div_iff_mul_lt pos, Nat.mul_comm i]
  refine and_congr_right fun same => ?_
  omega

theorem pairwise_range {start stop step : ℕ} (pos : 0 < step) :
    (range start stop step).Pairwise (· < ·) :=
  List.pairwise_lt_range' step pos

end Loop
