/-
# TaskQueue.Lib.Ranking -- parties that end

Some of a system's events belong to one party, and a `Ranking` measures what that party has
still to do: its own steps lower the rank and the steps of others do not raise it.  Whatever
the others do, the party then takes a bounded number of steps (`tally_le`), and if it can
always go on until it is finished,

* `Ranking.finishes`: it can finish, from anywhere;
* `Ranking.eventually`: it does finish in every infinite run in which it keeps being scheduled.
-/
import TaskQueue.Lib.InfiniteRun

namespace Transition

set_option autoImplicit false

variable {S E : Type}

/-- What the party with the events `own` has still to do, in the states that meet `inv`. -/
structure Ranking (step : S → E → Option S) (own : E → Bool) where
  inv : S → Prop
  rank : S → Nat
  kept : ∀ {s e s'}, inv s → step s e = some s' → inv s'
  falls : ∀ {s e s'}, inv s → step s e = some s' →
    rank s' + (if own e then 1 else 0) ≤ rank s

namespace Ranking

variable {step : S → E → Option S} {own : E → Bool} (ranking : Ranking step own)

theorem kept_run {t : History S E} {s s' : S} (start : ranking.inv s) (run : Run step s t s') :
    ranking.inv s' := by
  induction run with
  | nil => exact start
  | snoc _ taken ih => exact ranking.kept ih taken

/-- The party's steps and what is left of its rank stay below the rank at the start. -/
theorem tally_add_rank_le {t : History S E} {s s' : S} (start : ranking.inv s)
    (run : Run step s t s') : tally (fun _ e => own e) t + ranking.rank s' ≤ ranking.rank s := by
  induction run with
  | nil => exact (Nat.zero_add _).le
  | snoc before taken ih =>
      have falls := ranking.falls (ranking.kept_run start before) taken
      rw [tally_cons]
      omega

theorem tally_le {t : History S E} {s s' : S} (start : ranking.inv s) (run : Run step s t s') :
    tally (fun _ e => own e) t ≤ ranking.rank s :=
  Nat.le_trans (Nat.le_add_right _ _) (ranking.tally_add_rank_le start run)

/-- A party that can always go on by a `good` step of its own until it is finished can finish
by such steps. -/
theorem finishes (Finished : S → Prop) (good : S → E → Prop)
    (mine : ∀ {s e}, good s e → own e = true)
    (goesOn : ∀ s, ranking.inv s → ¬ Finished s → ∃ e s', good s e ∧ step s e = some s')
    {s : S} (start : ranking.inv s) :
    ∃ t s', Run step s t s' ∧ (∀ x ∈ t, good x.1 x.2) ∧ Finished s' := by
  induction left : ranking.rank s using Nat.strong_induction_on generalizing s with
  | _ n ih =>
      by_cases finished : Finished s
      · exact ⟨[], s, .nil, (fun x member => by cases member), finished⟩
      · obtain ⟨e, s', now, taken⟩ := goesOn s start finished
        have falls := ranking.falls start taken
        rw [if_pos (mine now)] at falls
        obtain ⟨t, s'', run, all, ends⟩ := ih _ (by omega) (ranking.kept start taken) rfl
        refine ⟨t ++ [(s, e)], s'', (Run.single taken).append run, fun x member => ?_, ends⟩
        rcases List.mem_append.1 member with later | first
        · exact all x later
        · rw [List.mem_singleton.1 first]
          exact now

/-! ## Infinite runs -/

variable {s₀ : S} {states : Nat → S} {events : Nat → E}

theorem kept_always (start : ranking.inv s₀) (unfolds : Unfolds step s₀ states events) (n : Nat) :
    ranking.inv (states n) := ranking.kept_run start (unfolds.run n)

/-- Along an infinite run the rank never rises. -/
theorem antitone (start : ranking.inv s₀) (unfolds : Unfolds step s₀ states events) :
    Antitone fun n => ranking.rank (states n) := by
  apply antitone_nat_of_succ_le
  intro n
  have falls := ranking.falls (ranking.kept_always start unfolds n) (unfolds.steps n)
  omega

/-- A party that is scheduled again and again until it is finished does finish. -/
theorem eventually (Finished : S → Prop) (start : ranking.inv s₀)
    (unfolds : Unfolds step s₀ states events)
    (scheduled : ∀ n, ¬ Finished (states n) → ∃ m, n ≤ m ∧ own (events m) = true) :
    ∃ n, Finished (states n) := by
  by_contra never
  -- where the rank has settled the party takes one more step
  obtain ⟨M, -, settled⟩ := settles (f := fun n => ranking.rank (states n)) (N := 0) fun n _ =>
    ranking.antitone start unfolds (Nat.le_succ n)
  obtain ⟨m, later, mine⟩ := scheduled M fun finished => never ⟨M, finished⟩
  have falls := ranking.falls (ranking.kept_always start unfolds m) (unfolds.steps m)
  rw [if_pos mine] at falls
  have now := settled m later
  have next := settled (m + 1) (Nat.le_succ_of_le later)
  omega

end Ranking

end Transition
