/-
# TaskQueue.Backoff -- the spacing of retries

`_handle_failure` stores the end of the delay in `run_at`, and only the claim query reads it.
In between the reaper may reset the row, but no statement other than a retry touches
`run_at`, and a retry moves it forward: its worker claimed the row when it was due.

* `Spaced` is what a row says of its retries so far, `spaced_of_run` the invariant.
* `later_of_run` carries a lower bound of `run_at` to every later claim.
-/
import Mathlib.Tactic.Linarith
import Mathlib.Tactic.Ring
import Mathlib.Algebra.Field.Rat
import TaskQueue.Ownership

namespace TaskQueue

set_option autoImplicit false

open Transition

/-- The step is a retry write to the row of job `j`. -/
def retriesOf (cfg : Config) (j : JobId) (s : Sys) (e : Event) : Bool :=
  match committed cfg s e with
  | some (.retry _ _ id) => id = j && (s.db.jobs.row j).isSome
  | _ => false

/-- The `NOW()` of the claim of job `j` that the step commits. -/
def claimTime (cfg : Config) (j : JobId) (s : Sys) (e : Event) : Option Time :=
  match committed cfg s e with
  | some (.claim _ id startedAt) => if id = j then some startedAt else none
  | _ => none

/-- The `NOW()` of the first claim of job `j`. -/
def firstClaim (cfg : Config) (j : JobId) : History Sys Event → Option Time
  | [] => none
  | (s, e) :: t => (firstClaim cfg j t).or (claimTime cfg j s e)

/-- The `NOW()` of the claim that a worker is in. -/
def Pc.startedAt? : Pc → Option Time
  | .begun startedAt | .claiming _ startedAt => some startedAt
  | _ => none

/-- What the row of job `j` says of its retries, whose number is the attempts of a live row:
their delays are behind `run_at`, and whoever executes the job found it due. -/
structure Spaced (cfg : Config) (t : History Sys Event) (s : Sys) (j : JobId) (r : Job) : Prop where
  counted : r.Live → r.attempt = tally (retriesOf cfg j) t
  spaced : r.Live → 0 < tally (retriesOf cfg j) t →
    ∃ c, firstClaim cfg j t = some c ∧
      c + (2 ^ tally (retriesOf cfg j) t - 1) * cfg.baseDelay ≤ r.runAt
  due : ∀ w, Executes s w j → (∃ c, firstClaim cfg j t = some c) ∧ r.runAt ≤ s.now

section

variable {cfg : Config} {t₀ : Time} {db : Db} {t u : History Sys Event} {s s' : Sys} {e : Event}
  {w : WorkerId} {j : JobId} {r r' : Job}

theorem startedAt_move {act : WorkerAct} {m : Move} {τ : Time}
    (moved : s.runWorker cfg w act = some m) (begun : m.pc.startedAt? = some τ) :
    τ = s.now ∨ (s.pc w).startedAt? = some τ := by
  cases looks : (s.pc w).looking with
  | true =>
      have looking := runWorker_looks moved looks
      generalize s.pc w = pc at looking ⊢
      generalize m.pc = pc' at looking begun
      cases looking with
      | enters _ =>
          cases begun
          exact .inl rfl
      | selects _ => exact .inr begun
      | _ => cases begun
  | false =>
      -- no step of `_execute_job` ends inside a claim
      have advance := Sys.advance moved
      generalize s.pc w = pc at looks advance
      cases advance with
      | rests looking _ _ _ _ => cases looks.symm.trans looking
      | @carries _ pc' _ _ payload _ running' =>
          have outside : pc'.startedAt? = none := by
            cases pc' <;> first | rfl | cases running'
          cases outside.symm.trans begun
      | abandons leaves => cases leaves <;> cases begun
      | unlocks id raised raises => cases raised <;> cases begun
      | _ => cases begun

/-- A claim's `NOW()` is not in the future. -/
theorem startedAt_le_now (run : Runs cfg t₀ db t s) :
    ∀ w τ, (s.pc w).startedAt? = some τ → τ ≤ s.now := by
  refine run.invariant (P := fun _ s => ∀ w τ, (s.pc w).startedAt? = some τ → τ ≤ s.now) ?_ ?_
  · intro w τ begun
    cases begun
  intro t s e s' _ ih taken w τ begun
  refine le_trans ?_ (step_now taken)
  cases worker_step taken w with
  | moves _ moved pc _ =>
      rw [pc] at begun
      rcases startedAt_move moved begun with now | before
      · exact le_of_eq now
      · exact ih w τ before
  | stays _ _ pc _ =>
      rw [pc] at begun
      exact ih w τ begun
  | spawns _ pc _ =>
      rw [pc] at begun
      cases begun
  | dies _ pc _ =>
      rw [pc] at begun
      cases begun

theorem claimed_le_now (run : Runs cfg t₀ db t s) (taken : step cfg s e = some s') {τ : Time}
    (commits : committed cfg s e = some (.claim w j τ)) : τ ≤ s.now := by
  obtain ⟨⟨snapshot, at_⟩, -⟩ := claim_at taken commits
  exact startedAt_le_now run w τ (by rw [at_]; rfl)

/-! ## The first claim -/

theorem claimTime_eq_some {τ : Time} :
    claimTime cfg j s e = some τ ↔ ∃ w, committed cfg s e = some (.claim w j τ) := by
  unfold claimTime
  split
  · rename_i w id startedAt commits
    simp only [commits, Option.ite_none_right_eq_some, Option.some.injEq, Statement.claim.injEq]
    constructor
    · rintro ⟨rfl, rfl⟩
      exact ⟨w, rfl, rfl, rfl⟩
    · rintro ⟨w', -, rfl, rfl⟩
      exact ⟨rfl, rfl⟩
  · rename_i other
    refine iff_of_false (by simp) ?_
    rintro ⟨w, commits⟩
    exact other _ _ _ commits

theorem firstClaim_cons {c : Time} (x : Sys × Event) (first : firstClaim cfg j t = some c) :
    firstClaim cfg j (x :: t) = some c := by
  simp [firstClaim, first]

theorem firstClaim_le_now (run : Runs cfg t₀ db t s) :
    ∀ c, firstClaim cfg j t = some c → c ≤ s.now := by
  refine run.invariant (P := fun t s => ∀ c, firstClaim cfg j t = some c → c ≤ s.now) ?_ ?_
  · intro c first
    cases first
  intro t s e s' run ih taken c first
  refine le_trans ?_ (step_now taken)
  simp only [firstClaim, Option.or_eq_some_iff] at first
  rcases first with before | ⟨-, now⟩
  · exact ih c before
  · obtain ⟨w, commits⟩ := claimTime_eq_some.1 now
    exact claimed_le_now run taken commits

/-! ## One retry -/

/-- **What a retry writes.** -/
theorem retry_row (run : Runs cfg t₀ db t s) (taken : step cfg s e = some s')
    (hit : retriesOf cfg j s e = true) :
    ∃ w r error, Executes s w j ∧ s.db.jobs.row j = some r ∧ r.Live ∧
      s'.db.jobs.row j = some (r.setRetry s.now (2 ^ r.attempt * cfg.baseDelay) error) := by
  unfold retriesOf at hit
  split at hit
  · rename_i backoff error id commits
    simp only [Bool.and_eq_true, decide_eq_true_eq] at hit
    obtain ⟨rfl, there⟩ := hit
    obtain ⟨r, row⟩ := Option.isSome_iff_exists.1 there
    have sends := sends_of_committed taken commits rfl
    generalize same : Statement.retry backoff error id = st at sends
    cases sends with
    | @failed w job error' at_ =>
        have has : (s.stages w).job? = some job := (StatusWrite.failed at_).job
        unfold handleFailure at same
        split at same
        · cases same
        · cases same
          have holds := (tracked_of_run run w job has).2 r row
          refine ⟨w, r, error'.text, ⟨job, has, rfl⟩, row, holds.live, ?_⟩
          rw [step_db taken, row_commit _ row, commits, holds.attempt]
          simp [rowAfter, Statement.onRow]
    | _ => cases same
  · cases hit

/-! ## The invariant -/

/-- A step that is no retry keeps what a row says, when it keeps `run_at`, and the attempts of
a live row. -/
theorem spaced_of_quiet (run : Runs cfg t₀ db t s) (taken : step cfg s e = some s')
    (spaced : Spaced cfg t s j r) (row : s.db.jobs.row j = some r)
    (quiet : retriesOf cfg j s e = false) (live : r'.Live → r.Live)
    (attempt : r'.Live → r'.attempt = r.attempt) (runAt : r'.runAt = r.runAt) :
    Spaced cfg ((s, e) :: t) s' j r' := by
  have same : tally (retriesOf cfg j) ((s, e) :: t) = tally (retriesOf cfg j) t := by
    simp [tally_cons, quiet]
  refine ⟨fun still => ?_, fun still some_ => ?_, fun w executes => ?_⟩
  · rw [attempt still, same]
    exact spaced.counted (live still)
  · rw [same] at some_ ⊢
    obtain ⟨c, first, behind⟩ := spaced.spaced (live still) some_
    exact ⟨c, firstClaim_cons _ first, by rw [runAt]; exact behind⟩
  · rw [runAt]
    rcases executes_step run taken executes with before | ⟨τ, commits⟩
    · obtain ⟨⟨c, first⟩, due⟩ := spaced.due w before
      exact ⟨⟨c, firstClaim_cons _ first⟩, le_trans due (step_now taken)⟩
    · obtain ⟨-, r₀, row₀, -, due⟩ := claim_at taken commits
      cases row.symm.trans row₀
      have claimed := claimed_le_now run taken commits
      refine ⟨?_, le_trans due (le_trans claimed (step_now taken))⟩
      have now := claimTime_eq_some.2 ⟨w, commits⟩
      cases first : firstClaim cfg j t with
      | none => exact ⟨τ, by simp [firstClaim, first, now]⟩
      | some c => exact ⟨c, firstClaim_cons _ first⟩

/-- A retry adds its own delay to those behind the row. -/
theorem spaced_of_retry (run : Runs cfg t₀ db t s) (taken : step cfg s e = some s')
    (spaced : Spaced cfg t s j r) (row : s.db.jobs.row j = some r)
    (hit : retriesOf cfg j s e = true) (row' : s'.db.jobs.row j = some r') :
    Spaced cfg ((s, e) :: t) s' j r' := by
  obtain ⟨w, r₀, error, executes, row₀, live, after⟩ := retry_row run taken hit
  cases row.symm.trans row₀
  cases row'.symm.trans after
  have count : tally (retriesOf cfg j) ((s, e) :: t) = tally (retriesOf cfg j) t + 1 := by
    simp [tally_cons, hit]
  have attempt := spaced.counted live
  obtain ⟨⟨c, first⟩, due⟩ := spaced.due w executes
  refine ⟨fun _ => ?_, fun _ _ => ⟨c, firstClaim_cons _ first, ?_⟩, fun w' executes' => ?_⟩
  · rw [count, ← attempt]
    rfl
  · -- the delays so far are behind the row's `run_at`, and that was past
    have soFar : c + (2 ^ tally (retriesOf cfg j) t - 1) * cfg.baseDelay ≤ s.now := by
      rcases Nat.eq_zero_or_pos (tally (retriesOf cfg j) t) with none_ | some_
      · rw [none_]
        simpa using firstClaim_le_now run c first
      · obtain ⟨c', first', behind⟩ := spaced.spaced live some_
        cases first.symm.trans first'
        exact le_trans behind due
    rw [count]
    simp only [Job.setRetry, attempt]
    calc c + (2 ^ (tally (retriesOf cfg j) t + 1) - 1) * cfg.baseDelay
        = c + (2 ^ tally (retriesOf cfg j) t - 1) * cfg.baseDelay +
            2 ^ tally (retriesOf cfg j) t * cfg.baseDelay := by ring
      _ ≤ s.now + 2 ^ tally (retriesOf cfg j) t * cfg.baseDelay := by linarith
  · have writes : decided cfg s e j = some .failure := by
      unfold retriesOf at hit
      split at hit
      · rename_i commits
        simp only [Bool.and_eq_true, decide_eq_true_eq] at hit
        obtain ⟨rfl, -⟩ := hit
        exact decided_some commits rfl
      · cases hit
    exact absurd executes' (not_executes_of_decided run taken writes w')

theorem spaced_step (run : Runs cfg t₀ db t s) (taken : step cfg s e = some s')
    (spaced : Spaced cfg t s j r) (row : s.db.jobs.row j = some r)
    (row' : s'.db.jobs.row j = some r') : Spaced cfg ((s, e) :: t) s' j r' := by
  by_cases hit : retriesOf cfg j s e = true
  · exact spaced_of_retry run taken spaced row hit row'
  have quiet : retriesOf cfg j s e = false := by simpa using hit
  have keeps (live : r'.Live → r.Live) (attempt : r'.Live → r'.attempt = r.attempt)
      (runAt : r'.runAt = r.runAt) : Spaced cfg ((s, e) :: t) s' j r' :=
    spaced_of_quiet run taken spaced row quiet live attempt runAt
  have change := row_step run taken row
  rw [row'] at change
  cases change with
  | keeps _ _ => exact keeps id (fun _ => rfl) rfl
  | claims _ pending => exact keeps (fun _ => .inl pending) (fun _ => rfl) rfl
  | marks _ _ _ holds => exact keeps (fun _ => holds.live) (fun _ => rfl) rfl
  | succeeds _ _ _ holds =>
      exact keeps (fun _ => holds.live)
        (fun live => absurd live (Job.not_live_of_final (.inl rfl))) rfl
  | dies _ _ _ holds _ =>
      exact keeps (fun _ => holds.live)
        (fun live => absurd live (Job.not_live_of_final (.inr rfl))) rfl
  | retries commits _ _ _ _ => simp [retriesOf, commits, row] at quiet
  | beats _ _ running => exact keeps (fun _ => .inr (.inr running)) (fun _ => rfl) rfl
  | reclaims _ stale =>
      exact keeps (fun _ => .inr (Job.isStale_iff.1 stale).1) (fun _ => rfl) rfl

/-- **Every row's retries are spaced.** -/
theorem spaced_of_run (run : Runs cfg t₀ .empty t s) :
    (∀ j r, s.db.jobs.row j = some r → Spaced cfg t s j r) ∧
      ∀ j, s.db.jobs.next ≤ j → tally (retriesOf cfg j) t = 0 := by
  refine run.invariant (P := fun t s =>
    (∀ j r, s.db.jobs.row j = some r → Spaced cfg t s j r) ∧
      ∀ j, s.db.jobs.next ≤ j → tally (retriesOf cfg j) t = 0) ?_ ?_
  · refine ⟨fun j r row => ?_, fun _ _ => rfl⟩
    cases row
  rintro t s e s' run ⟨spaced, blank⟩ taken
  have absent {j : JobId} (gone : s.db.jobs.row j = none) : retriesOf cfg j s e = false := by
    unfold retriesOf
    split
    · simp [gone]
    · rfl
  refine ⟨fun j r' row' => ?_, fun j beyond => ?_⟩
  · cases row : s.db.jobs.row j with
    | some r => exact spaced_step run taken (spaced j r row) row row'
    | none =>
        have before := row'
        rw [step_db taken] at before
        obtain ⟨body, commits, rfl, rfl⟩ := row_new row before
        have none_ : tally (retriesOf cfg s.db.jobs.next) ((s, e) :: t) = 0 := by
          simp [tally_cons, absent row, blank _ (Nat.le_refl _)]
        refine ⟨fun _ => none_.symm, fun _ some_ => ?_, fun w executes => ?_⟩
        · omega
        · exfalso
          rcases executes_step run taken executes with ⟨job, at_, same⟩ | claims
          · have old := (tracked_of_run run w job at_).1
            rw [same] at old
            exact Nat.lt_irrefl _ old
          · obtain ⟨τ, commits'⟩ := claims
            cases commits.symm.trans commits'
  · rw [step_db taken] at beyond
    have old := Nat.le_trans (next_commit _ _ _) beyond
    simp [tally_cons, absent (s.db.jobs.fresh j old), blank j old]

/-! ## A lower bound for every later claim -/

/-- The row of job `j`, if it is there, is not due before `x`, and the key is not free. -/
structure Later (x : Time) (j : JobId) (s : Sys) : Prop where
  old : j < s.db.jobs.next
  due : ∀ r, s.db.jobs.row j = some r → x ≤ r.runAt

/-- A retry moves `run_at` forward, and nothing else moves it. -/
theorem later_step (nonneg : 0 ≤ cfg.baseDelay) (run : Runs cfg t₀ .empty t s)
    (taken : step cfg s e = some s') {x : Time} (later : Later x j s) : Later x j s' := by
  refine ⟨?_, fun r' row' => ?_⟩
  · rw [step_db taken]
    exact Nat.lt_of_lt_of_le later.old (next_commit _ _ _)
  obtain ⟨r, row, -⟩ := row_before _ later.old (by rw [← step_db taken]; exact row')
  have before := later.due r row
  by_cases hit : retriesOf cfg j s e = true
  · obtain ⟨w, r₀, error, executes, row₀, -, after⟩ := retry_row run taken hit
    cases row.symm.trans row₀
    cases row'.symm.trans after
    have due := ((spaced_of_run run).1 j r row).due w executes
    have delay : 0 ≤ 2 ^ r.attempt * cfg.baseDelay := mul_nonneg (by positivity) nonneg
    simp only [Job.setRetry]
    linarith [due.2]
  · have change := row_step run taken row
    rw [row'] at change
    cases change with
    | retries commits _ _ _ _ => simp [retriesOf, commits, row] at hit
    | _ => exact before

theorem later_of_run (nonneg : 0 ≤ cfg.baseDelay) (run : Runs cfg t₀ .empty t s)
    (rest : Run (step cfg) s u s') {x : Time} (later : Later x j s) : Later x j s' := by
  induction rest with
  | nil => exact later
  | snoc before taken ih => exact later_step nonneg (run.append before) taken ih

/-- No later claim comes before the bound. -/
theorem claims_later (nonneg : 0 ≤ cfg.baseDelay) (run : Runs cfg t₀ .empty t s)
    (rest : Run (step cfg) s u s') {x : Time} (later : Later x j s) :
    ∀ a e' w τ, (a, e') ∈ u → committed cfg a e' = some (.claim w j τ) → x ≤ τ := by
  induction rest with
  | nil =>
      intro a e' w τ member
      cases member
  | snoc before taken ih =>
      intro a e' w τ member commits
      rcases List.mem_cons.1 member with now | earlier
      · cases now
        obtain ⟨-, r, row, -, due⟩ := claim_at taken commits
        exact le_trans ((later_of_run nonneg run before later).due r row) due
      · exact ih a e' w τ earlier commits

end

/-- **Exponential spacing of retries.**  With a delay that is not negative, in every run from
empty tables: once the (k+1)-th retry write of a job has been applied at some instant, no
claim of the job has its `NOW()` before that instant plus 2^k delays; and a claim after k
retry writes, one at least, has its `NOW()` no earlier than that of the first claim plus
2^k - 1 delays.  The instant at which a claim commits is so late also without a retry. -/
theorem retry_spacing (cfg : Config) (t₀ : Time) (nonneg : 0 ≤ cfg.baseDelay)
    {t : History Sys Event} {s : Sys} (run : Runs cfg t₀ .empty t s) (j : JobId) :
    (∀ e s' u s'', retriesOf cfg j s e = true → step cfg s e = some s' →
        Run (step cfg) s' u s'' → ∀ a e' w τ, (a, e') ∈ u →
          committed cfg a e' = some (.claim w j τ) →
            s.now + 2 ^ tally (retriesOf cfg j) t * cfg.baseDelay ≤ τ) ∧
      ∀ e s' w τ, step cfg s e = some s' → committed cfg s e = some (.claim w j τ) →
        (0 < tally (retriesOf cfg j) t →
            ∃ c, firstClaim cfg j t = some c ∧
              c + (2 ^ tally (retriesOf cfg j) t - 1) * cfg.baseDelay ≤ τ) ∧
          ∀ c, firstClaim cfg j t = some c →
            c + (2 ^ tally (retriesOf cfg j) t - 1) * cfg.baseDelay ≤ s.now := by
  constructor
  · intro e s' u s'' hit taken rest
    obtain ⟨w, r, error, -, row, live, row'⟩ := retry_row run taken hit
    have attempt := ((spaced_of_run run).1 j r row).counted live
    refine claims_later nonneg (run.snoc taken) rest ⟨SerialTable.lt_next row', fun r' at_ => ?_⟩
    cases row'.symm.trans at_
    rw [← attempt]
    exact le_refl _
  · intro e s' w τ taken commits
    obtain ⟨-, r, row, pending, due⟩ := claim_at taken commits
    have spaced := (spaced_of_run run).1 j r row
    have claimed := claimed_le_now run taken commits
    refine ⟨fun some_ => ?_, fun c first => ?_⟩
    · obtain ⟨c, first, behind⟩ := spaced.spaced (.inl pending) some_
      exact ⟨c, first, le_trans behind due⟩
    · rcases Nat.eq_zero_or_pos (tally (retriesOf cfg j) t) with none_ | some_
      · rw [none_]
        simpa using firstClaim_le_now run c first
      · obtain ⟨c', first', behind⟩ := spaced.spaced (.inl pending) some_
        cases first.symm.trans first'
        exact le_trans behind (le_trans due claimed)

/-- A job of an unknown type, with a delay of 5 seconds: the third claim, after two failures,
comes 15 seconds after the first. -/
theorem retry_spacing_third :
    ∃ t s e s' w τ, Runs demo 0 .empty t s ∧ tally (retriesOf demo 1) t = 2 ∧
      step demo s e = some s' ∧ committed demo s e = some (.claim w 1 τ) ∧
      ∃ c, firstClaim demo 1 t = some c ∧ c + 15 ≤ τ := by
  obtain ⟨t, s, run, after⟩ := demo_run
    ([.createJob { demoJob with type := "resize" }, .start 0, .worker ⟨0, 0⟩ (.connect true)] ++
      demoClaim ⟨0, 0⟩ [1] (some 1) ++ demoFail ⟨0, 0⟩ ++ [.tick 5] ++
      demoClaim ⟨0, 0⟩ [1] (some 1) ++ demoFail ⟨0, 0⟩ ++
      [.tick 10, .worker ⟨0, 0⟩ .enterLoop, .worker ⟨0, 0⟩ .select])
    (fun out => tally (retriesOf demo 1) out.1 = 2 ∧
      (step demo out.2 (.worker ⟨0, 0⟩ (.claim (demoPlan [1] (some 1))))).isSome ∧
      claimTime demo 1 out.2 (.worker ⟨0, 0⟩ (.claim (demoPlan [1] (some 1)))) = some 15)
    (by decide +kernel)
  simp only [decide_eq_true_eq] at after
  obtain ⟨two, enabled, claimed⟩ := after
  obtain ⟨s', taken⟩ := Option.isSome_iff_exists.1 enabled
  obtain ⟨w, commits⟩ := claimTime_eq_some.1 claimed
  have spacing := ((retry_spacing demo 0 (by decide) run 1).2 _ s' w 15 taken commits).1
  rw [two] at spacing
  obtain ⟨c, first, behind⟩ := spacing (by decide)
  refine ⟨t, s, _, s', w, 15, run, two, taken, commits, c, first, ?_⟩
  norm_num [demo] at behind
  linarith

end TaskQueue
