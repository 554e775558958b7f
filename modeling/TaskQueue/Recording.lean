/-
# TaskQueue.Recording -- a recorded success and the failure handler behind it

One `except` serves the handler, the encoding of its result and the `'done'` UPDATE that
stores it.  When that UPDATE takes effect and raises, the exception goes to
`_handle_failure`, whose writes look at no status: the done row becomes a retry or a dead
one.  Nobody else can touch it meanwhile, for the worker still holds the lock.

* `Ending` is what the rest of `_execute_job` can find and leave, `ending_run` the
  induction over it.
-/
import TaskQueue.DeadLetters
import TaskQueue.Faults

namespace TaskQueue

set_option autoImplicit false

open Transition

/-- The `'done'` UPDATE of `w` takes effect, and is acknowledged or raises. -/
def recording (w : WorkerId) : Option PyError → FaultyEvent
  | none => .event (.worker w (.storeDone none))
  | some error => .lost w (.storeDone (some error))

/-- The unlock of `w`, with which `_execute_job` ends. -/
def FaultyEvent.unlocks (w : WorkerId) : FaultyEvent → Bool
  | .event (.worker w' (.unlock _)) => w' = w
  | _ => false

/-- The transaction of `_handle_failure` of `w` takes effect. -/
def FaultyEvent.overwrites (w : WorkerId) : FaultyEvent → Bool
  | .event (.worker w' (.handleFailure false)) => w' = w
  | .lost w' (.handleFailure true) => w' = w
  | _ => false

/-- The row of `j` is `recorded`, its dead letters are `letters`, and nobody can claim it. -/
structure StaysRecorded (j : JobId) (recorded : Job) (letters : List DeadLetter) (s : Sys) :
    Prop where
  row : s.db.jobs.row j = some recorded
  letters : lettersOf s.db j = letters
  ineligible : ∀ now, eligible now s.db.jobs j = false

/-- The rest of `_execute_job` after its `'done'` UPDATE: `ack` is how that call ended, `u`
what has happened since. -/
inductive Ending (w : WorkerId) (j : JobId) (ack : Option PyError) (recorded : Job)
    (letters : List DeadLetter) (u : History Sys FaultyEvent) (s : Sys) : Prop
  | failing {job : Record} {error : PyError} (at_ : s.pc w = .failing job error)
      (same : job.id = j) (unanswered : ack ≠ none) (quiet : ∀ y ∈ u, y.2.overwrites w = false)
      (row : s.db.jobs.row j = some recorded) (letters : lettersOf s.db j = letters)
  | kept {raised : Bool} (at_ : s.pc w = .unlocking j raised)
      (quiet : ∀ y ∈ u, y.2.overwrites w = false)
      (row : s.db.jobs.row j = some recorded) (letters : lettersOf s.db j = letters)
  | lost {raised : Bool} (at_ : s.pc w = .unlocking j raised) (unanswered : ack ≠ none)
      (hit : ∃ y ∈ u, y.2.overwrites w = true)
      (undone : ∀ r, s.db.jobs.row j = some r → r.status ≠ .done)
  | crashed (crashed : Crashed s w.proc)

section

variable {cfg : Config} {t₀ : Time} {db : Db} {t u : History Sys FaultyEvent} {s s' : Sys}
  {x : FaultyEvent} {e : Event} {w : WorkerId} {j : JobId} {ack : Option PyError}
  {recorded : Job} {letters : List DeadLetter}

/-- Somebody else's step leaves a worker where it is, or is the crash of its process. -/
theorem pc_of_other (coherent : Coherent s) (born : s.pc w ≠ .absent)
    (taken : step cfg s e = some s') (other : ∀ act, e ≠ .worker w act) :
    s'.pc w = s.pc w ∨ Crashed s' w.proc := by
  cases worker_step taken w with
  | moves now _ _ _ => exact absurd now (other _)
  | stays _ _ pc _ => exact .inl pc
  | spawns absent _ _ => exact absurd (coherent.unborn w absent) born
  | dies now _ _ =>
      subst now
      exact .inr (crashed_of_crash taken)

theorem not_overwrites_of_other (other : ∀ act, x.plain ≠ .worker w act) :
    x.overwrites w = false := by
  unfold FaultyEvent.overwrites
  split
  · rename_i w'
    refine decide_eq_false fun same => ?_
    subst same
    exact other _ rfl
  · rename_i w'
    refine decide_eq_false fun same => ?_
    subst same
    exact other _ rfl
  · rfl

theorem letters_frame (taken : faultyStep cfg s x = some s')
    (untargeted : ∀ st, faultyCommitted cfg s x = some st → st.target ≠ some j) :
    lettersOf s'.db j = lettersOf s.db j := by
  rw [faulty_db taken]
  refine lettersOf_commit fun type payload error attempts w commits => ?_
  exact untargeted _ commits rfl

/-- Somebody else's step. -/
theorem ending_of_other (coherent : Coherent s) (done : recorded.status = .done)
    (ending : Ending w j ack recorded letters u s) (taken : faultyStep cfg s x = some s')
    (other : ∀ act, x.plain ≠ .worker w act) :
    Ending w j ack recorded letters ((s, x) :: u) s' := by
  obtain ⟨s₀, plain, same⟩ := plain_of_faulty taken
  have silent := not_overwrites_of_other other
  have quiet' (quiet : ∀ y ∈ u, y.2.overwrites w = false) :
      ∀ y ∈ (s, x) :: u, y.2.overwrites w = false :=
    List.forall_mem_cons.2 ⟨silent, quiet⟩
  -- the worker stays where it is, and its lock keeps the others off the row
  have moves {pc : Pc} (at_ : s.pc w = pc) (held : pc.held? = some j) :
      (s'.pc w = pc ∧ ∀ st, faultyCommitted cfg s x = some st → st.target ≠ some j) ∨
        Crashed s' w.proc := by
    have born : s.pc w ≠ .absent := by
      rintro absent
      rw [← at_, absent] at held
      cases held
    rw [same]
    rcases pc_of_other coherent born plain other with stays | crashed
    · exact .inl ⟨stays.trans at_, untargeted_of_other coherent (at_ ▸ held) taken other⟩
    · exact .inr ⟨crashed.phase, crashed.workers, crashed.heartbeats⟩
  cases ending with
  | failing at_ same unanswered quiet row kept =>
      rcases moves at_ (congrArg some same) with ⟨stays, away⟩ | crashed
      · exact .failing stays same unanswered (quiet' quiet) (done_frame taken row done away)
          ((letters_frame taken away).trans kept)
      · exact .crashed crashed
  | kept at_ quiet row kept =>
      rcases moves at_ rfl with ⟨stays, away⟩ | crashed
      · exact .kept stays (quiet' quiet) (done_frame taken row done away)
          ((letters_frame taken away).trans kept)
      · exact .crashed crashed
  | lost at_ unanswered hit undone =>
      rcases moves at_ rfl with ⟨stays, away⟩ | crashed
      · obtain ⟨y, member, overwrites⟩ := hit
        exact .lost stays unanswered ⟨y, List.mem_cons_of_mem _ member, overwrites⟩
          (undone_frame taken undone away)
      · exact .crashed crashed
  | crashed crashed =>
      have after := crashed_step crashed plain
      rw [same]
      exact .crashed ⟨after.phase, after.workers, after.heartbeats⟩

/-- The transaction of `_handle_failure` leaves no done row. -/
theorem undone_of_handleFailure {job : Record} {error : PyError}
    (commits : faultyCommitted cfg s x = some (handleFailure cfg job error w))
    (taken : faultyStep cfg s x = some s') {r : Job} (row : s.db.jobs.row job.id = some r) :
    ∀ r', s'.db.jobs.row job.id = some r' → r'.status ≠ .done := by
  intro r' row'
  rw [faulty_db taken, row_commit _ row, commits, rowAfter_handleFailure, if_pos rfl] at row'
  cases row'
  split
  · simp [Job.setDead]
  · simp [Job.setRetry]

/-- From its unlock a worker goes on only by it. -/
theorem unlocks_of_own {raised : Bool} {act : WorkerAct} (at_ : s.pc w = .unlocking j raised)
    (taken : faultyStep cfg s x = some s') (own : x.plain = .worker w act) :
    x.unlocks w = true := by
  cases x with
  | event e =>
      cases own
      cases step_taken taken with
      | worker moved =>
          cases act with
          | unlock raises => simp [FaultyEvent.unlocks]
          | _ => simp [Sys.runWorker, runWorker, executeJob, at_] at moved
  | lost w' act' =>
      cases own
      obtain ⟨st, c, sent, -, -⟩ := lost_step taken
      obtain ⟨job, has, -⟩ := target_raisingStatement sent
      rw [at_] at has
      cases has

/-- From `_handle_failure` a worker goes on to its unlock, its transaction applied or not. -/
theorem handled_of_own {job : Record} {error : PyError} {act : WorkerAct}
    (at_ : s.pc w = .failing job error) (taken : faultyStep cfg s x = some s')
    (own : x.plain = .worker w act) :
    (∃ raised, s'.pc w = .unlocking job.id raised) ∧
      ((x.overwrites w = true ∧ faultyCommitted cfg s x = some (handleFailure cfg job error w)) ∨
        (x.overwrites w = false ∧ faultyCommitted cfg s x = none)) := by
  cases x with
  | event e =>
      cases own
      cases step_taken taken with
      | worker moved =>
          have commits := committed_of_moved moved
          cases act with
          | handleFailure raises =>
              simp only [Sys.runWorker, runWorker, executeJob, at_] at moved
              cases raises with
              | false =>
                  cases moved
                  refine ⟨⟨false, by simp [Sys.moveWorker]⟩, .inl ⟨?_, commits⟩⟩
                  simp [FaultyEvent.overwrites]
              | true =>
                  cases moved
                  exact ⟨⟨true, by simp [Sys.moveWorker]⟩, .inr ⟨rfl, commits⟩⟩
          | _ => simp [Sys.runWorker, runWorker, executeJob, at_] at moved
  | lost w' act' =>
      cases own
      obtain ⟨st, c, sent, enabled, rfl⟩ := lost_step taken
      have commits := sent
      rw [at_] at sent
      unfold raisingStatement at sent
      split at sent
      · rename_i here; cases here
      · rename_i here; cases here
      · rename_i job' error' here
        cases here
        cases sent
        simp only [control, Sys.runWorker, runWorker, executeJob, at_, Option.map_some,
          Option.some.injEq] at enabled
        subst enabled
        refine ⟨⟨true, by simp [Sys.moveWorker]⟩, .inl ⟨?_, commits⟩⟩
        simp [FaultyEvent.overwrites]
      · cases sent

/-- The worker's own step: `_handle_failure`, and not yet the unlock. -/
theorem ending_of_own (ending : Ending w j ack recorded letters u s) {act : WorkerAct}
    (taken : faultyStep cfg s x = some s') (own : x.plain = .worker w act)
    (inside : x.unlocks w = false) : Ending w j ack recorded letters ((s, x) :: u) s' := by
  cases ending with
  | failing at_ same unanswered quiet row kept =>
      subst same
      obtain ⟨⟨raised', at'⟩, handled⟩ := handled_of_own at_ taken own
      rcases handled with ⟨hit, commits⟩ | ⟨silent, nothing⟩
      · refine .lost at' unanswered ⟨_, List.mem_cons_self, hit⟩ ?_
        exact undone_of_handleFailure commits taken row
      · have same := faulty_db taken
        rw [nothing] at same
        refine .kept at' (List.forall_mem_cons.2 ⟨silent, quiet⟩) ?_ ?_
        · rw [same]
          exact row
        · rw [same]
          exact kept
  | kept at_ quiet row kept => cases inside.symm.trans (unlocks_of_own at_ taken own)
  | lost at_ unanswered hit undone => cases inside.symm.trans (unlocks_of_own at_ taken own)
  | crashed crashed =>
      obtain ⟨s₀, plain, -⟩ := plain_of_faulty taken
      rw [own] at plain
      cases step_taken plain with
      | worker moved =>
          simp [Sys.runWorker, runWorker, executeJob, crashed.workers w rfl] at moved

/-- **The rest of `_execute_job`**, up to its unlock. -/
theorem ending_run {s₁ s₂ : Sys} (run : FaultyRuns cfg t₀ db t s₁)
    (done : recorded.status = .done) (begins : Ending w j ack recorded letters [] s₁)
    (rest : Run (faultyStep cfg) s₁ u s₂) (inside : ∀ y ∈ u, y.2.unlocks w = false) :
    Ending w j ack recorded letters u s₂ := by
  induction rest with
  | nil => exact begins
  | @snoc u a a' x before taken ih =>
      obtain ⟨now, earlier⟩ := List.forall_mem_cons.1 inside
      have ending := ih earlier
      have coherent := coherent_of_run (run.append before)
      by_cases own : ∃ act, x.plain = .worker w act
      · obtain ⟨act, own⟩ := own
        exact ending_of_own ending taken own now
      · exact ending_of_other coherent done ending taken fun act same => own ⟨act, same⟩

/-- Where the worker is after its `'done'` UPDATE took effect. -/
theorem ending_begins {job : Record} {value : Option Json} {r : Job}
    (at_ : s.pc w = .storing job (.storable value)) (row : s.db.jobs.row job.id = some r)
    (applied : faultyStep cfg s (recording w ack) = some s') :
    Ending w job.id ack (r.setDone s.now value w) (lettersOf s.db job.id) [] s' := by
  have commits : faultyCommitted cfg s (recording w ack) = some (.storeDone value w job.id) := by
    cases ack <;>
      simp [recording, faultyCommitted, committed, raisingStatement, Sys.runWorker, runWorker,
        executeJob, at_]
  have row' : s'.db.jobs.row job.id = some (r.setDone s.now value w) := by
    rw [faulty_db applied, row_commit _ row, commits]
    simp [rowAfter, Statement.onRow]
  have letters' : lettersOf s'.db job.id = lettersOf s.db job.id := by
    rw [faulty_db applied, commits]
    rfl
  obtain ⟨s₀, plain, same⟩ := plain_of_faulty applied
  cases ack with
  | none =>
      have moved : s.runWorker cfg w (.storeDone none) =
          some
            { pc := .unlocking job.id false
              statement := some (.storeDone value w job.id)
              locks := s.locks } := by
        simp [Sys.runWorker, runWorker, executeJob, at_]
      have at' : s'.pc w = .unlocking job.id false := by
        rw [same]
        cases (step_of_moved moved).symm.trans plain
        simp [Sys.moveWorker]
      exact .kept at' (by simp) row' letters'
  | some error =>
      have moved : s.runWorker cfg w (.storeDone (some error)) =
          some { pc := .failing job error, locks := s.locks } := by
        simp [Sys.runWorker, runWorker, executeJob, at_]
      have at' : s'.pc w = .failing job error := by
        rw [same]
        cases (step_of_moved moved).symm.trans plain
        simp [Sys.moveWorker]
      exact .failing at' rfl (by simp) (by simp) row' letters'

/-- The unlock touches no table. -/
theorem db_of_unlock {raised raises : Bool} (at_ : s.pc w = .unlocking j raised)
    (taken : faultyStep cfg s (.event (.worker w (.unlock raises))) = some s') :
    s'.db = s.db := by
  have nothing : faultyCommitted cfg s (.event (.worker w (.unlock raises))) = none := by
    simp [faultyCommitted, committed, Sys.runWorker, runWorker, executeJob, at_]
  rw [faulty_db taken, nothing]
  rfl

end

/-- **When a recorded success stays recorded.**  In every run of the faulty system, if the
`'done'` UPDATE of a worker took effect on the row of its job, then at the end of its
`_execute_job` the row is as that UPDATE left it, without a new dead letter and not
eligible for a claim, exactly when the UPDATE was acknowledged or the transaction of
`_handle_failure` took no effect. -/
theorem success_recorded_iff (cfg : Config) (t₀ : Time) (db : Db)
    {t u : History Sys FaultyEvent} {s s₁ s₂ s₃ : Sys} (run : FaultyRuns cfg t₀ db t s)
    {w : WorkerId} {job : Record} {value : Option Json} {r : Job}
    (at_ : s.pc w = .storing job (.storable value)) (row : s.db.jobs.row job.id = some r)
    (ack : Option PyError) (applied : faultyStep cfg s (recording w ack) = some s₁)
    (rest : Run (faultyStep cfg) s₁ u s₂) (inside : ∀ y ∈ u, y.2.unlocks w = false)
    {raises : Bool} (ends : faultyStep cfg s₂ (.event (.worker w (.unlock raises))) = some s₃) :
    StaysRecorded job.id (r.setDone s.now value w) (lettersOf s.db job.id) s₃ ↔
      ack = none ∨ ∀ y ∈ u, y.2.overwrites w = false := by
  have ending := ending_run (run.snoc applied) rfl (ending_begins at_ row applied) rest inside
  cases ending with
  | failing here _ _ _ _ _ =>
      cases step_taken ends with
      | worker moved => simp [Sys.runWorker, runWorker, executeJob, here] at moved
  | crashed crashed =>
      cases step_taken ends with
      | worker moved =>
          simp [Sys.runWorker, runWorker, executeJob, crashed.workers w rfl] at moved
  | kept here quiet row' letters' =>
      have same := db_of_unlock here ends
      refine iff_of_true ⟨?_, ?_, fun now => ?_⟩ (.inr quiet)
      · rw [same]
        exact row'
      · rw [same]
        exact letters'
      · simp [same, eligible, row', Job.setDone]
  | lost here unanswered hit undone =>
      have same := db_of_unlock here ends
      refine iff_of_false (fun stays => ?_) ?_
      · have row' := stays.row
        rw [same] at row'
        exact undone _ row' rfl
      · rintro (acknowledged | quiet)
        · exact unanswered acknowledged
        · obtain ⟨y, member, overwrites⟩ := hit
          cases (quiet y member).symm.trans overwrites

/-- A replay in the faulty system from empty tables is a run. -/
theorem faulty_run (events : List FaultyEvent) (test : History Sys FaultyEvent × Sys → Bool)
    (passes : (exec (faultyStep demo) [] (Sys.boot 0 .empty) events).any test = true) :
    ∃ t s, FaultyRuns demo 0 .empty t s ∧ test (t, s) = true :=
  run_of_exec events test passes

/-- The handler of job 1 returned, and its result is about to be stored. -/
def returnedRun : List FaultyEvent :=
  ([.createJob demoJob, .start 0, .worker ⟨0, 0⟩ (.connect true)] ++
    demoClaim ⟨0, 0⟩ [1] (some 1) ++
    [.worker ⟨0, 0⟩ (.markRunning false), .worker ⟨0, 0⟩ .startHandler,
      .worker ⟨0, 0⟩ (.handlerEnds (.obj []) (.returns (.storable none)))] : List Event).map .event

/-- What the run leaves, and that `after` can follow it. -/
theorem returned_run (after : List FaultyEvent) (test : History Sys FaultyEvent × Sys → Bool)
    (passes : (exec (faultyStep demo) [] (Sys.boot 0 .empty) returnedRun).any (fun out =>
      (step demo out.2 (.worker ⟨0, 0⟩ (.storeDone none))).isSome &&
        ((out.2.stages ⟨0, 0⟩).job?.any fun job => job.id = 1 && (out.2.db.jobs.row 1).isSome) &&
        (exec (faultyStep demo) [] out.2 after).any test) = true) :
    ∃ (t : History Sys FaultyEvent) (s : Sys) (job : Record) (value : Option Json) (r : Job),
      FaultyRuns demo 0 .empty t s ∧ s.pc ⟨0, 0⟩ = .storing job (.storable value) ∧ job.id = 1 ∧
      s.db.jobs.row job.id = some r ∧ (exec (faultyStep demo) [] s after).any test = true := by
  obtain ⟨t, s, run, facts⟩ := faulty_run returnedRun _ passes
  simp only [Bool.and_eq_true, Option.any_eq_true, decide_eq_true_eq,
    Option.isSome_iff_exists] at facts
  obtain ⟨⟨enabled, job, has, first, r, row⟩, follows⟩ := facts
  obtain ⟨job', value, at_⟩ := storing_of_enabled (Option.isSome_iff_exists.2 enabled)
  rw [Sys.stages, at_] at has
  cases has
  refine ⟨t, s, job, value, r, run, at_, first, by rw [first]; exact row, ?_⟩
  exact Option.any_eq_true .. |>.2 follows

/-- An acknowledged `'done'` UPDATE stays. -/
theorem success_recorded_acknowledged :
    ∃ (t : History Sys FaultyEvent) (s s₁ s₂ : Sys) (job : Record) (value : Option Json) (r : Job),
      FaultyRuns demo 0 .empty t s ∧
      faultyStep demo s (recording ⟨0, 0⟩ none) = some s₁ ∧
      faultyStep demo s₁ (.event (.worker ⟨0, 0⟩ (.unlock false))) = some s₂ ∧
      StaysRecorded job.id (r.setDone s.now value ⟨0, 0⟩) (lettersOf s.db job.id) s₂ := by
  obtain ⟨t, s, job, value, r, run, at_, -, row, follows⟩ := returned_run
    [recording ⟨0, 0⟩ none, .event (.worker ⟨0, 0⟩ (.unlock false))] (fun _ => true)
    (by decide +kernel)
  simp only [exec, Option.any_eq_true, Option.bind_eq_some_iff] at follows
  obtain ⟨_, ⟨s₁, applied, s₂, ends, -⟩, -⟩ := follows
  refine ⟨t, s, s₁, s₂, job, value, r, run, applied, ends, ?_⟩
  exact (success_recorded_iff demo 0 .empty run at_ row none applied .nil (by simp) ends).2
    (.inl rfl)

/-- The `'done'` UPDATE of job 1 takes effect and times out in the worker: the job is
scheduled for a retry, with two attempts to its account. -/
theorem success_overwritten :
    ∃ (t : History Sys FaultyEvent) (s s₁ s₂ s₃ : Sys) (job : Record) (value : Option Json)
        (r : Job), FaultyRuns demo 0 .empty t s ∧
      s.pc ⟨0, 0⟩ = .storing job (.storable value) ∧ s.db.jobs.row job.id = some r ∧
      faultyStep demo s (recording ⟨0, 0⟩ (some ⟨"TimeoutError", ""⟩)) = some s₁ ∧
      faultyStep demo s₁ (.event (.worker ⟨0, 0⟩ (.handleFailure false))) = some s₂ ∧
      faultyStep demo s₂ (.event (.worker ⟨0, 0⟩ (.unlock false))) = some s₃ ∧
      (∃ r', s₃.db.jobs.row job.id = some r' ∧ r'.status = .pending ∧ r'.attempt = 2) ∧
      ¬ StaysRecorded job.id (r.setDone s.now value ⟨0, 0⟩) (lettersOf s.db job.id) s₃ := by
  obtain ⟨t, s, job, value, r, run, at_, first, row, follows⟩ := returned_run
    [recording ⟨0, 0⟩ (some ⟨"TimeoutError", ""⟩), .event (.worker ⟨0, 0⟩ (.handleFailure false)),
      .event (.worker ⟨0, 0⟩ (.unlock false))]
    (fun out => (out.2.db.jobs.row 1).any fun r => r.status = .pending && r.attempt = 2)
    (by decide +kernel)
  simp only [exec, Option.any_eq_true, Option.bind_eq_some_iff, Bool.and_eq_true,
    decide_eq_true_eq] at follows
  obtain ⟨_, ⟨s₁, applied, s₂, handled, s₃, ends, same⟩, r', row', pending, twice⟩ := follows
  cases same
  rw [← first] at row'
  refine ⟨t, s, s₁, s₂, s₃, job, value, r, run, at_, row, applied, handled, ends,
    ⟨r', row', pending, twice⟩, fun stays => ?_⟩
  cases row'.symm.trans stays.row
  cases pending

end TaskQueue
