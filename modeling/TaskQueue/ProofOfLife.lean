/-
# TaskQueue.ProofOfLife -- whom a heartbeat keeps alive

`heartbeat_loop` and `run_worker` share only the worker id: the loop refreshes every
running row that carries it, whether or not the coroutine is still at the job.  A worker
leaves a job without an outcome by three exits (`Abandons`), all of them exceptions that
end `run_worker` while its heartbeat goes on.

* `owned_of_run` says where the owner of a claimed or running row is: executing the job,
  gone from it by one of the three exits, or crashed.
-/
import TaskQueue.Ownership

namespace TaskQueue

set_option autoImplicit false

open Transition

/-- `w` leaves `j` without an outcome. -/
def Leaves (s : Sys) (e : Event) (w : WorkerId) (j : JobId) : Prop :=
  Executes s w j ∧ ∃ act pc', e = .worker w act ∧ Abandons (s.pc w) act pc'

/-- `w` has left `j` without an outcome since it last claimed it. -/
def Abandoned (cfg : Config) (w : WorkerId) (j : JobId) : History Sys Event → Prop
  | [] => False
  | (s, e) :: t => ¬ Claims cfg s e w j ∧ (Leaves s e w j ∨ Abandoned cfg w j t)

/-- The awaited call of a worker raises one of the exceptions of `Abandons`. -/
def Event.exits : Event → Bool
  | .worker _ (.markRunning true) => true
  | .worker _ (.handlerEnds _ .raisesBase) => true
  | .worker _ (.handleFailure true) => true
  | _ => false

section

variable {cfg : Config} {t₀ : Time} {db : Db} {t : History Sys Event} {s s' : Sys} {e : Event}
  {w : WorkerId} {j : JobId} {r r' : Job}

theorem exits_of_leaves (leaves : Leaves s e w j) : e.exits = true := by
  obtain ⟨-, act, pc', rfl, abandons⟩ := leaves
  generalize s.pc w = pc at abandons
  cases abandons <;> rfl

theorem Abandons.moves {shutdown : Bool} {now : Time} {jobs : SerialTable Job} {locks : LockTable}
    {pc pc' : Pc} {act : WorkerAct} (leaves : Abandons pc act pc') :
    runWorker cfg shutdown now jobs locks w pc act = some { pc := pc', locks } := by
  cases leaves <;> rfl

/-- Where a worker that leaves its job goes. -/
theorem leaves_to (taken : step cfg s e = some s') (leaves : Leaves s e w j) :
    ∃ act, Abandons (s.pc w) act (s'.pc w) := by
  obtain ⟨-, act, pc', rfl, abandons⟩ := leaves
  have moved : s.runWorker cfg w act = some { pc := pc', locks := s.locks } := abandons.moves
  rw [step_of_moved moved] at taken
  cases taken
  exact ⟨act, by simpa [Sys.moveWorker] using abandons⟩

theorem leaves_idle (taken : step cfg s e = some s') (leaves : Leaves s e w j) :
    s'.stages w = .idle := by
  obtain ⟨act, abandons⟩ := leaves_to taken leaves
  rw [Sys.stages]
  generalize s.pc w = pc, s'.pc w = pc' at abandons ⊢
  cases abandons <;> rfl

/-- What becomes of a worker at a job: it stays, writes the outcome, leaves, or crashes. -/
theorem executes_next (run : Runs cfg t₀ db t s) (executes : Executes s w j)
    (taken : step cfg s e = some s') :
    Executes s' w j ∨ (∃ o, decided cfg s e j = some o) ∨ Leaves s e w j ∨ e = .crash w.proc := by
  obtain ⟨job, at_, rfl⟩ := executes
  cases worker_step taken w with
  | moves now moved pc _ =>
      subst now
      have commits := committed_of_moved moved
      have stage' : s'.stages w = _ := congrArg Pc.stage pc
      have advance := Sys.advance moved
      have here := at_
      rw [Sys.stages] at at_
      generalize pc_ : s.pc w = before at advance
      rw [pc_] at at_
      cases advance with
      | rests _ _ _ idle _ =>
          rw [idle] at at_
          cases at_
      | findsNone _ _ => cases at_
      | claimRaises _ => cases at_
      | claims _ _ _ => cases at_
      | unlocks _ _ _ => cases at_
      | closes _ _ _ => cases at_
      | marks job₀ =>
          cases at_
          exact .inl ⟨job, by rw [stage']; rfl, rfl⟩
      | carries payload running running' =>
          rw [running] at at_
          cases at_
          exact .inl ⟨{ job with payload }, by rw [stage', running']; rfl, rfl⟩
      | succeeds job₀ value =>
          cases at_
          exact .inr (.inl ⟨.success, decided_some commits rfl⟩)
      | fails job₀ error =>
          cases at_
          exact .inr (.inl ⟨.failure, decided_some commits (decides_handleFailure _ _ _ _)⟩)
      | abandons leaves =>
          rw [← pc_] at leaves
          exact .inr (.inr (.inl ⟨⟨job, here, rfl⟩, _, _, rfl, leaves⟩))
  | stays _ _ pc _ => exact .inl ⟨job, (congrArg (fun pc => pc.stage.job?) pc).trans at_, rfl⟩
  | spawns absent _ _ =>
      rw [Sys.stages, pc_of_absent run w absent] at at_
      cases at_
  | dies now _ _ => exact .inr (.inr (.inr now))

/-- A worker at a job has not left it since its claim. -/
theorem not_abandoned_of_executes (run : Runs cfg t₀ db t s) :
    Executes s w j → ¬ Abandoned cfg w j t := by
  refine run.invariant (P := fun t s => Executes s w j → ¬ Abandoned cfg w j t)
    (fun _ => not_false) ?_
  intro t s e s' run ih taken executes
  rintro ⟨keeps, leaves | before⟩
  · obtain ⟨job, at_, -⟩ := executes
    rw [leaves_idle taken leaves] at at_
    cases at_
  · rcases executes_step run taken executes with earlier | claims
    · exact ih earlier before
    · exact keeps claims

/-- The row of `j` is claimed or running under `w`. -/
def Owns (s : Sys) (w : WorkerId) (j : JobId) : Prop :=
  ∃ r, s.db.jobs.row j = some r ∧ r.workerId = some w ∧
    (r.status = .claimed ∨ r.status = .running)

/-- A row comes to be a worker's by its claim; an outcome write ends it. -/
theorem owns_step (run : Runs cfg t₀ .empty t s) (taken : step cfg s e = some s')
    (owns : Owns s' w j) : Claims cfg s e w j ∨ (Owns s w j ∧ decided cfg s e j = none) := by
  obtain ⟨r', row', own, status⟩ := owns
  cases row : s.db.jobs.row j with
  | none =>
      rw [step_db taken] at row'
      obtain ⟨body, -, rfl, rfl⟩ := row_new row row'
      cases own
  | some r =>
      have change := row_step run taken row
      rw [row'] at change
      cases change with
      | keeps undecided _ => exact .inr ⟨⟨_, row, own, status⟩, undecided⟩
      | @claims w₀ startedAt commits _ =>
          cases own
          exact .inl ⟨startedAt, commits⟩
      | marks commits _ _ holds =>
          cases holds.owner own
          have kept : ¬ TakenBack cfg w j t := fun back => by
            cases own.symm.trans (holds.lost back).1
          have claimed : r.status = .claimed := holds.status_eq kept rfl
          exact .inr ⟨⟨r, row, own, .inl claimed⟩, decided_none commits rfl⟩
      | succeeds _ _ _ _ => rcases status with status | status <;> cases status
      | dies _ _ _ _ _ => rcases status with status | status <;> cases status
      | retries _ _ _ _ _ => rcases status with status | status <;> cases status
      | beats commits own' running =>
          exact .inr ⟨⟨r, row, own, .inr running⟩, decided_none commits rfl⟩
      | reclaims _ _ => rcases status with status | status <;> cases status

/-- Where the owner of a claimed or running row is. -/
def OwnerOf (cfg : Config) (t : History Sys Event) (s : Sys) (w : WorkerId) (j : JobId) : Prop :=
  Executes s w j ∨ Abandoned cfg w j t ∨ s.phase w.proc = .crashed

theorem ownerOf_step (run : Runs cfg t₀ db t s) (taken : step cfg s e = some s')
    (owner : OwnerOf cfg t s w j) (owns : Owns s w j) (undecided : decided cfg s e j = none) :
    OwnerOf cfg ((s, e) :: t) s' w j := by
  have keeps : ¬ Claims cfg s e w j := fun claims => by
    obtain ⟨r, row, -, status⟩ := owns
    have pending := (claims_pending taken claims row).1
    rcases status with status | status <;> cases pending.symm.trans status
  rcases owner with executes | abandoned | crashed
  · rcases executes_next run executes taken with after | ⟨o, writes⟩ | leaves | rfl
    · exact .inl after
    · cases undecided.symm.trans writes
    · exact .inr (.inl ⟨keeps, .inl leaves⟩)
    · exact .inr (.inr (crashed_of_crash taken).phase)
  · exact .inr (.inl ⟨keeps, .inr abandoned⟩)
  · exact .inr (.inr (crashed_step (crashed_of_phase run crashed) taken).phase)

/-- A claim leaves its worker at the job. -/
theorem executes_of_claims (taken : step cfg s e = some s') (claims : Claims cfg s e w j) :
    Executes s' w j := by
  obtain ⟨_, _, _, r, -, -, -, -, -, -, pcs⟩ := claims_step taken claims
  refine ⟨.ofRow j r, ?_, rfl⟩
  rw [Sys.stages, pcs, Function.update_self]
  rfl

/-- **The owner of a row.** -/
theorem owned_of_run (run : Runs cfg t₀ .empty t s) :
    ∀ w j, Owns s w j → OwnerOf cfg t s w j := by
  refine run.invariant (P := fun t s => ∀ w j, Owns s w j → OwnerOf cfg t s w j) ?_ ?_
  · rintro w j ⟨r, row, -⟩
    cases row
  intro t s e s' run owned taken w j owns
  rcases owns_step run taken owns with claims | ⟨before, undecided⟩
  · exact .inl (executes_of_claims taken claims)
  · exact ownerOf_step run taken (owned w j before) before undecided

/-- A heartbeat that refreshes a row finds its worker at the job, or gone from it by one
of the three exits. -/
theorem refresh_cases (run : Runs cfg t₀ .empty t s)
    (taken : step cfg s (.heartbeat w .update) = some s') (row : s.db.jobs.row j = some r)
    (beats : r.beatsFor w = true) : Executes s w j ∨ Abandoned cfg w j t := by
  obtain ⟨own, running⟩ := Job.beatsFor_iff.1 beats
  rcases owned_of_run run w j ⟨r, row, own, .inr running⟩ with executes | abandoned | crashed
  · exact .inl executes
  · exact .inr abandoned
  · have exited := (crashed_of_phase run crashed).heartbeats w rfl
    cases step_taken taken with
    | heartbeat next => simp [loopNext, exited] at next

end

/-- The step, if it is a heartbeat UPDATE, refreshes only rows whose job its worker executes. -/
def RefreshesExecuted (_ : History Sys Event) (s : Sys) (e : Event) : Prop :=
  ∀ w j r, e = .heartbeat w .update → s.db.jobs.row j = some r → r.beatsFor w = true →
    Executes s w j

/-- The step, if it is a heartbeat UPDATE, refreshes no row that its worker has abandoned. -/
def SkipsAbandoned (cfg : Config) (t : History Sys Event) (s : Sys) (e : Event) : Prop :=
  ∀ w j r, e = .heartbeat w .update → s.db.jobs.row j = some r → r.beatsFor w = true →
    ¬ Abandoned cfg w j t

/-- **When heartbeats are proof of life.**  In a run from empty tables every heartbeat
refreshes only rows whose jobs its worker executes, exactly when no heartbeat refreshes a
row that its worker has left by a raising `'running'` UPDATE, a handler exception that
`except Exception` lets pass, or a raising `_handle_failure`. -/
theorem heartbeat_alive_iff (cfg : Config) (t₀ : Time) {t : History Sys Event} {s : Sys}
    (run : Runs cfg t₀ .empty t s) :
    EachStep RefreshesExecuted t ↔ EachStep (SkipsAbandoned cfg) t := by
  refine run.eachStep_iff fun u a e a' before taken => ?_
  constructor
  · intro alive w j r beat row beats
    exact not_abandoned_of_executes before (alive w j r beat row beats)
  · intro skips w j r beat row beats
    subst beat
    rcases refresh_cases before taken row beats with executes | abandoned
    · exact executes
    · exact absurd abandoned (skips w j r rfl row beats)

theorem leaves_of_abandoned {cfg : Config} {w : WorkerId} {j : JobId} {t : History Sys Event}
    (abandoned : Abandoned cfg w j t) : ∃ s e, (s, e) ∈ t ∧ Leaves s e w j := by
  induction t with
  | nil => exact abandoned.elim
  | cons x t ih =>
      rcases abandoned.2 with leaves | before
      · exact ⟨x.1, x.2, List.mem_cons_self, leaves⟩
      · obtain ⟨s, e, member, leaves⟩ := ih before
        exact ⟨s, e, List.mem_cons_of_mem _ member, leaves⟩

/-- A run in which nobody leaves a job has no abandoned rows. -/
theorem skips_of_no_exit {cfg : Config} {t : History Sys Event}
    (stays : ∀ x ∈ t, ¬ x.2.exits = true) : EachStep (SkipsAbandoned cfg) t := by
  induction t with
  | nil => trivial
  | cons x t ih =>
      refine ⟨fun w j _ _ _ _ abandoned => ?_, ih fun y member =>
        stays y (List.mem_cons_of_mem _ member)⟩
      obtain ⟨s, e, member, leaves⟩ := leaves_of_abandoned abandoned
      exact stays (s, e) (List.mem_cons_of_mem _ member) (exits_of_leaves leaves)

/-- Job 1 is running, its worker alive, and the heartbeats are its proof of life. -/
theorem heartbeat_alive_running :
    ∃ t s, Runs demo 0 .empty t s ∧ EachStep RefreshesExecuted t ∧
      ∃ r, s.db.jobs.row 1 = some r ∧ r.heartbeatAt = some 10 := by
  obtain ⟨t, s, run, after⟩ := demo_run
    ([.createJob demoJob, .start 0, .worker ⟨0, 0⟩ (.connect true)] ++
      demoClaim ⟨0, 0⟩ [1] (some 1) ++ [.worker ⟨0, 0⟩ (.markRunning false), .tick 10,
        .heartbeat ⟨0, 0⟩ .check, .heartbeat ⟨0, 0⟩ .update])
    (fun out => (out.1.all fun x => ¬ x.2.exits) ∧
      (out.2.db.jobs.row 1).any fun r => r.heartbeatAt = some 10)
    (by decide +kernel)
  simp only [decide_eq_true_eq, List.all_eq_true, Option.any_eq_true] at after
  obtain ⟨stays, fresh⟩ := after
  exact ⟨t, s, run, (heartbeat_alive_iff demo 0 run).2 (skips_of_no_exit stays), fresh⟩

/-- How `run_worker` ended, once it has. -/
def Pc.exited? : Pc → Option Bool
  | .exited raised => some raised
  | _ => none

theorem Pc.exited_of_some {pc : Pc} {raised : Bool} (ended : pc.exited? = some raised) :
    pc = .exited raised := by
  cases pc <;> simp_all [Pc.exited?]

/-- The handler of job 1 ends in `CancelledError` and takes `run_worker` with it: the row
stays running, and the heartbeat of the worker is about to refresh it. -/
theorem heartbeat_after_exit :
    ∃ t s r, Runs demo 0 .empty t s ∧ (step demo s (.heartbeat ⟨0, 0⟩ .update)).isSome ∧
      s.db.jobs.row 1 = some r ∧ r.beatsFor ⟨0, 0⟩ = true ∧ s.pc ⟨0, 0⟩ = .exited true ∧
      ¬ Executes s ⟨0, 0⟩ 1 := by
  obtain ⟨t, s, run, after⟩ := demo_run
    ([.createJob demoJob, .start 0, .worker ⟨0, 0⟩ (.connect true)] ++
      demoClaim ⟨0, 0⟩ [1] (some 1) ++
      [.worker ⟨0, 0⟩ (.markRunning false), .worker ⟨0, 0⟩ .startHandler,
        .worker ⟨0, 0⟩ (.handlerEnds (.obj []) .raisesBase), .worker ⟨0, 0⟩ (.unlock false),
        .worker ⟨0, 0⟩ (.close false), .heartbeat ⟨0, 0⟩ .check])
    (fun out => (out.2.pc ⟨0, 0⟩).exited? = some true ∧ out.2.heartbeat ⟨0, 0⟩ = .updating ∧
      (out.2.db.jobs.row 1).any fun r => r.beatsFor ⟨0, 0⟩)
    (by decide +kernel)
  simp only [decide_eq_true_eq, Option.any_eq_true] at after
  obtain ⟨ended, updating, r, row, beats⟩ := after
  have exited := Pc.exited_of_some ended
  refine ⟨t, s, r, run, ?_, row, beats, exited, ?_⟩
  · simp [step, control, loopNext, updating]
  · rintro ⟨job, at_, -⟩
    rw [Sys.stages, exited] at at_
    cases at_

end TaskQueue
