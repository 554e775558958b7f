/-
# TaskQueue.Change -- what one step of the system does to the jobs

Seen from the jobs a step is one of nine changes: a claim, the `'running'` UPDATE, an
await inside the execution, one of the two outcome writes, a heartbeat, a sweep, an
INSERT, a DELETE, or nothing but workers that let go of what they were doing.
`change_of_run` sorts every step of every run into these.  Exclusion is in it: a claim
takes a job that nobody holds.
-/
import TaskQueue.Exclusion

namespace TaskQueue

set_option autoImplicit false

open Transition

def Sys.stages (s : Sys) (w : WorkerId) : Stage := (s.pc w).stage

/-- `w` writes the status of its job: `'running'`, `'done'`, or the retry or death of
`_handle_failure`. -/
inductive StatusWrite (s : Sys) (w : WorkerId) (job : Record) : Event → Prop
  | running (at_ : s.pc w = .marking job) : StatusWrite s w job (.worker w (.markRunning false))
  | done {value : Option Json} (at_ : s.pc w = .storing job (.storable value)) :
      StatusWrite s w job (.worker w (.storeDone none))
  | failed {error : PyError} (at_ : s.pc w = .failing job error) :
      StatusWrite s w job (.worker w (.handleFailure false))

theorem StatusWrite.job {s : Sys} {w : WorkerId} {job : Record} {e : Event}
    (writes : StatusWrite s w job e) : (s.stages w).job? = some job := by
  cases writes with
  | running at_ => rw [Sys.stages, at_]; rfl
  | done at_ => rw [Sys.stages, at_]; rfl
  | failed at_ => rw [Sys.stages, at_]; rfl

/-- What one step does to the jobs: the transaction it commits, the stages it moves. -/
inductive Change (cfg : Config) (s : Sys) (e : Event) (s' : Sys) : Prop
  | claims {w : WorkerId} {id : JobId} {startedAt : Time} {r : Job}
      (commits : committed cfg s e = some (.claim w id startedAt))
      (idle : s.stages w = .idle) (free : ∀ w', (s.pc w').held? ≠ some id)
      (row : s.db.jobs.row id = some r) (pending : r.status = .pending)
      (stages : s'.stages = Function.update s.stages w (.claimed (.ofRow id r)))
  | marks {w : WorkerId} {job : Record}
      (commits : committed cfg s e = some (.markRunning job.id))
      (writes : StatusWrite s w job e) (at_ : s.stages w = .claimed job)
      (stages : s'.stages = Function.update s.stages w (.running job))
  | carries {w : WorkerId} {job : Record} {payload : Json} (commits : committed cfg s e = none)
      (at_ : s.stages w = .running job)
      (stages : s'.stages = Function.update s.stages w (.running { job with payload }))
  | succeeds {w : WorkerId} {job : Record} {value : Option Json}
      (commits : committed cfg s e = some (.storeDone value w job.id))
      (writes : StatusWrite s w job e) (at_ : s.stages w = .running job)
      (stages : s'.stages = Function.update s.stages w .idle)
  | fails {w : WorkerId} {job : Record} {error : PyError}
      (commits : committed cfg s e = some (handleFailure cfg job error w))
      (writes : StatusWrite s w job e) (at_ : s.stages w = .running job)
      (stages : s'.stages = Function.update s.stages w .idle)
  | heartbeats {w : WorkerId} (commits : committed cfg s e = some (.heartbeat w))
      (stages : s'.stages = s.stages)
  | reaps (commits : committed cfg s e = some .reap) (stages : s'.stages = s.stages)
  | inserts {body : JobCreate} (commits : committed cfg s e = some (.insertJob body))
      (stages : s'.stages = s.stages)
  | deletes {id : JobId} {r : Job} (commits : committed cfg s e = some (.deleteJob id))
      (row : s.db.jobs.row id = some r) (pending : r.status = .pending)
      (stages : s'.stages = s.stages)
  | quiet (commits : committed cfg s e = none)
      (stages : ∀ w, s'.stages w = s.stages w ∨ s'.stages w = .idle)

/-- `w` is between its claim of `j` and its outcome write. -/
def Executes (s : Sys) (w : WorkerId) (j : JobId) : Prop :=
  ∃ job, (s.stages w).job? = some job ∧ job.id = j

variable {cfg : Config} {t₀ : Time} {db : Db} {t : History Sys Event} {s s' : Sys} {e : Event}
  {w : WorkerId} {j : JobId}

/-- An update moves the stage of one worker. -/
theorem stages_update {w₀ : WorkerId} {st : Stage}
    (stages : s'.stages = Function.update s.stages w₀ st) (w : WorkerId) :
    (w = w₀ ∧ s'.stages w = st) ∨ (w ≠ w₀ ∧ s'.stages w = s.stages w) := by
  by_cases same : w = w₀
  · subst same
    exact .inl ⟨rfl, by rw [stages, Function.update_self]⟩
  · exact .inr ⟨same, by rw [stages, Function.update_of_ne same]⟩

/-- A worker whose stage changes is the one that was moved. -/
theorem mine_of_update {w₀ : WorkerId} {st : Stage}
    (stages : s'.stages = Function.update s.stages w₀ st) (moves : s'.stages w ≠ s.stages w) :
    w = w₀ ∧ s'.stages w = st :=
  (stages_update stages w).resolve_right fun other => moves other.2

theorem stages_moveWorker (s : Sys) (w : WorkerId) (act : WorkerAct) (m : Move) (d : Db) :
    Sys.stages { s.moveWorker w act m with db := d } =
      Function.update s.stages w m.pc.stage := by
  funext w'
  by_cases same : w' = w
  · subst same
    simp [Sys.stages, Sys.moveWorker]
  · simp [Sys.stages, Sys.moveWorker, same]

theorem change_of_move {w : WorkerId} {act : WorkerAct} {m : Move} (run : Runs cfg t₀ db t s)
    (moved : s.runWorker cfg w act = some m) :
    Change cfg s (.worker w act)
      { s.moveWorker w act m with db := s.db.commit s.now m.statement } := by
  have commits := committed_of_moved moved
  have stages := stages_moveWorker s w act m (s.db.commit s.now m.statement)
  have advance := Sys.advance moved
  generalize at_ : s.pc w = pc at advance
  -- a step that ends in no stage and commits nothing
  have letsGo (idle : m.pc.stage = .idle) (nothing : m.statement = none) :
      Change cfg s (.worker w act)
        { s.moveWorker w act m with db := s.db.commit s.now m.statement } := by
    refine .quiet (commits.trans nothing) fun w' => ?_
    rw [stages]
    by_cases same : w' = w
    · right
      rw [same, Function.update_self, idle]
    · left
      rw [Function.update_of_ne same]
  cases advance with
  | rests _ _ _ _ idle' => exact letsGo idle' rfl
  | findsNone _ _ => exact letsGo rfl rfl
  | claimRaises _ => exact letsGo rfl rfl
  | @claims snapshot startedAt plan id r admissible returned row =>
      obtain ⟨-, obtainable, stillEligible⟩ := claim_facts admissible returned
      rw [eligible_iff] at stillEligible
      obtain ⟨r', row', pending, -⟩ := stillEligible
      cases row.symm.trans row'
      refine .claims commits (by rw [Sys.stages, at_]; rfl) ?_ row pending stages
      intro w' held
      have owner := owner_of_held run held
      rcases obtainable with unowned | mine
      · cases owner.symm.trans unowned
      · cases owner.symm.trans mine
        rw [at_] at held
        cases held
  | marks job => exact .marks commits (.running at_) (by rw [Sys.stages, at_]; rfl) stages
  | @carries _ pc' _ job payload running running' =>
      have here : s.stages w = .running job := by rw [Sys.stages, at_, running]
      have there : pc'.stage = .running { job with payload } := running'
      exact .carries commits here (stages.trans (by rw [there]))
  | succeeds job value => exact .succeeds commits (.done at_) (by rw [Sys.stages, at_]; rfl) stages
  | fails job error => exact .fails commits (.failed at_) (by rw [Sys.stages, at_]; rfl) stages
  | abandons leaves => exact letsGo (by cases leaves <;> rfl) rfl
  | unlocks id raised raises => exact letsGo (by cases raised <;> rfl) rfl
  | closes _ _ _ => exact letsGo rfl rfl

/-- **Every step of every run is one of the changes.** -/
theorem change_of_run (run : Runs cfg t₀ db t s) (taken : step cfg s e = some s') :
    Change cfg s e s' := by
  cases step_taken taken with
  | worker moved => exact change_of_move run moved
  | @heartbeat w act l _ =>
      cases act with
      | update => exact .heartbeats rfl rfl
      | _ => exact .quiet rfl fun _ => .inl rfl
  | @reaper p act l _ =>
      cases act with
      | update => exact .reaps rfl rfl
      | _ => exact .quiet rfl fun _ => .inl rfl
  | createJob body =>
      have commits : committed cfg s (.createJob body) = some (.insertJob body) := rfl
      exact .inserts commits rfl
  | cancelJob id =>
      cases deletes : (cancelJob s.db id).2 with
      | none => exact .quiet deletes fun _ => .inl rfl
      | some st =>
          obtain ⟨rfl, r, row, pending⟩ := cancelJob_statement deletes
          exact .deletes deletes row pending rfl
  | @start p absent =>
      refine .quiet rfl fun w => ?_
      by_cases spawned : w.proc = p ∧ w.slot < cfg.workerCount
      · exact .inr (by simp [Sys.stages, Sys.startProc, spawned, Pc.stage])
      · exact .inl (by simp [Sys.stages, Sys.startProc, spawned])
  | @crash p up =>
      refine .quiet rfl fun w => ?_
      by_cases dies : w.proc = p
      · exact .inr (by simp [Sys.stages, Sys.crashProc, dies, Pc.stage])
      · exact .inl (by simp [Sys.stages, Sys.crashProc, dies])
  | _ => exact .quiet rfl fun _ => .inl rfl

/-- A worker takes up a job only by claiming its row. -/
theorem executes_step (run : Runs cfg t₀ db t s) (taken : step cfg s e = some s')
    (executes : Executes s' w j) : Executes s w j ∨ Claims cfg s e w j := by
  obtain ⟨job, at_, rfl⟩ := executes
  have before (same : s'.stages w = s.stages w) : Executes s w job.id :=
    ⟨job, by rw [← same]; exact at_, rfl⟩
  cases change_of_run run taken with
  | claims commits _ _ _ _ stages =>
      rcases stages_update stages w with ⟨rfl, after⟩ | ⟨-, same⟩
      · rw [after] at at_
        cases at_
        exact .inr ⟨_, commits⟩
      · exact .inl (before same)
  | marks _ _ was stages =>
      rcases stages_update stages w with ⟨rfl, after⟩ | ⟨-, same⟩
      · rw [after] at at_
        cases at_
        exact .inl ⟨job, congrArg Stage.job? was, rfl⟩
      · exact .inl (before same)
  | carries _ was stages =>
      rcases stages_update stages w with ⟨rfl, after⟩ | ⟨-, same⟩
      · rw [after] at at_
        cases at_
        exact .inl ⟨_, congrArg Stage.job? was, rfl⟩
      · exact .inl (before same)
  | succeeds _ _ _ stages =>
      rcases stages_update stages w with ⟨-, after⟩ | ⟨-, same⟩
      · rw [after] at at_
        cases at_
      · exact .inl (before same)
  | fails _ _ _ stages =>
      rcases stages_update stages w with ⟨-, after⟩ | ⟨-, same⟩
      · rw [after] at at_
        cases at_
      · exact .inl (before same)
  | heartbeats _ stages => exact .inl (before (congrFun stages w))
  | reaps _ stages => exact .inl (before (congrFun stages w))
  | inserts _ stages => exact .inl (before (congrFun stages w))
  | deletes _ _ _ stages => exact .inl (before (congrFun stages w))
  | quiet _ stages =>
      rcases stages w with same | idle
      · exact .inl (before same)
      · rw [idle] at at_
        cases at_

/-- A worker that takes no step has no job. -/
theorem idle_of_only {w₀ : WorkerId} (run : Runs cfg t₀ db t s)
    (only : ∀ a w act, (a, .worker w act) ∈ t → w = w₀) :
    ∀ w, w ≠ w₀ → s.stages w = .idle := by
  induction run with
  | nil => exact fun _ _ => rfl
  | @snoc t s s' e before taken ih =>
      intro w other
      have idle := ih (fun a w act member => only a w act (List.mem_cons_of_mem _ member)) w other
      by_contra busy
      obtain ⟨job, at_⟩ : ∃ job, (s'.stages w).job? = some job := by
        cases stage : s'.stages w with
        | idle => exact absurd stage busy
        | claimed job => exact ⟨job, rfl⟩
        | running job => exact ⟨job, rfl⟩
      rcases executes_step before taken ⟨job, at_, rfl⟩ with ⟨_, was, -⟩ | claims
      · rw [idle] at was
        cases was
      · obtain ⟨_, _, plan, _, rfl, -⟩ := claims_step taken claims
        exact other (only s w _ List.mem_cons_self)

end TaskQueue
