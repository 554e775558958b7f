/-
# TaskQueue.Payloads -- whose payload a dead letter stores

No statement writes the payload column, so a row keeps the payload it was enqueued with,
and every claim reads it from there.  But `_execute_job` hands its handler `dict(job)`, a
copy of one level: the payload object in it is the record's own.  When the handler
fails, `_handle_failure` takes the payload of the letter from that record, after whatever
the handler did to it.

* `handlerLeft` reads the payload object of a worker's execution off the history;
  `recorded_of_run` is the invariant of rows and records.
* `BuriesIntact` is the condition under which a burial stores what was enqueued.
-/
import TaskQueue.DeadLetters

namespace TaskQueue

set_option autoImplicit false

open Transition

/-- What the handler of an execution left in its payload object, after one more step. -/
def WorkerAct.left : WorkerAct → Option Json → Option Json
  | .claim _, _ => none
  | .handlerEnds payload _, _ => some payload
  | _, before => before

/-- The contents of the payload object as the handler of `w` left it, when one has ended
since `w` last claimed. -/
def handlerLeft (w : WorkerId) : History Sys Event → Option Json
  | [] => none
  | (_, e) :: t =>
      match e with
      | .worker w' act => if w' = w then act.left (handlerLeft w t) else handlerLeft w t
      | _ => handlerLeft w t

/-- A burial of `j` comes after no handler, or after one that left its payload object with
the contents `given`. -/
def BuriesIntact (j : JobId) (given : Json) (t : History Sys Event) (s : Sys) (e : Event) : Prop :=
  ∀ w job error, e = .worker w (.handleFailure false) → s.pc w = .failing job error →
    job.id = j → job.maxRetries ≤ job.attempt + 1 →
    ∀ payload ∈ handlerLeft w t, payloadDict payload = given

/-- Where the payloads in rows and records come from. -/
structure Recorded (cfg : Config) (t : History Sys Event) (s : Sys) : Prop where
  row : ∀ j r, s.db.jobs.row j = some r →
    ∃ body, enqueued cfg j t = some body ∧ r.payload = body.payload
  record : ∀ w job, (s.stages w).job? = some job →
    ∃ body, enqueued cfg job.id t = some body ∧
      job.payload = (handlerLeft w t).getD body.payload

section

variable {cfg : Config} {t₀ : Time} {t : History Sys Event} {s s' : Sys} {e : Event}
  {w : WorkerId} {j : JobId} {r r' : Job} {job : Record}

theorem handlerLeft_own (act : WorkerAct) :
    handlerLeft w ((s, .worker w act) :: t) = act.left (handlerLeft w t) := by
  simp [handlerLeft]

theorem handlerLeft_other (other : ∀ act, e ≠ .worker w act) :
    handlerLeft w ((s, e) :: t) = handlerLeft w t := by
  cases e with
  | worker w' act =>
      have away : w' ≠ w := by
        rintro rfl
        exact other act rfl
      simp [handlerLeft, away]
  | _ => rfl

/-- Inside an execution the record changes only by what the handler left. -/
theorem record_of_execute {locks : LockTable} {pc : Pc} {act : WorkerAct} {m : Move}
    (moved : executeJob cfg locks w pc act = some m) (has : m.pc.stage.job? = some job) :
    ∃ before, pc.stage.job? = some before ∧ (∀ plan, act ≠ .claim plan) ∧
      job = { before with payload := (act.left none).getD before.payload } := by
  unfold executeJob at moved
  split at moved
  · cases moved
    cases has
    exact ⟨job, rfl, by simp, rfl⟩
  · cases moved
    cases has
  · split at moved
    · cases moved
      cases has
      exact ⟨job, rfl, by simp, rfl⟩
    · cases moved
      cases has
      exact ⟨job, rfl, by simp, rfl⟩
  · cases moved
    cases has
    exact ⟨_, rfl, by simp, rfl⟩
  · cases moved
    cases has
    exact ⟨_, rfl, by simp, rfl⟩
  · cases moved
    cases has
  · cases moved
    cases has
  · cases moved
    cases has
    exact ⟨job, rfl, by simp, rfl⟩
  · cases moved
    cases has
  · cases moved
    cases has
  · rename_i id raised raises
    cases moved
    cases raised <;> cases has
  · cases moved

/-- The record after a step is that of the claim, or the one before with what the handler left. -/
theorem record_of_move {shutdown : Bool} {now : Time} {jobs : SerialTable Job} {locks : LockTable}
    {pc : Pc} {act : WorkerAct} {m : Move}
    (moved : runWorker cfg shutdown now jobs locks w pc act = some m)
    (has : m.pc.stage.job? = some job) :
    (∃ plan id r, act = .claim plan ∧ jobs.row id = some r ∧ job = .ofRow id r) ∨
      ∃ before, pc.stage.job? = some before ∧ (∀ plan, act ≠ .claim plan) ∧
        job = { before with payload := (act.left none).getD before.payload } := by
  unfold runWorker at moved
  split at moved
  · rename_i ok
    cases moved
    cases ok <;> cases has
  · cases moved
    cases shutdown <;> cases has
  · cases moved
    cases has
  · have advance : Advance cfg jobs locks w (.claiming _ _) _ m := tryClaim_advance moved
    cases advance with
    | claims _ _ row =>
        cases has
        exact .inl ⟨_, _, _, rfl, row, rfl⟩
    | rests _ noClaim _ _ _ => exact absurd rfl (noClaim _)
    | findsNone _ _ => cases has
    | carries _ running _ => cases running
    | abandons leaves => cases leaves
  · split at moved
    · cases moved
      cases has
    · cases moved
  · cases moved
    cases has
  · cases moved
    cases has
  · exact .inr (record_of_execute moved has)

theorem row_payload {r' : Job} (run : Runs cfg t₀ .empty t s) (taken : step cfg s e = some s')
    (row : s.db.jobs.row j = some r) (row' : s'.db.jobs.row j = some r') :
    r'.payload = r.payload := by
  have change := row_step run taken row
  rw [row'] at change
  cases change <;> rfl

/-- A row, and a record whose handler has not ended, have the payload that was enqueued. -/
theorem recorded_of_run (run : Runs cfg t₀ .empty t s) : Recorded cfg t s := by
  refine run.invariant (P := Recorded cfg) ⟨?_, ?_⟩ ?_
  · intro j r row
    cases row
  · intro w job at_
    cases at_
  rintro t s e s' run ⟨rows, records⟩ taken
  refine ⟨fun j r' row' => ?_, fun w job at_ => ?_⟩
  · cases row : s.db.jobs.row j with
    | some r =>
        obtain ⟨body, posted, same⟩ := rows j r row
        rw [enqueued_old (SerialTable.lt_next row), row_payload run taken row row']
        exact ⟨body, posted, same⟩
    | none =>
        rw [step_db taken] at row'
        obtain ⟨body, commits, next, rfl⟩ := row_new row row'
        exact ⟨body, enqueued_insert commits next.symm, rfl⟩
  · cases worker_step taken w with
    | @moves act m now moved pc _ =>
        subst now
        rw [Sys.stages, pc] at at_
        rw [handlerLeft_own]
        rcases record_of_move moved at_ with
          ⟨plan, id, r, rfl, row, rfl⟩ | ⟨before, was, noClaim, rfl⟩
        · obtain ⟨body, posted, same⟩ := rows id r row
          exact ⟨body, (enqueued_old (SerialTable.lt_next row)).trans posted, same⟩
        · obtain ⟨body, posted, same⟩ := records w before was
          have old := (tracked_of_run run w before was).1
          refine ⟨body, (enqueued_old old).trans posted, ?_⟩
          cases act with
          | claim plan => exact absurd rfl (noClaim plan)
          | handlerEnds payload outcome => rfl
          | _ => exact same
    | stays other _ pc _ =>
        rw [Sys.stages, pc] at at_
        obtain ⟨body, posted, same⟩ := records w job at_
        have old := (tracked_of_run run w job at_).1
        rw [handlerLeft_other other]
        exact ⟨body, (enqueued_old old).trans posted, same⟩
    | spawns _ pc _ =>
        rw [Sys.stages, pc] at at_
        cases at_
    | dies _ pc _ =>
        rw [Sys.stages, pc] at at_
        cases at_

/-! ## Burials -/

/-- The burial of `j` is the last failure of a worker that executed it. -/
theorem bury_author (taken : step cfg s e = some s') {type error : String} {payload : Json}
    {attempts : ℕ} (commits : committed cfg s e = some (.bury j type payload error attempts w)) :
    ∃ job raised, e = .worker w (.handleFailure false) ∧ s.pc w = .failing job raised ∧
      job.id = j ∧ job.maxRetries ≤ job.attempt + 1 ∧ payload = payloadDict job.payload := by
  have sends := sends_of_committed taken commits rfl
  generalize same : Statement.bury j type payload error attempts w = st at sends
  cases sends with
  | @failed w' job raised at_ =>
      unfold handleFailure at same
      split at same
      · rename_i spent
        cases same
        exact ⟨job, raised, rfl, at_, rfl, spent, rfl⟩
      · cases same
  | _ => cases same

/-- The last failure of a worker that executed `j` is a burial. -/
theorem commits_bury {raised : PyError} (at_ : s.pc w = .failing job raised)
    (spent : job.maxRetries ≤ job.attempt + 1) :
    committed cfg s (.worker w (.handleFailure false)) =
      some (.bury job.id job.type (payloadDict job.payload) raised.text (job.attempt + 1) w) := by
  simp [committed, Sys.runWorker, runWorker, executeJob, at_, handleFailure, spent]

/-- The letters of `j` store what was enqueued, as long as every burial finds it intact. -/
theorem letters_given {given : Json} (dict : payloadDict given = given)
    (run : Runs cfg t₀ .empty t s) :
    (∀ body, enqueued cfg j t = some body → body.payload = given) →
      ((∀ d ∈ lettersOf s.db j, d.payload = given) ↔ EachStep (BuriesIntact j given) t) := by
  refine run.invariant (P := fun t s =>
    (∀ body, enqueued cfg j t = some body → body.payload = given) →
      ((∀ d ∈ lettersOf s.db j, d.payload = given) ↔ EachStep (BuriesIntact j given) t)) ?_ ?_
  · exact fun _ => iff_of_true (fun d member => by cases member) trivial
  intro t s e s' run ih taken posted'
  have posted (body : JobCreate) (had : enqueued cfg j t = some body) : body.payload = given :=
    posted' body ((enqueued_old (lt_next_of_enqueued run body had)).trans had)
  rw [step_db taken, EachStep, ← ih posted]
  by_cases buries : ∃ type payload error attempts w,
      committed cfg s e = some (.bury j type payload error attempts w)
  · obtain ⟨type, payload, error, attempts, w, commits⟩ := buries
    obtain ⟨job, raised, rfl, at_, rfl, spent, rfl⟩ := bury_author taken commits
    have has : (s.stages w).job? = some job := (StatusWrite.failed at_).job
    obtain ⟨body, had, stored⟩ := (recorded_of_run run).record w job has
    rw [posted body had] at stored
    rw [commits, lettersOf_bury, List.forall_mem_append, List.forall_mem_singleton, and_comm]
    refine and_congr_left' ?_
    constructor
    · intro same w' job' raised' now at' _ _ left was
      cases now
      rw [was, Option.getD_some] at stored
      rw [← stored]
      exact same
    · intro intact
      show payloadDict job.payload = given
      rw [stored]
      cases was : handlerLeft w t with
      | none => exact dict
      | some left => exact intact w job raised rfl at_ rfl spent left was
  · rw [lettersOf_commit fun type payload error attempts w commits =>
      buries ⟨type, payload, error, attempts, w, commits⟩]
    refine (and_iff_right ?_).symm
    rintro w job raised rfl at_ rfl spent
    exact absurd ⟨_, _, _, _, _, commits_bury at_ spent⟩ buries

end

/-- **Payloads of dead letters.**  In every run from empty tables the dead letters of a job
that was enqueued through `POST /jobs` store its payload, as enqueued and as in its row,
exactly if every burial of the job came after no handler, or after one that left the
contents of its payload object as they were. -/
theorem letters_preserve_iff (cfg : Config) (t₀ : Time) {t : History Sys Event} {s : Sys}
    (run : Runs cfg t₀ .empty t s) (j : JobId) (body : JobCreate)
    (fields : List (String × Json)) (posted : enqueued cfg j t = some body)
    (dict : body.payload = .obj fields) :
    (∀ d ∈ lettersOf s.db j,
        d.payload = body.payload ∧ ∀ r, s.db.jobs.row j = some r → d.payload = r.payload) ↔
      EachStep (BuriesIntact j body.payload) t := by
  have kept : payloadDict body.payload = body.payload := by
    rw [dict]
    rfl
  have given (body' : JobCreate) (had : enqueued cfg j t = some body') :
      body'.payload = body.payload := by
    cases posted.symm.trans had
    rfl
  rw [← letters_given kept run given]
  refine forall₂_congr fun d _ => and_iff_left_of_imp fun same r row => ?_
  obtain ⟨body', had, stored⟩ := (recorded_of_run run).row j r row
  rw [same, stored, given body' had]

/-- The empty object, the payload of `demoJob`. -/
def Json.isBare : Json → Bool
  | .obj [] => true
  | _ => false

theorem Json.isBare_iff {p : Json} : p.isBare = true ↔ p = .obj [] := by
  unfold Json.isBare
  split <;> simp_all

/-- A claim of job 1 whose handler leaves its payload object as `left` and raises. -/
def demoRaise (w : WorkerId) (left : Json) : List Event :=
  demoClaim w [1] (some 1) ++
    [.worker w (.markRunning false), .worker w .startHandler,
      .worker w (.handlerEnds left (.raises ⟨"ValueError", "bad"⟩)),
      .worker w (.handleFailure false), .worker w (.unlock false)]

/-- The first handler adds a key to its payload object; the second reads the row again, and
leaves its object alone. -/
theorem letters_preserve_reread :
    ∃ t s, Runs demo 0 .empty t s ∧ (lettersOf s.db 1).length = 1 ∧
      EachStep (BuriesIntact 1 (.obj [])) t := by
  obtain ⟨t, s, run, after⟩ := demo_run
    ([.createJob { demoJob with maxRetries := 2 }, .start 0, .worker ⟨0, 0⟩ (.connect true)] ++
      demoRaise ⟨0, 0⟩ (.obj [("seen", .bool true)]) ++ [.tick 5] ++ demoRaise ⟨0, 0⟩ (.obj []))
    (fun out =>
      (enqueued demo 1 out.1).any (fun body => body.payload.isBare) ∧
        (lettersOf out.2.db 1).length = 1 ∧
        (lettersOf out.2.db 1).all (fun d => d.payload.isBare) ∧
        (out.2.db.jobs.row 1).all fun r => r.payload.isBare)
    (by decide +kernel)
  simp only [Option.any_eq_true, Option.all_eq_true, List.all_eq_true, Json.isBare_iff,
    decide_eq_true_eq] at after
  obtain ⟨⟨body, posted, bare⟩, one, letters, row⟩ := after
  have intact := letters_preserve_iff demo 0 run 1 body [] posted bare
  rw [bare] at intact
  refine ⟨t, s, run, one, intact.1 fun d member => ⟨letters d member, fun r at_ => ?_⟩⟩
  rw [letters d member, row r at_]

/-- The handler of the only attempt adds a key to its payload object and raises: the
letter stores the key, the row does not have it. -/
theorem letters_preserve_shared :
    ∃ t s body r d, Runs demo 0 .empty t s ∧ enqueued demo 1 t = some body ∧
      body.payload = .obj [] ∧ s.db.jobs.row 1 = some r ∧ r.payload = body.payload ∧
      d ∈ lettersOf s.db 1 ∧ d.payload ≠ r.payload := by
  obtain ⟨t, s, run, after⟩ := demo_run
    ([.createJob { demoJob with maxRetries := 1 }, .start 0, .worker ⟨0, 0⟩ (.connect true)] ++
      demoRaise ⟨0, 0⟩ (.obj [("seen", .bool true)]))
    (fun out =>
      (enqueued demo 1 out.1).any (fun body => body.payload.isBare) ∧
        (out.2.db.jobs.row 1).any (fun r => r.payload.isBare) ∧
        (lettersOf out.2.db 1).any fun d => !d.payload.isBare)
    (by decide +kernel)
  simp only [Option.any_eq_true, List.any_eq_true, Json.isBare_iff, decide_eq_true_eq,
    Bool.not_eq_true', Bool.eq_false_iff, ne_eq] at after
  obtain ⟨⟨body, posted, bare⟩, ⟨r, row, kept⟩, d, member, other⟩ := after
  exact ⟨t, s, body, r, d, run, posted, bare, row, kept.trans bare.symm, member, kept ▸ other⟩

end TaskQueue
