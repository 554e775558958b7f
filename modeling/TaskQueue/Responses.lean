/-
# TaskQueue.Responses -- what a client sees of its job

`POST /jobs` answers with the row that it inserted and `GET /jobs/{id}` with the row as it
stands; both go through `_row_to_response`, whose model wants an object for the payload and an
object or null for the result.  Between the two answers the workers may have done anything.  Queries
that raise are those with an argument that asyncpg refuses, and in `get_job` any other.

* `get_after_post`: what every later GET has in common with the answer to the POST.
* `StoresDict` is the condition on a `'done'` UPDATE under which its row can be shown.
* `reads_answered_iff`: when no request for jobs whose queries are answered fails.
* `Job.Advanced` is what becomes of a row in a run, and `answers_advance` what a client that
  polls sees of it.
-/
import TaskQueue.Columns
import TaskQueue.Listing
import TaskQueue.Payloads

namespace TaskQueue

set_option autoImplicit false

open Transition

/-! ## The routes -/

/-- What `GET /jobs/{id}` answers. -/
inductive GetAnswer where
  | ok (job : JobResponse)
  | notFound (detail : String)
  /-- the query raises, or the response model rejects the row -/
  | internal

/-- asyncpg sends an id that is a BIGINT, as all are that the sequence has handed out. -/
def Db.sends (db : Db) (id : JobId) : Bool := id < db.jobs.next || id < 2 ^ 63

/-- `get_job`; its query raises on `none`, and on an id that asyncpg does not send. -/
def getJob (db : Option Db) (id : JobId) : GetAnswer :=
  match db with
  | none => .internal
  | some db =>
      if db.sends id then
        match db.jobs.row id with
        | none => .notFound ("Job " ++ toString id ++ " not found")
        | some r =>
            match rowToResponse (id, r) with
            | some job => .ok job
            | none => .internal
      else .internal

/-- What `create_job` answers when its INSERT has committed: `RETURNING *`. -/
def postAnswer (s : Sys) (body : JobCreate) : Option JobResponse :=
  rowToResponse (s.db.jobs.next, .ofCreate s.now body)

/-- `payload: Dict[str, Any]`. -/
def JobCreate.HasDict (body : JobCreate) : Prop := ∃ fields, body.payload = .obj fields

/-- Every request passed the validation of its payload. -/
def ValidRequests (t : History Sys Event) : Prop :=
  EachStep (fun _ _ e => ∀ body, e = .createJob body → body.HasDict) t

/-- If the step stores a result in a row, that is an object or null. -/
def StoresDict (_ : History Sys Event) (s : Sys) (e : Event) : Prop :=
  ∀ w job value, e = .worker w (.storeDone none) → s.pc w = .storing job (.storable value) →
    (s.db.jobs.row job.id).isSome → (optionalDict value).isSome

section

variable {cfg : Config} {t₀ : Time} {t : History Sys Event} {s s' : Sys} {e : Event} {j : JobId}
  {r r' : Job}

/-! ## One INSERT for each job -/

theorem posted_cons {body : JobCreate} {at_ : Time} :
    PostedAt cfg j body at_ ((s, e) :: t) ↔
      (committed cfg s e = some (.insertJob body) ∧ s.db.jobs.next = j ∧ s.now = at_) ∨
        PostedAt cfg j body at_ t := by
  simp [PostedAt]

theorem lt_next_of_posted (run : Runs cfg t₀ .empty t s) {body : JobCreate} {at_ : Time} :
    PostedAt cfg j body at_ t → j < s.db.jobs.next := by
  refine run.invariant (P := fun t s => PostedAt cfg j body at_ t → j < s.db.jobs.next) ?_ ?_
  · rintro ⟨x, member, -⟩
    cases member
  intro t s e s' _ ih taken posted
  rw [step_db taken]
  rcases posted_cons.1 posted with ⟨commits, rfl, -⟩ | before
  · simp [commits, Db.commit, Db.exec]
  · exact Nat.lt_of_lt_of_le (ih before) (next_commit _ _ _)

/-- A job is inserted once, with one body and at one time. -/
theorem posted_unique (run : Runs cfg t₀ .empty t s) {body : JobCreate} {at_ : Time} :
    PostedAt cfg j body at_ t →
      enqueued cfg j t = some body ∧
        ∀ body' at_', PostedAt cfg j body' at_' t → body' = body ∧ at_' = at_ := by
  refine run.invariant (P := fun t s => PostedAt cfg j body at_ t →
    enqueued cfg j t = some body ∧
      ∀ body' at_', PostedAt cfg j body' at_' t → body' = body ∧ at_' = at_) ?_ ?_
  · rintro ⟨x, member, -⟩
    cases member
  intro t s e s' run ih taken posted
  rcases posted_cons.1 posted with ⟨commits, rfl, rfl⟩ | before
  · refine ⟨enqueued_insert commits rfl, fun body' at_' again => ?_⟩
    rcases posted_cons.1 again with ⟨commits', -, rfl⟩ | before'
    · cases commits.symm.trans commits'
      exact ⟨rfl, rfl⟩
    · exact absurd (lt_next_of_posted run before') (Nat.lt_irrefl _)
  · have old := lt_next_of_posted run before
    obtain ⟨had, unique⟩ := ih before
    refine ⟨(enqueued_old old).trans had, fun body' at_' again => ?_⟩
    rcases posted_cons.1 again with ⟨-, next, -⟩ | before'
    · exact absurd next (Nat.ne_of_gt old)
    · exact unique body' at_' before'

/-- Only a POST inserts a job. -/
theorem insert_event {body : JobCreate} (commits : committed cfg s e = some (.insertJob body)) :
    e = .createJob body := by
  cases e with
  | worker w act =>
      simp only [committed, Option.bind_eq_some_iff] at commits
      obtain ⟨m, moved, sends⟩ := commits
      cases (Sys.advance moved).byWorker sends
  | heartbeat w act => cases act <;> cases commits
  | reaper p act => cases act <;> cases commits
  | createJob body' =>
      cases commits
      rfl
  | cancelJob id => cases (cancelJob_statement commits).1
  | _ => cases commits

theorem posted_of_member {a : Sys} {body : JobCreate} (member : (a, .createJob body) ∈ t) :
    PostedAt cfg a.db.jobs.next body a.now t :=
  ⟨_, member, rfl, rfl, rfl⟩

theorem sends_of_old {db : Db} {id : JobId} (old : id < db.jobs.next) : db.sends id = true := by
  simp [Db.sends, old]

/-- `GET /jobs/{id}` of a job with a row. -/
theorem getJob_of_row {db : Db} {id : JobId} (row : db.jobs.row id = some r) :
    getJob (some db) id = ((rowToResponse (id, r)).map GetAnswer.ok).getD .internal := by
  simp only [getJob, sends_of_old (SerialTable.lt_next row), if_true, row]
  cases rowToResponse (id, r) <;> rfl

theorem getJob_of_absent {db : Db} {id : JobId} (sent : db.sends id = true)
    (absent : db.jobs.row id = none) :
    getJob (some db) id = .notFound ("Job " ++ toString id ++ " not found") := by
  simp [getJob, sent, absent]

theorem getJob_notFound {db : Db} {id : JobId} {detail : String}
    (answer : getJob (some db) id = .notFound detail) :
    db.sends id = true ∧ db.jobs.row id = none := by
  by_cases sent : db.sends id = true
  · refine ⟨sent, ?_⟩
    cases row : db.jobs.row id with
    | none => rfl
    | some r =>
        rw [getJob_of_row row] at answer
        cases shown : rowToResponse (id, r) <;> simp [shown] at answer
  · simp [getJob, sent] at answer

theorem getJob_internal_iff {db : Db} {id : JobId} (sent : db.sends id = true) :
    getJob (some db) id = .internal ↔
      ∃ r, db.jobs.row id = some r ∧ ¬ (rowToResponse (id, r)).isSome := by
  cases row : db.jobs.row id with
  | none => simp [getJob_of_absent sent row]
  | some r =>
      rw [getJob_of_row row]
      cases shown : rowToResponse (id, r) <;> simp [shown]

theorem getJob_ok {db : Db} {id : JobId} {x : JobResponse}
    (answer : getJob (some db) id = .ok x) :
    ∃ r, db.jobs.row id = some r ∧ rowToResponse (id, r) = some x := by
  cases row : db.jobs.row id with
  | none =>
      by_cases sent : db.sends id = true
      · simp [getJob_of_absent sent row] at answer
      · simp [getJob, sent] at answer
  | some r =>
      rw [getJob_of_row row] at answer
      cases shown : rowToResponse (id, r) with
      | none => simp [shown] at answer
      | some y =>
          simp only [shown, Option.map_some, Option.getD_some, GetAnswer.ok.injEq] at answer
          exact ⟨r, rfl, shown.trans (congrArg some answer)⟩

/-- The columns of the request, in the answer. -/
theorem rowToResponse_columns {x : JobResponse} (shown : rowToResponse (j, r) = some x) :
    x.id = j ∧ x.type = r.type ∧ r.payload.orEmpty.dict? = some x.payload ∧
      x.priority = r.priority ∧ x.maxRetries = r.maxRetries ∧ x.createdAt = r.createdAt := by
  unfold rowToResponse at shown
  split at shown
  · rename_i payload result dict _
    cases shown
    exact ⟨rfl, rfl, dict, rfl, rfl, rfl⟩
  · cases shown

/-! ## When the rows can be shown -/

theorem shown_iff :
    (rowToResponse (j, r)).isSome ↔
      (r.payload.orEmpty.dict?).isSome ∧ (optionalDict r.result).isSome := by
  unfold rowToResponse
  cases r.payload.orEmpty.dict? <;> cases optionalDict r.result <;> simp

/-- The payload of a validated request can be shown. -/
theorem payload_shown (run : Runs cfg t₀ .empty t s) (valid : ValidRequests t)
    (row : s.db.jobs.row j = some r) : (r.payload.orEmpty.dict?).isSome := by
  obtain ⟨body, at_, -, posted, same⟩ := posted_of_row run j r row
  obtain ⟨⟨a, e⟩, member, commits, -, -⟩ := posted
  obtain ⟨-, check⟩ := valid.of_mem member
  obtain ⟨fields, dict⟩ := check body (insert_event commits)
  rw [same.payload, dict]
  rfl

/-- A row with a result that cannot be shown keeps it. -/
theorem result_kept (run : Runs cfg t₀ .empty t s) (taken : step cfg s e = some s')
    (row : s.db.jobs.row j = some r) (result : r.result ≠ none) :
    s'.db.jobs.row j = some r :=
  final_step run taken row (.inl ((consistent_of_run run j r row).result result))

/-- What a step does to the results: the row keeps its own, or the step stores another. -/
theorem result_step (run : Runs cfg t₀ .empty t s) (taken : step cfg s e = some s')
    (row : s.db.jobs.row j = some r) (row' : s'.db.jobs.row j = some r') :
    r'.result = r.result ∨
      ∃ w job value, e = .worker w (.storeDone none) ∧ s.pc w = .storing job (.storable value) ∧
        job.id = j ∧ r'.result = value := by
  have change := row_step run taken row
  rw [row'] at change
  cases change with
  | @succeeds w job value commits _ _ _ =>
      right
      have sends := sends_of_committed taken commits rfl
      generalize same : Statement.storeDone value w j = st at sends
      cases sends with
      | @done w' job' value' at_ =>
          obtain ⟨rfl, rfl, rfl⟩ : value = value' ∧ w = w' ∧ j = job'.id := by simpa using same
          exact ⟨w, job', value, rfl, at_, rfl, rfl⟩
      | failed at_ =>
          unfold handleFailure at same
          split at same <;> cases same
      | _ => cases same
  | _ => exact .inl rfl

/-- Storing a result in a row that is there puts it there. -/
theorem result_of_store (taken : step cfg s e = some s') {w : WorkerId} {job : Record}
    {value : Option Json} (stores : e = .worker w (.storeDone none))
    (at_ : s.pc w = .storing job (.storable value)) (there : (s.db.jobs.row job.id).isSome) :
    ∃ r', s'.db.jobs.row job.id = some r' ∧ r'.result = value := by
  obtain ⟨r, row⟩ := Option.isSome_iff_exists.1 there
  have commits : committed cfg s e = some (.storeDone value w job.id) := by
    rw [stores]
    simp [committed, Sys.runWorker, runWorker, executeJob, at_]
  refine ⟨r.setDone s.now value w, ?_, rfl⟩
  rw [step_db taken, row_commit _ row, commits]
  simp [rowAfter, Statement.onRow]

/-- Every result can be shown exactly if every stored one could. -/
theorem results_shown_iff (run : Runs cfg t₀ .empty t s) :
    (∀ j r, s.db.jobs.row j = some r → (optionalDict r.result).isSome) ↔
      EachStep StoresDict t := by
  refine run.invariant (P := fun t s =>
    (∀ j r, s.db.jobs.row j = some r → (optionalDict r.result).isSome) ↔
      EachStep StoresDict t) ?_ ?_
  · refine iff_of_true (fun j r row => ?_) trivial
    cases row
  intro t s e s' run ih taken
  rw [EachStep, ← ih]
  constructor
  · intro shown'
    refine ⟨fun w job value stores at_ there => ?_, fun j r row => ?_⟩
    · obtain ⟨r', row', result⟩ := result_of_store taken stores at_ there
      rw [← result]
      exact shown' job.id r' row'
    · by_cases blank : r.result = none
      · rw [blank]
        rfl
      · exact shown' j r (result_kept run taken row blank)
  · rintro ⟨stores, shown⟩ j r' row'
    cases row : s.db.jobs.row j with
    | none =>
        rw [step_db taken] at row'
        obtain ⟨body, -, -, rfl⟩ := row_new row row'
        rfl
    | some r =>
        rcases result_step run taken row row' with same | ⟨w, job, value, now, at_, rfl, same⟩
        · rw [same]
          exact shown j r row
        · rw [same]
          exact stores w job value now at_ (by rw [row]; rfl)

/-- Requests for a list of rows that can be shown are answered. -/
theorem listJobs_answered {repr : String → String} {takes : Param → Bool} {db : Db}
    {f : JobFilters} (nonEmpty : f.NonEmpty)
    (shown : ∀ x ∈ matching db f, (rowToResponse x).isSome)
    (arrange : Paging.Arrangement createdAt) {limit : PageLimit} {offset : ℕ}
    (taken : TakesAll takes f limit offset) :
    listJobs repr takes db arrange f limit offset ≠ .error .internal := by
  by_cases accepted : ∀ s ∈ f.status, s ∈ validStatuses
  · have page (x : JobId × Job)
        (member : x ∈ ((arrange.order (matching db f)).drop offset).take limit) :
        (rowToResponse x).isSome :=
      shown x ((arrange.arranges _).perm.subset
        (List.mem_of_mem_drop (List.mem_of_mem_take member)))
    obtain ⟨items, page⟩ := exists_items page
    have answer : listJobs repr takes db arrange f limit offset =
        .ok { items, total := (matching db f).length, limit, offset } :=
      (listJobs_ok_iff nonEmpty).2 ⟨accepted, taken, page, rfl, rfl, rfl⟩
    rw [answer]
    simp
  · obtain ⟨s, given, unknown⟩ : ∃ s, f.status = some s ∧ s ∉ validStatuses := by
      simpa using accepted
    have status : truthy f.status = some s := (truthy_of_ne nonEmpty.1).trans given
    simp [listJobs, status, unknown]

end

/-- **GET after POST.**  In every run from empty tables, once `POST /jobs` was answered with a
row, `GET /jobs/{id}` of its id answers 404 exactly if a cancellation deleted the job, and
every row that it answers with has the id, type, payload, priority, budget and creation time
of the first answer, whatever workers and reapers did in between. -/
theorem get_after_post (cfg : Config) (t₀ : Time) {t : History Sys Event} {s : Sys}
    (run : Runs cfg t₀ .empty t s) (a : Sys) (body : JobCreate) (y : JobResponse)
    (posted : (a, .createJob body) ∈ t) (answered : postAnswer a body = some y) :
    (getJob (some s.db) y.id = .notFound ("Job " ++ toString y.id ++ " not found") ↔
        Cancelled cfg y.id t) ∧
      ∀ x, getJob (some s.db) y.id = .ok x →
        x.id = y.id ∧ x.type = y.type ∧ x.payload = y.payload ∧ x.priority = y.priority ∧
          x.maxRetries = y.maxRetries ∧ x.createdAt = y.createdAt := by
  have first : PostedAt cfg a.db.jobs.next body a.now t := posted_of_member posted
  obtain ⟨id_, type, payload, priority, budget, created⟩ := rowToResponse_columns answered
  rw [id_]
  constructor
  · have had : enqueued cfg a.db.jobs.next t = some body := (posted_unique run first).1
    have kept := row_iff_kept run a.db.jobs.next
    rw [and_iff_right ⟨body, had⟩, ← Option.isSome_iff_exists, ← Option.ne_none_iff_isSome] at kept
    rw [← not_iff_not.1 kept]
    refine ⟨fun answer => (getJob_notFound answer).2, fun gone => ?_⟩
    exact getJob_of_absent (sends_of_old (lt_next_of_posted run first)) gone
  · intro x answer
    obtain ⟨r, row, shown⟩ := getJob_ok answer
    obtain ⟨body', at_', -, posted', same⟩ := posted_of_row run _ r row
    obtain ⟨rfl, rfl⟩ := (posted_unique run first).2 _ _ posted'
    obtain ⟨id', type', payload', priority', budget', created'⟩ := rowToResponse_columns shown
    refine ⟨id', ?_, ?_, ?_, ?_, ?_⟩
    · rw [type', same.type, type]
      rfl
    · rw [same.payload] at payload'
      exact Option.some.inj (payload'.symm.trans payload)
    · rw [priority', same.priority, priority]
      rfl
    · rw [budget', same.maxRetries, budget]
      rfl
    · rw [created', same.createdAt, created]
      rfl

/-- The request for `demoJob`, from empty tables. -/
def demoPost : History Sys Event := [(.boot 0 .empty, .createJob demoJob)]

def demoPosted : Sys := (step demo (.boot 0 .empty) (.createJob demoJob)).getD (.boot 0 .empty)

/-- The GET of a job that a worker has done. -/
theorem get_after_post_done :
    ∃ t s y x, Runs demo 0 .empty t s ∧ postAnswer (.boot 0 .empty) demoJob = some y ∧
      getJob (some s.db) y.id = .ok x ∧ x.payload = y.payload ∧ x.createdAt = y.createdAt ∧
      ¬ Cancelled demo y.id t := by
  have posted : Runs demo 0 .empty demoPost demoPosted := .snoc .nil rfl
  have replayed : (exec (step demo) [] demoPosted
      ([.start 0, .worker ⟨0, 0⟩ (.connect true)] ++ demoClaim ⟨0, 0⟩ [1] (some 1) ++
        demoDone ⟨0, 0⟩)).any (fun out => (out.2.db.jobs.row 1).any fun r =>
          r.status = .done ∧ r.payload.isBare ∧ r.result.isNone) = true := by
    decide +kernel
  obtain ⟨u, s, run, after⟩ := run_of_exec _ _ replayed
  simp only [Option.any_eq_true, decide_eq_true_eq, Json.isBare_iff,
    Option.isNone_iff_eq_none] at after
  obtain ⟨r, row, -, bare, blank⟩ := after
  obtain ⟨y, answer⟩ : ∃ y, postAnswer (.boot 0 .empty) demoJob = some y := ⟨_, rfl⟩
  obtain ⟨x, shown⟩ := Option.isSome_iff_exists.1
    ((shown_iff (j := 1) (r := r)).2 ⟨by rw [bare]; rfl, by rw [blank]; rfl⟩)
  obtain ⟨gone, same⟩ := get_after_post demo 0 (posted.append run) (.boot 0 .empty) demoJob y
    (List.mem_append_right u List.mem_cons_self) answer
  cases answer
  have found : getJob (some s.db) 1 = .ok x := by
    rw [getJob_of_row row, shown]
    rfl
  obtain ⟨-, -, payload, -, -, created⟩ := same x found
  refine ⟨_, s, _, x, posted.append run, rfl, found, payload, created, fun cancelled => ?_⟩
  cases (getJob_notFound (gone.2 cancelled)).2.symm.trans row

/-- **When no request for jobs fails.**  In every run from empty tables whose requests passed
validation, every GET of a job and of every list whose queries take their arguments is answered
other than by an internal error exactly if every `'done'` UPDATE that reached a row stored an
object or null in it: one other result breaks the answers for good. -/
theorem reads_answered_iff (cfg : Config) (t₀ : Time) {t : History Sys Event} {s : Sys}
    (run : Runs cfg t₀ .empty t s) (valid : ValidRequests t) :
    ((∀ j, s.db.sends j = true → getJob (some s.db) j ≠ .internal) ∧
        ∀ repr takes f arrange limit offset, JobFilters.NonEmpty f → TakesAll takes f limit offset →
          listJobs repr takes s.db arrange f limit offset ≠ .error .internal) ↔
      EachStep StoresDict t := by
  rw [← results_shown_iff run]
  have shown (j : JobId) (r : Job) (row : s.db.jobs.row j = some r) :
      (rowToResponse (j, r)).isSome ↔ (optionalDict r.result).isSome := by
    rw [shown_iff, and_iff_right (payload_shown run valid row)]
  constructor
  · rintro ⟨gets, -⟩ j r row
    rw [← shown j r row]
    by_contra hidden
    have sent := sends_of_old (SerialTable.lt_next row)
    exact gets j sent ((getJob_internal_iff sent).2 ⟨r, row, hidden⟩)
  · intro results
    refine ⟨fun j sent fails => ?_, fun repr takes f arrange limit offset nonEmpty taken => ?_⟩
    · obtain ⟨r, row, hidden⟩ := (getJob_internal_iff sent).1 fails
      exact hidden ((shown j r row).2 (results j r row))
    · refine listJobs_answered nonEmpty (fun x member => ?_) arrange taken
      obtain ⟨j, r⟩ := x
      have row := SerialTable.mem_entries.1 (List.mem_of_mem_filter member)
      exact (shown j r row).2 (results j r row)

/-- Every request of the history asks with an empty payload. -/
def allBare (t : History Sys Event) : Bool :=
  t.all fun x =>
    match x.2 with
    | .createJob body => body.payload.isBare
    | _ => true

theorem valid_of_allBare {t : History Sys Event} (all : allBare t = true) : ValidRequests t := by
  induction t with
  | nil => trivial
  | cons x t ih =>
      obtain ⟨s, e⟩ := x
      simp only [allBare, List.all_cons, Bool.and_eq_true] at all
      refine ⟨?_, ih all.2⟩
      rintro body rfl
      exact ⟨[], Json.isBare_iff.1 all.1⟩

/-- A handler that returns a list makes the GET of its job fail. -/
theorem reads_answered_iff_list :
    ∃ t s, Runs demo 0 .empty t s ∧ getJob (some s.db) 1 = .internal ∧
      ¬ EachStep StoresDict t := by
  obtain ⟨t, s, run, after⟩ := demo_run
    ([.createJob demoJob, .start 0, .worker ⟨0, 0⟩ (.connect true)] ++
      demoClaim ⟨0, 0⟩ [1] (some 1) ++
      [.worker ⟨0, 0⟩ (.markRunning false), .worker ⟨0, 0⟩ .startHandler,
        .worker ⟨0, 0⟩ (.handlerEnds (.obj []) (.returns (.storable (some (.arr []))))),
        .worker ⟨0, 0⟩ (.storeDone none)])
    (fun out => allBare out.1 &&
      (out.2.db.jobs.row 1).any fun r => (optionalDict r.result).isNone) (by decide +kernel)
  simp only [Bool.and_eq_true, Option.any_eq_true] at after
  obtain ⟨bare, r, row, hidden⟩ := after
  have sent : s.db.sends 1 = true := sends_of_old (SerialTable.lt_next row)
  have fails : getJob (some s.db) 1 = .internal := by
    refine (getJob_internal_iff sent).2 ⟨r, row, fun shown => ?_⟩
    have dict := (shown_iff.1 shown).2
    rw [Option.isNone_iff_eq_none.1 hidden] at dict
    cases dict
  refine ⟨t, s, run, fails, fun stores => ?_⟩
  exact ((reads_answered_iff demo 0 run (valid_of_allBare bare)).2 stores).1 1 sent fails

/-! ## Two answers, one after the other -/

/-- What becomes of a row while `n` outcomes of its job are written: without one only the status,
the worker and the times of claim and heartbeat change. -/
structure Job.Advanced (n : ℕ) (r r' : Job) : Prop where
  attempt : r'.attempt = r.attempt + n
  between : n = 0 → r'.runAt = r.runAt ∧ r'.error = r.error ∧ r'.result = r.result ∧
    r'.completedAt = r.completedAt

section

variable {cfg : Config} {t₀ : Time} {t u : History Sys Event} {s s' : Sys} {e : Event} {j : JobId}
  {r r' r'' : Job} {m n : ℕ}

theorem Job.Advanced.refl (r : Job) : r.Advanced 0 r where
  attempt := rfl
  between _ := ⟨rfl, rfl, rfl, rfl⟩

theorem Job.Advanced.trans (first : r.Advanced m r') (second : r'.Advanced n r'') :
    r.Advanced (m + n) r'' where
  attempt := by rw [second.attempt, first.attempt, Nat.add_assoc]
  between none_ := by
    obtain ⟨runAt, error, result, completed⟩ := first.between (by omega)
    obtain ⟨runAt', error', result', completed'⟩ := second.between (by omega)
    exact ⟨runAt'.trans runAt, error'.trans error, result'.trans result,
      completed'.trans completed⟩

/-- One step, which writes an outcome or not. -/
theorem advanced_step (run : Runs cfg t₀ .empty t s) (taken : step cfg s e = some s')
    (row : s.db.jobs.row j = some r) (row' : s'.db.jobs.row j = some r') :
    r.Advanced (outcomes cfg j [(s, e)]).length r' := by
  have change := row_step run taken row
  rw [row'] at change
  -- a statement without an outcome, and one with one
  have quiet {r' : Job} (none_ : decided cfg s e j = none) (same : r.Advanced 0 r') :
      r.Advanced (outcomes cfg j [(s, e)]).length r' := by
    rw [outcomes_skip none_]
    exact same
  have writes {r' : Job} {o : RetryBudget.Outcome} (some_ : decided cfg s e j = some o)
      (more : r'.attempt = r.attempt + 1) : r.Advanced (outcomes cfg j [(s, e)]).length r' := by
    rw [outcomes_cons row some_]
    exact ⟨more, fun none_ => by cases none_⟩
  cases change with
  | keeps undecided _ => exact quiet undecided (.refl r)
  | claims commits _ => exact quiet (decided_none commits rfl) ⟨rfl, fun _ => ⟨rfl, rfl, rfl, rfl⟩⟩
  | marks commits _ _ _ =>
      exact quiet (decided_none commits rfl) ⟨rfl, fun _ => ⟨rfl, rfl, rfl, rfl⟩⟩
  | beats commits _ _ => exact quiet (decided_none commits rfl) ⟨rfl, fun _ => ⟨rfl, rfl, rfl, rfl⟩⟩
  | reclaims commits _ =>
      exact quiet (decided_none commits rfl) ⟨rfl, fun _ => ⟨rfl, rfl, rfl, rfl⟩⟩
  | succeeds commits _ _ _ => exact writes (decided_some commits rfl) rfl
  | dies commits _ _ _ _ => exact writes (decided_some commits rfl) rfl
  | retries commits _ _ _ _ => exact writes (decided_some commits rfl) rfl

theorem length_outcomes_cons :
    (outcomes cfg j ((s, e) :: u)).length =
      (outcomes cfg j u).length + (outcomes cfg j [(s, e)]).length := by
  cases row : s.db.jobs.row j with
  | none => rw [outcomes_absent row, outcomes_absent row, outcomes, List.length_nil, Nat.add_zero]
  | some r =>
      cases writes : decided cfg s e j with
      | none =>
          rw [outcomes_skip writes, outcomes_skip writes, outcomes, List.length_nil, Nat.add_zero]
      | some o => rw [outcomes_cons row writes, outcomes_cons row writes, outcomes]; rfl

/-- Ids are handed out once. -/
theorem next_run (rest : Run (step cfg) s u s') : s.db.jobs.next ≤ s'.db.jobs.next := by
  induction rest with
  | nil => exact Nat.le_refl _
  | snoc _ taken ih =>
      rw [step_db taken]
      exact Nat.le_trans ih (next_commit _ _ _)

/-- A job that was handed out and has no row never has one again. -/
theorem absent_run (old : j < s.db.jobs.next) (gone : s.db.jobs.row j = none)
    (rest : Run (step cfg) s u s') : s'.db.jobs.row j = none := by
  induction rest with
  | nil => exact gone
  | snoc before taken ih =>
      rw [step_db taken]
      exact row_commit_none _ ih (Nat.lt_of_lt_of_le old (next_run before))

/-- What becomes of a row in a run that leaves it there. -/
theorem advanced_run (run : Runs cfg t₀ .empty t s) (row : s.db.jobs.row j = some r)
    (rest : Run (step cfg) s u s') :
    ∀ {r'}, s'.db.jobs.row j = some r' → r.Advanced (outcomes cfg j u).length r' := by
  induction rest with
  | nil =>
      intro r' row'
      cases row.symm.trans row'
      exact .refl r
  | @snoc u a a' e before taken ih =>
      intro r' row'
      cases middle : a.db.jobs.row j with
      | none =>
          have old := Nat.lt_of_lt_of_le (SerialTable.lt_next row) (next_run before)
          cases (absent_run old middle (.single taken)).symm.trans row'
      | some _ =>
          rw [length_outcomes_cons]
          exact (ih middle).trans (advanced_step (run.append before) taken middle row')

/-- The columns that the workers write, in the answer. -/
theorem rowToResponse_progress {x : JobResponse} (shown : rowToResponse (j, r) = some x) :
    x.status = r.status ∧ x.attempt = r.attempt ∧ x.runAt = r.runAt ∧ x.error = r.error ∧
      optionalDict r.result = some x.result ∧ x.completedAt = r.completedAt := by
  unfold rowToResponse at shown
  split at shown
  · rename_i payload result _ dict
    cases shown
    exact ⟨rfl, rfl, rfl, rfl, dict, rfl⟩
  · cases shown

end

/-- **A client that polls never sees its job go back.**  Of two GETs of a job that was enqueued
whose queries are answered, in every run (where a statement that raises has no effect) and
whatever is claimed, swept or retried in between: after a 404 there are only 404s; after an
answer that is done or dead there is only that answer; a row that the response model rejects,
where the requests were valid, is rejected ever after; and otherwise the attempts have grown by
the number of outcomes that were written in between, and if there was none the earliest time,
the error, the result and the time of completion are the same. -/
theorem answers_advance (cfg : Config) (t₀ : Time) {t u : History Sys Event} {s s' : Sys}
    (run : Runs cfg t₀ .empty t s) (rest : Run (step cfg) s u s') (j : JobId)
    (old : j < s.db.jobs.next) :
    (∀ detail, getJob (some s.db) j = .notFound detail →
        getJob (some s'.db) j = .notFound detail) ∧
      (ValidRequests t → ∀ r, s.db.jobs.row j = some r → rowToResponse (j, r) = none →
        getJob (some s'.db) j = .internal) ∧
      ∀ y, getJob (some s.db) j = .ok y →
        ((y.status = .done ∨ y.status = .dead) → getJob (some s'.db) j = .ok y) ∧
          ∀ x, getJob (some s'.db) j = .ok x →
            x.attempt = y.attempt + (outcomes cfg j u).length ∧
              (x.attempt = y.attempt → x.runAt = y.runAt ∧ x.error = y.error ∧
                x.result = y.result ∧ x.completedAt = y.completedAt) := by
  refine ⟨fun detail gone => ?_, fun valid r row rejected => ?_,
    fun y answer => ⟨fun final => ?_, ?_⟩⟩
  · have absent := (getJob_notFound gone).2
    rw [getJob_of_absent (sends_of_old old) absent] at gone
    have sent := sends_of_old (Nat.lt_of_lt_of_le old (next_run rest))
    rw [getJob_of_absent sent (absent_run old absent rest)]
    exact gone
  · -- the payload can be shown, so there is a result, and the row is final
    have result : r.result ≠ none := by
      intro blank
      have shown := (shown_iff (j := j)).2 ⟨payload_shown run valid row, by rw [blank]; rfl⟩
      rw [rejected] at shown
      cases shown
    have done := (consistent_of_run run j r row).result result
    rw [getJob_of_row (final_run run row (.inl done) rest), rejected]
    rfl
  · obtain ⟨r, row, shown⟩ := getJob_ok answer
    rw [(rowToResponse_progress shown).1] at final
    rw [getJob_of_row (final_run run row final rest), ← getJob_of_row row]
    exact answer
  · intro x later
    obtain ⟨r, row, shown⟩ := getJob_ok answer
    obtain ⟨r', row', shown'⟩ := getJob_ok later
    obtain ⟨-, attempt, runAt, error, result, completed⟩ := rowToResponse_progress shown
    obtain ⟨-, attempt', runAt', error', result', completed'⟩ := rowToResponse_progress shown'
    have advanced := advanced_run run row rest row'
    rw [attempt, attempt', runAt, runAt', error, error', completed, completed']
    refine ⟨advanced.attempt, fun same => ?_⟩
    obtain ⟨sameRunAt, sameError, sameResult, sameCompleted⟩ := advanced.between (by
      have more := advanced.attempt
      omega)
    rw [sameResult, result] at result'
    exact ⟨sameRunAt, sameError, (Option.some.inj result').symm, sameCompleted⟩

/-- The GETs of a job after its POST and when a worker has done it. -/
theorem answers_advance_done :
    ∃ u s' y x, Run (step demo) demoPosted u s' ∧ getJob (some demoPosted.db) 1 = .ok y ∧
      getJob (some s'.db) 1 = .ok x ∧ x.attempt = y.attempt + 1 := by
  have posted : Runs demo 0 .empty demoPost demoPosted := .snoc .nil rfl
  have replayed : (exec (step demo) [] demoPosted
      ([.start 0, .worker ⟨0, 0⟩ (.connect true)] ++ demoClaim ⟨0, 0⟩ [1] (some 1) ++
        demoDone ⟨0, 0⟩)).any (fun out => (outcomes demo 1 out.1).length = 1 &&
          (out.2.db.jobs.row 1).any fun r => r.payload.isBare ∧ r.result.isNone) = true := by
    decide +kernel
  obtain ⟨u, s', run, after⟩ := run_of_exec _ _ replayed
  simp only [Bool.and_eq_true, Option.any_eq_true, decide_eq_true_eq, Json.isBare_iff,
    Option.isNone_iff_eq_none] at after
  obtain ⟨one, r, row, bare, blank⟩ := after
  obtain ⟨x, shown⟩ := Option.isSome_iff_exists.1
    ((shown_iff (j := 1) (r := r)).2 ⟨by rw [bare]; rfl, by rw [blank]; rfl⟩)
  have later : getJob (some s'.db) 1 = .ok x := by
    rw [getJob_of_row row, shown]
    rfl
  obtain ⟨y, first⟩ : ∃ y, getJob (some demoPosted.db) 1 = .ok y := ⟨_, rfl⟩
  obtain ⟨-, -, answers⟩ := answers_advance demo 0 posted run 1 (by decide)
  have attempt := ((answers y first).2 x later).1
  rw [one] at attempt
  exact ⟨u, s', y, x, run, first, later, attempt⟩

end TaskQueue
