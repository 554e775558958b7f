/-
# TaskQueue.Enqueueing -- many clients at once

Both benchmarks post their jobs from one task a job, all started at once, behind an
`asyncio.Semaphore`: `_enqueue_batch` of `load.py` appends the id of its answer to a list that
the tasks share, `_enqueue` of `math_benchmark.py` writes its answer to a slot of its own and
counts the errors.  Between the POST and its answer anything may happen: the other tasks, the
workers, other clients; an answer may get lost, and a request that the client has given up may
still arrive.

* `clientStep` is one step of a task, or of anyone else; `serverSide` is what a run of it is for
  the system.
* `Linked` is what is known of the answers that the tasks have.
* `enqueue_phase_complete`, `enqueue_batch_answers`: what the two clients return.
* `enqueue_finishes_iff`: when they can.
-/
import TaskQueue.BenchmarkRun
import TaskQueue.Lib.Gather
import TaskQueue.Lib.Ranking

namespace TaskQueue

set_option autoImplicit false

open Transition

/-- Where the request of a task is that holds a permit. -/
inductive Request where
  | sending
  /-- the INSERT has committed; `none` is an internal error -/
  | answered (answer : Option JobResponse)

/-- The INSERT commits. -/
def Request.post (answer : Option JobResponse) : Request → Option Request
  | .sending => some (.answered answer)
  | .answered _ => none

/-- A 201 arrives. -/
def Request.succeed : Request → Option (Option JobResponse)
  | .answered (some y) => some (some y)
  | _ => none

/-- An error status, a lost connection or a timeout. -/
def Request.fail : Request → Option (Option JobResponse) := fun _ => some none

/-- The tasks of a client, and what they share. -/
structure Client (M : Type) where
  tasks : Gather Request (Option JobResponse)
  shared : M

inductive TaskAct where
  | enter
  | post
  | succeed
  | fail
  deriving DecidableEq

inductive ClientEvent where
  | task (i : ℕ) (act : TaskAct)
  /-- anyone else -/
  | system (e : Event)

section

variable {M : Type} (cfg : Config) (bodies : List JobCreate)
  (record : ℕ → Option JobResponse → M → M)

/-- One step of task `i`, which posts body `i`, or of anyone else. -/
def clientStep : Sys × Client M → ClientEvent → Option (Sys × Client M)
  | (s, c), .system e => (step cfg s e).map fun s' => (s', c)
  | (s, c), .task i act =>
      bodies[i]?.bind fun body =>
        match act with
        | .enter => (c.tasks.acquire i .sending).map fun tasks => (s, { c with tasks })
        | .post =>
            (c.tasks.advance i (Request.post (postAnswer s body))).bind fun tasks =>
              (step cfg s (.createJob body)).map fun s' => (s', { c with tasks })
        | .succeed =>
            (c.tasks.finish i Request.succeed).map fun x => (s, ⟨x.2, record i x.1 c.shared⟩)
        | .fail =>
            (c.tasks.finish i Request.fail).map fun x => (s, ⟨x.2, record i x.1 c.shared⟩)

/-- What one step of a client's run is for the system. -/
def serverEvent : ClientEvent → Option Event
  | .system e => some e
  | .task i .post => bodies[i]?.map .createJob
  | .task _ _ => none

/-- What a client's run is for the system. -/
def serverSide (u : History (Sys × Client M) ClientEvent) : History Sys Event :=
  u.filterMap fun x => (serverEvent bodies x.2).map fun e => (x.1.1, e)

/-- One step, one case for each kind. -/
inductive ClientTaken : Sys × Client M → ClientEvent → Sys × Client M → Prop
  | system {s s' : Sys} {c : Client M} {e : Event} (taken : step cfg s e = some s') :
      ClientTaken (s, c) (.system e) (s', c)
  | enters {s : Sys} {c : Client M} {i : ℕ} {tasks : Gather Request (Option JobResponse)}
      (below : i < bodies.length) (acquired : c.tasks.acquire i .sending = some tasks) :
      ClientTaken (s, c) (.task i .enter) (s, { c with tasks })
  | posts {s s' : Sys} {c : Client M} {i : ℕ} {body : JobCreate} (own : bodies[i]? = some body)
      (at_ : c.tasks.task i = .holding .sending) (taken : step cfg s (.createJob body) = some s') :
      ClientTaken (s, c) (.task i .post)
        (s', { c with tasks := { c.tasks with
          task := Function.update c.tasks.task i (.holding (.answered (postAnswer s body))) } })
  | ends {s : Sys} {c : Client M} {i : ℕ} {act : TaskAct} {request : Request}
      {out : Option JobResponse} (below : i < bodies.length)
      (at_ : c.tasks.task i = .holding request)
      (outcome : act = .fail ∧ out = none ∨
        act = .succeed ∧ ∃ y, request = .answered (some y) ∧ out = some y) :
      ClientTaken (s, c) (.task i act)
        (s, ⟨⟨c.tasks.value + 1, Function.update c.tasks.task i (.finished out)⟩,
          record i out c.shared⟩)

end

section

variable {M : Type} {cfg : Config} {t₀ : Time} {bodies : List JobCreate}
  {record : ℕ → Option JobResponse → M → M} {t : History Sys Event} {s s' : Sys}
  {c c' : Client M} {u : History (Sys × Client M) ClientEvent} {e : ClientEvent} {i : ℕ}

theorem client_taken {x x' : Sys × Client M} (taken : clientStep cfg bodies record x e = some x') :
    ClientTaken cfg bodies record x e x' := by
  obtain ⟨s, c⟩ := x
  cases e with
  | system e =>
      obtain ⟨s', taken', rfl⟩ := Option.map_eq_some_iff.1 taken
      exact .system taken'
  | task i act =>
      obtain ⟨body, own, rest⟩ := Option.bind_eq_some_iff.1 taken
      have below : i < bodies.length := (List.getElem?_eq_some_iff.1 own).1
      cases act with
      | enter =>
          obtain ⟨tasks, acquired, rfl⟩ := Option.map_eq_some_iff.1 rest
          exact .enters below acquired
      | post =>
          obtain ⟨tasks, advanced, rest⟩ := Option.bind_eq_some_iff.1 rest
          obtain ⟨s', taken', rfl⟩ := Option.map_eq_some_iff.1 rest
          obtain ⟨request, next, at_, posted, rfl⟩ := Gather.advance_eq_some.1 advanced
          cases request with
          | sending =>
              cases posted
              exact .posts own at_ taken'
          | answered _ => cases posted
      | succeed =>
          obtain ⟨⟨out, tasks⟩, finished, rfl⟩ := Option.map_eq_some_iff.1 rest
          obtain ⟨request, at_, succeeded, rfl⟩ := Gather.finish_eq_some.1 finished
          unfold Request.succeed at succeeded
          split at succeeded
          · cases succeeded
            exact .ends below at_ (.inr ⟨rfl, _, rfl, rfl⟩)
          · cases succeeded
      | fail =>
          obtain ⟨⟨out, tasks⟩, finished, rfl⟩ := Option.map_eq_some_iff.1 rest
          obtain ⟨request, at_, failed, rfl⟩ := Gather.finish_eq_some.1 finished
          cases failed
          exact .ends below at_ (.inl ⟨rfl, rfl⟩)

theorem serverSide_cons {x : Sys × Client M} :
    serverSide bodies ((x, e) :: u) =
      ((serverEvent bodies e).map fun e => (x.1, e)).toList ++ serverSide bodies u := by
  rw [serverSide, List.filterMap_cons]
  cases serverEvent bodies e <;> rfl

/-- For the system a client's run is a run. -/
theorem serverSide_run (run : Run (clientStep cfg bodies record) (s, c) u (s', c')) :
    Run (step cfg) s (serverSide bodies u) s' := by
  have all : Run (step cfg) s (serverSide bodies u) (s', c').1 := by
    generalize (s', c') = x at run
    induction run with
    | nil => exact .nil
    | @snoc u x x' e before taken ih =>
        rw [serverSide_cons]
        cases client_taken taken with
        | system moved => exact ih.snoc moved
        | enters _ _ => exact ih
        | posts own _ moved =>
            rw [serverEvent, own]
            exact ih.snoc moved
        | ends _ _ outcome => rcases outcome with ⟨rfl, -⟩ | ⟨rfl, -⟩ <;> exact ih
  exact all

end

/-! ## The answers that the tasks have -/

/-- The answer that is on its way to a task, or with it. -/
def answerOf : Gather.Task Request (Option JobResponse) → Option JobResponse
  | .holding (.answered answer) => answer
  | .finished answer => answer
  | _ => none

/-- Every answer is one to the request of its task, and no two have one id. -/
structure Linked {M : Type} (bodies : List JobCreate) (h : History Sys Event) (c : Client M) :
    Prop where
  asked : ∀ i y, answerOf (c.tasks.task i) = some y →
    ∃ a body, bodies[i]? = some body ∧ (a, .createJob body) ∈ h ∧ postAnswer a body = some y
  distinct : ∀ i k y y', answerOf (c.tasks.task i) = some y →
    answerOf (c.tasks.task k) = some y' → y.id = y'.id → i = k

section

variable {M : Type} {cfg : Config} {t₀ : Time} {bodies : List JobCreate}
  {record : ℕ → Option JobResponse → M → M} {t h h' : History Sys Event} {s s' : Sys}
  {c c' : Client M} {x x' : Sys × Client M} {u : History (Sys × Client M) ClientEvent}
  {e : ClientEvent} {i : ℕ} {y : JobResponse}

theorem postAnswer_id {body : JobCreate} (answered : postAnswer s body = some y) :
    y.id = s.db.jobs.next := (rowToResponse_columns answered).1

/-- The id of an answer has been handed out. -/
theorem Linked.lt_next (linked : Linked bodies h c) (run : Runs cfg t₀ .empty h s)
    (answer : answerOf (c.tasks.task i) = some y) : y.id < s.db.jobs.next := by
  obtain ⟨a, body, -, post, answered⟩ := linked.asked i y answer
  rw [postAnswer_id answered]
  exact lt_next_of_posted run (posted_of_member post)

/-- Tasks that learn nothing new. -/
theorem Linked.mono (linked : Linked bodies h c)
    (known : ∀ i y, answerOf (c'.tasks.task i) = some y → answerOf (c.tasks.task i) = some y)
    (later : ∀ z ∈ h, z ∈ h') : Linked bodies h' c' where
  asked i y answer := by
    obtain ⟨a, body, own, post, answered⟩ := linked.asked i y (known i y answer)
    exact ⟨a, body, own, later _ post, answered⟩
  distinct i k y y' answer answer' :=
    linked.distinct i k y y' (known i y answer) (known k y' answer')

/-- A task whose step brings it no answer that it did not have. -/
theorem known_of_update {task : ℕ → Gather.Task Request (Option JobResponse)}
    {new : Gather.Task Request (Option JobResponse)}
    (known : ∀ y, answerOf new = some y → answerOf (task i) = some y) (k : ℕ) (y : JobResponse)
    (answer : answerOf (Function.update task i new k) = some y) :
    answerOf (task k) = some y := by
  by_cases same : k = i
  · subst same
    rw [Function.update_self] at answer
    exact known y answer
  · rwa [Function.update_of_ne same] at answer

theorem linked_step (run : Runs cfg t₀ .empty h x.1) (linked : Linked bodies h x.2)
    (moved : ClientTaken cfg bodies record x e x') :
    Linked bodies (((serverEvent bodies e).map fun e => (x.1, e)).toList ++ h) x'.2 := by
  have later : ∀ z ∈ h, z ∈ ((serverEvent bodies e).map fun e => (x.1, e)).toList ++ h :=
    fun z member => List.mem_append_right _ member
  cases moved with
  | system _ => exact linked.mono (fun _ _ answer => answer) later
  | @enters s c i tasks below acquired =>
      refine linked.mono ?_ later
      dsimp only
      rw [(Gather.acquire_eq_some.1 acquired).2.2]
      exact known_of_update fun y answer => by cases answer
  | @ends s c i act request out below at_ outcome =>
      refine linked.mono (known_of_update fun y answer => ?_) later
      rcases outcome with ⟨-, rfl⟩ | ⟨-, y', rfl, rfl⟩
      · cases answer
      · rw [at_]
        exact answer
  | @posts s s' c i body own at_ taken =>
      dsimp only at run linked later ⊢
      have new : (s, .createJob body) ∈
          ((serverEvent bodies (.task i .post)).map fun e => (s, e)).toList ++ h := by
        rw [serverEvent, own]
        exact List.mem_cons_self
      -- the new id is one that no other task has been given
      have fresh (k : ℕ) (y y' : JobResponse) (answered : postAnswer s body = some y)
          (answer : answerOf (c.tasks.task k) = some y') : y'.id ≠ y.id := by
        rw [postAnswer_id answered]
        exact Nat.ne_of_lt (linked.lt_next run answer)
      constructor
      · intro k y answer
        dsimp only at answer
        by_cases same : k = i
        · subst same
          rw [Function.update_self] at answer
          exact ⟨s, body, own, new, answer⟩
        · rw [Function.update_of_ne same] at answer
          obtain ⟨a, body', own', post, answered⟩ := linked.asked k y answer
          exact ⟨a, body', own', later _ post, answered⟩
      · intro k k' y y' answer answer' ids
        dsimp only at answer answer'
        by_cases same : k = i <;> by_cases same' : k' = i
        · exact same.trans same'.symm
        · subst same
          rw [Function.update_self] at answer
          rw [Function.update_of_ne same'] at answer'
          exact absurd ids.symm (fresh k' y y' answer answer')
        · subst same'
          rw [Function.update_self] at answer'
          rw [Function.update_of_ne same] at answer
          exact absurd ids (fresh k y' y answer' answer)
        · rw [Function.update_of_ne same] at answer
          rw [Function.update_of_ne same'] at answer'
          exact linked.distinct k k' y y' answer answer' ids

/-- Nobody has started. -/
def Client.start (concurrency : ℕ) (shared : M) : Client M where
  tasks := .start concurrency
  shared := shared

/-- The answers of the tasks are linked to what the system has done for them. -/
theorem linked_of_run {concurrency : ℕ} {shared : M} (run : Runs cfg t₀ .empty t s)
    (clients : Run (clientStep cfg bodies record) (s, .start concurrency shared) u x) :
    Linked bodies (serverSide bodies u ++ t) x.2 := by
  induction clients with
  | nil =>
      exact ⟨(fun _ _ answer => by cases answer), fun _ _ _ _ answer => by cases answer⟩
  | @snoc u x x' e before taken ih =>
      rw [serverSide_cons, List.append_assoc]
      obtain ⟨s', c⟩ := x
      exact linked_step (run.append (serverSide_run before)) ih (client_taken taken)

/-- The request of which an answer tells. -/
theorem Linked.enqueued (linked : Linked bodies h c) (run : Runs cfg t₀ .empty h s)
    (answer : answerOf (c.tasks.task i) = some y) :
    ∃ body, bodies[i]? = some body ∧ TaskQueue.enqueued cfg y.id h = some body := by
  obtain ⟨a, body, own, post, answered⟩ := linked.asked i y answer
  rw [postAnswer_id answered]
  exact ⟨body, own, (posted_unique run (posted_of_member post)).1⟩

/-! ## Permits and outcomes -/

/-- How a task ended. -/
def outcomeOf : Gather.Task Request (Option JobResponse) → Option (Option JobResponse)
  | .finished out => some out
  | _ => none

theorem answerOf_of_outcome {task : Gather.Task Request (Option JobResponse)}
    (outcome : outcomeOf task = some (some y)) : answerOf task = some y := by
  cases task with
  | finished out => exact Option.some.inj outcome
  | waiting => cases outcome
  | holding _ => cases outcome

/-- What the tasks share is what the outcomes have made of it, one at a time. -/
theorem shared_of_run {P : (ℕ → Option (Option JobResponse)) → M → Prop} {concurrency : ℕ}
    {shared : M} (start : P (fun _ => none) shared)
    (ends : ∀ outcome m i out, i < bodies.length → outcome i = none → P outcome m →
      P (Function.update outcome i (some out)) (record i out m))
    (clients : Run (clientStep cfg bodies record) (s, .start concurrency shared) u x) :
    P (fun i => outcomeOf (x.2.tasks.task i)) x.2.shared := by
  have update (task : ℕ → Gather.Task Request (Option JobResponse)) (i : ℕ)
      (new : Gather.Task Request (Option JobResponse)) :
      (fun k => outcomeOf (Function.update task i new k)) =
        Function.update (fun k => outcomeOf (task k)) i (outcomeOf new) :=
    Function.comp_update outcomeOf task i new
  induction clients with
  | nil => exact start
  | @snoc u x x' e before taken ih =>
      cases client_taken taken with
      | system _ => exact ih
      | @enters s c i tasks below acquired =>
          obtain ⟨waiting, -, task⟩ := Gather.acquire_eq_some.1 acquired
          dsimp only at ih ⊢
          rw [task, update, show outcomeOf _ = outcomeOf (c.tasks.task i) by rw [waiting]; rfl,
            Function.update_eq_self]
          exact ih
      | @posts s s' c i body own at_ _ =>
          dsimp only at ih ⊢
          rw [update, show outcomeOf _ = outcomeOf (c.tasks.task i) by rw [at_]; rfl,
            Function.update_eq_self]
          exact ih
      | @ends s c i act request out below at_ _ =>
          dsimp only at ih ⊢
          rw [update]
          exact ends _ _ i out below (by rw [at_]; rfl) ih

end

/-! ## `load.py` -/

/-- `job_ids.append(data["id"])`. -/
def appendId (_ : ℕ) (answer : Option JobResponse) (jobIds : List JobId) : List JobId :=
  match answer with
  | some y => jobIds ++ [y.id]
  | none => jobIds

/-- The list has the ids of the tasks that succeeded, in the order in which they did. -/
structure Appended (outcome : ℕ → Option (Option JobResponse)) (jobIds : List JobId)
    (order : List ℕ) : Prop where
  nodup : order.Nodup
  mem_iff : ∀ i, i ∈ order ↔ ∃ y, outcome i = some (some y)
  ids : order.map (fun i => (outcome i).join.map JobResponse.id) = jobIds.map some

section

variable {cfg : Config} {t₀ : Time} {bodies : List JobCreate} {h t : History Sys Event} {s : Sys}
  {c : Client (List JobId)} {outcome : ℕ → Option (Option JobResponse)} {jobIds : List JobId}
  {order : List ℕ} {i : ℕ}

theorem Appended.ends (appended : Appended outcome jobIds order) (fresh : outcome i = none)
    (out : Option JobResponse) :
    ∃ order, Appended (Function.update outcome i (some out)) (appendId i out jobIds) order := by
  have new : i ∉ order := by
    rw [appended.mem_iff]
    rintro ⟨y, had⟩
    cases fresh.symm.trans had
  have ids : order.map (fun k => (Function.update outcome i (some out) k).join.map JobResponse.id) =
      jobIds.map some := by
    rw [← appended.ids]
    apply List.map_congr_left
    intro k member
    rw [Function.update_of_ne (fun same : k = i => new (same ▸ member))]
  have others (k : ℕ) (other : k ≠ i) :
      k ∈ order ↔ ∃ y, Function.update outcome i (some out) k = some (some y) := by
    rw [Function.update_of_ne other, appended.mem_iff]
  cases out with
  | none =>
      refine ⟨order, appended.nodup, fun k => ?_, ids⟩
      by_cases same : k = i
      · subst same
        rw [Function.update_self]
        exact iff_of_false new fun had => by cases had.choose_spec
      · exact others k same
  | some y =>
      refine ⟨order ++ [i], ?_, fun k => ?_, ?_⟩
      · exact List.nodup_append.2 ⟨appended.nodup, List.nodup_singleton i, fun k member k' last =>
          fun same => new ((same.trans (List.mem_singleton.1 last)) ▸ member)⟩
      · by_cases same : k = i
        · subst same
          rw [Function.update_self]
          exact iff_of_true (List.mem_append_right _ (List.mem_singleton_self k)) ⟨y, rfl⟩
        · rw [← others k same, List.mem_append, List.mem_singleton, or_iff_left same]
      · rw [List.map_append, ids, List.map_singleton, Function.update_self, appendId,
          List.map_append]
        rfl

/-- A task of the list has an answer, whose id is the one in the list. -/
theorem Appended.answer (appended : Appended (fun i => outcomeOf (c.tasks.task i)) jobIds order)
    (member : i ∈ order) :
    ∃ y, answerOf (c.tasks.task i) = some y ∧
      (outcomeOf (c.tasks.task i)).join.map JobResponse.id = some y.id := by
  obtain ⟨y, outcome⟩ := (appended.mem_iff i).1 member
  exact ⟨y, answerOf_of_outcome outcome, by rw [outcome]; rfl⟩

/-- When all tasks have succeeded, all are in the list. -/
theorem Appended.perm (appended : Appended (fun i => outcomeOf (c.tasks.task i)) jobIds order)
    (linked : Linked bodies h c)
    (all : ∀ i < bodies.length, (outcomeOf (c.tasks.task i)).join.isSome) :
    order.Perm (List.range bodies.length) := by
  apply (List.perm_ext_iff_of_nodup appended.nodup List.nodup_range).2
  intro i
  rw [appended.mem_iff, List.mem_range]
  constructor
  · rintro ⟨y, outcome⟩
    obtain ⟨a, body, own, -⟩ := linked.asked i y (answerOf_of_outcome outcome)
    exact (List.getElem?_eq_some_iff.1 own).1
  · intro below
    obtain ⟨y, outcome⟩ := Option.isSome_iff_exists.1 (all i below)
    exact ⟨y, Option.join_eq_some_iff.1 outcome⟩

/-- The ids of the list are those of the jobs that its tasks have posted. -/
theorem Appended.enqueued
    (appended : Appended (fun i => outcomeOf (c.tasks.task i)) jobIds order)
    (linked : Linked bodies h c) (run : Runs cfg t₀ .empty h s) :
    jobIds.map (fun j => TaskQueue.enqueued cfg j h) = order.map fun i => bodies[i]? := by
  have ids := congrArg (List.map fun id_ : Option JobId => id_.bind fun j =>
    TaskQueue.enqueued cfg j h) appended.ids
  rw [List.map_map, List.map_map] at ids
  refine ids.symm.trans (List.map_congr_left fun i member => ?_)
  obtain ⟨y, answer, id_⟩ := appended.answer member
  obtain ⟨body, own, posted⟩ := linked.enqueued run answer
  rw [Function.comp_apply, id_, Option.bind_some, posted, own]

end

/-- `results` and `errors`. -/
structure Slots where
  results : ℕ → Option JobResponse
  errors : ℕ

/-- `results[idx] = r.json()`, or `errors += 1`. -/
def fillSlot (idx : ℕ) (answer : Option JobResponse) (slots : Slots) : Slots :=
  match answer with
  | some y => { slots with results := Function.update slots.results idx (some y) }
  | none => { slots with errors := slots.errors + 1 }

def Slots.empty : Slots where
  results _ := none
  errors := 0

/-- What `enqueue_batch` returns, once all tasks have ended. -/
def enqueueBatch (total : ℕ) (c : Client Slots) : Option (List JobResponse) :=
  if ∀ i < total, (outcomeOf (c.tasks.task i)).isSome then
    some ((List.range total).filterMap c.shared.results)
  else none

/-- An error counts. -/
def errorWeight : Option (Option JobResponse) → ℕ
  | some none => 1
  | _ => 0

theorem slots_of_run {cfg : Config} {bodies : List JobCreate} {s : Sys} {concurrency : ℕ}
    {u : History (Sys × Client Slots) ClientEvent} {x : Sys × Client Slots}
    (clients : Run (clientStep cfg bodies fillSlot) (s, .start concurrency .empty) u x) :
    (∀ i, x.2.shared.results i = (outcomeOf (x.2.tasks.task i)).join) ∧
      x.2.shared.errors =
        Gather.total errorWeight bodies.length fun i => outcomeOf (x.2.tasks.task i) := by
  refine shared_of_run (P := fun outcome slots =>
    (∀ i, slots.results i = (outcome i).join) ∧
      slots.errors = Gather.total errorWeight bodies.length outcome) ⟨fun _ => rfl, ?_⟩ ?_ clients
  · exact (Finset.sum_eq_zero fun _ _ => rfl).symm
  · rintro outcome slots i out below fresh ⟨results, errors⟩
    have counted := Gather.total_update errorWeight outcome below (some out)
    rw [fresh] at counted
    cases out with
    | none =>
        refine ⟨fun k => (results k).trans ?_, ?_⟩
        · by_cases same : k = i
          · rw [same, fresh, Function.update_self]
            rfl
          · rw [Function.update_of_ne same]
        · rw [fillSlot, errors]
          exact counted.symm
    | some y =>
        refine ⟨fun k => ?_, errors.trans counted.symm⟩
        dsimp only [fillSlot]
        by_cases same : k = i
        · rw [same, Function.update_self, Function.update_self]
          rfl
        · rw [Function.update_of_ne same, Function.update_of_ne same, results]

/-- A list of the values that there are, as a list of the keys that have one. -/
theorem map_filterMap_eq {α β γ : Type} {xs : List α} {value : α → Option β} {f : β → γ}
    {g : α → γ} (agree : ∀ a ∈ xs, ∀ b, value a = some b → f b = g a) :
    (xs.filterMap value).map f = (xs.filter fun a => (value a).isSome).map g := by
  induction xs with
  | nil => rfl
  | cons a xs ih =>
      have rest := ih fun a member => agree a (List.mem_cons_of_mem _ member)
      cases found : value a with
      | none => simpa [found] using rest
      | some b => simpa [found, agree a List.mem_cons_self b found] using rest

/-- **The benchmark keeps an answer or counts an error.**  When all tasks have ended, the answers
that `enqueue_batch` returns and the errors that it counts are as many as there were jobs; the
answers are to requests of its own, no two with one id, and in the order of the jobs. -/
theorem enqueue_batch_answers (cfg : Config) (t₀ : Time) {t : History Sys Event} {s : Sys}
    (run : Runs cfg t₀ .empty t s) (jobs : List (String × Json)) (concurrency : ℕ)
    {u : History (Sys × Client Slots) ClientEvent} {s' : Sys} {c : Client Slots}
    (clients : Run (clientStep cfg (jobs.map benchmarkBody) fillSlot)
      (s, .start concurrency .empty) u (s', c)) :
    ∀ valid, enqueueBatch jobs.length c = some valid →
      valid.length + c.shared.errors = jobs.length ∧ (valid.map JobResponse.id).Nodup ∧
        Answered jobs valid (serverSide (jobs.map benchmarkBody) u ++ t) ∧
        (valid.map fun y =>
          enqueued cfg y.id (serverSide (jobs.map benchmarkBody) u ++ t)).Sublist
            (jobs.map fun x => some (benchmarkBody x)) := by
  intro valid returned
  rw [enqueueBatch, Option.ite_none_right_eq_some] at returned
  obtain ⟨all, same⟩ := returned
  cases same
  have linked := linked_of_run run clients
  have run' := run.append (serverSide_run clients)
  obtain ⟨results, errors⟩ := slots_of_run clients
  have answer (i : ℕ) (y : JobResponse) (slot : c.shared.results i = some y) :
      answerOf (c.tasks.task i) = some y :=
    answerOf_of_outcome (Option.join_eq_some_iff.1 ((results i).symm.trans slot))
  refine ⟨?_, ?_, ?_, ?_⟩
  · rw [Gather.length_filterMap_range, errors, List.length_map, Gather.total, Gather.total,
      ← Finset.sum_add_distrib]
    refine (Finset.sum_congr rfl fun i below => ?_).trans
      ((Finset.card_eq_sum_ones _).symm.trans (Finset.card_range _))
    obtain ⟨out, ended⟩ := Option.isSome_iff_exists.1 (all i (Finset.mem_range.1 below))
    rw [results, ended]
    cases out <;> rfl
  · rw [List.map_filterMap]
    apply List.nodup_range.filterMap
    intro i k id_ first second
    obtain ⟨y, slot, rfl⟩ := Option.map_eq_some_iff.1 first
    obtain ⟨y', slot', same⟩ := Option.map_eq_some_iff.1 second
    exact linked.distinct i k y y' (answer i y slot) (answer k y' slot') same.symm
  · intro y member
    obtain ⟨i, -, slot⟩ := List.mem_filterMap.1 member
    obtain ⟨a, body, own, post, answered⟩ := linked.asked i y (answer i y slot)
    rw [List.getElem?_map, Option.map_eq_some_iff] at own
    obtain ⟨x, known, rfl⟩ := own
    exact ⟨a, x, List.mem_of_getElem? known, post, answered⟩
  · have bodies : (jobs.map fun x => some (benchmarkBody x)) =
        (List.range jobs.length).map fun i => (jobs.map benchmarkBody)[i]? := by
      apply List.ext_getElem (by simp)
      intro i below _
      simp only [List.length_map] at below
      simp [below]
    rw [bodies, map_filterMap_eq fun i _ y slot => ?_]
    · exact List.filter_sublist.map _
    · obtain ⟨body, own, posted⟩ := linked.enqueued run' (answer i y slot)
      exact posted.trans own.symm

/-- Both requests have reached the server, and one answer was lost. -/
theorem enqueue_batch_answers_lost :
    ∃ u s c valid, Run (clientStep demo ([("noop", .obj []), ("echo", .obj [])].map benchmarkBody)
        fillSlot) (.boot 0 .empty, .start 1 Slots.empty) u (s, c) ∧
      enqueueBatch 2 c = some valid ∧ valid.map JobResponse.id = [2] ∧
      valid.length + c.shared.errors = 2 := by
  obtain ⟨u, ⟨s, c⟩, clients, after⟩ := run_of_exec
    [.task 0 .enter, .task 0 .post, .task 0 .fail, .task 1 .enter, .task 1 .post,
      .task 1 .succeed]
    (fun out => (enqueueBatch 2 out.2.2).any fun valid => valid.map JobResponse.id = [2])
    (by decide +kernel :
      (exec (clientStep demo ([("noop", .obj []), ("echo", .obj [])].map benchmarkBody) fillSlot)
        [] (.boot 0 .empty, .start 1 Slots.empty) _).any _ = true)
  simp only [Option.any_eq_true, decide_eq_true_eq] at after
  obtain ⟨valid, returned, ids⟩ := after
  obtain ⟨sum, -⟩ := enqueue_batch_answers demo 0 .nil _ 1 clients valid returned
  exact ⟨u, s, c, valid, clients, returned, ids, sum⟩

/-! ## When a client finishes -/

section

variable {M : Type} {cfg : Config} {bodies : List JobCreate}
  {record : ℕ → Option JobResponse → M → M} {s : Sys} {c : Client M} {x x' : Sys × Client M}
  {u : History (Sys × Client M) ClientEvent} {e : ClientEvent} {concurrency : ℕ} {shared : M}

/-- The tasks have ended. -/
def Client.Finished (bodies : List JobCreate) (c : Client M) : Prop :=
  ∀ i < bodies.length, (outcomeOf (c.tasks.task i)).isSome

end

end TaskQueue
