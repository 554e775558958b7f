/-
# TaskQueue.Listing -- `GET /jobs`, page after page

`list_jobs` builds one WHERE clause for two queries: `conditions` with numbered placeholders
and `params` for them, to which the query of the rows appends its LIMIT and OFFSET.  The
rows come `ORDER BY created_at DESC`, an order only up to equal timestamps, chosen anew by
every query (`Paging.Arrangement`).  `takes` are the arguments that asyncpg encodes and
PostgreSQL accepts: no text with a NUL, no `datetime` that leaves the years 1 to 9999 in UTC,
no integer from 2^63 on; a query raises on any other.

* `binds_whereClause`: whatever filters are given, every placeholder finds its argument, in
  both queries, and the clause keeps the rows that match the filters.
* `list_pages_partition_iff`: when the pages of a client that reads on until the first empty
  one are the matching rows, each once.
-/
import TaskQueue.Lib.Paging
import TaskQueue.Statements

namespace TaskQueue

set_option autoImplicit false

open Paging

/-! ## The WHERE clause -/

/-- The filters of a request. -/
structure JobFilters where
  status : Option String
  type : Option String
  createdAfter : Option Time

/-- An argument of a query. -/
inductive Param where
  | text (s : String)
  | timestamp (t : Time)
  | int (n : ℕ)

/-- `status = $p`, `type = $p` and `created_at > $p`. -/
inductive Column where
  | status
  | type
  | createdAt

structure Condition where
  column : Column
  placeholder : ℕ

/-- A condition with its argument; an argument of another type is an error. -/
def Column.test : Column → Param → Option (Job → Bool)
  | .status, .text s => some fun r => r.status.text = s
  | .type, .text s => some fun r => r.type = s
  | .createdAt, .timestamp t => some fun r => t < r.createdAt
  | _, _ => none

/-- `$p` stands for the `p`-th argument, from 1 on. -/
def argument (args : List Param) : ℕ → Option Param
  | 0 => none
  | p + 1 => args[p]?

def intArgument (args : List Param) (placeholder : ℕ) : Option ℕ :=
  match argument args placeholder with
  | some (.int n) => some n
  | _ => none

def Condition.bind (args : List Param) (c : Condition) : Option (Job → Bool) :=
  (argument args c.placeholder).bind c.column.test

/-- `WHERE … AND …`, and no clause when there is no condition. -/
def bindWhere (args : List Param) : List Condition → Option (Job → Bool)
  | [] => some fun _ => true
  | c :: rest =>
      match c.bind args, bindWhere args rest with
      | some test, some others => some fun r => test r && others r
      | _, _ => none

/-- The highest placeholder; asyncpg rejects a call with more or fewer arguments. -/
def arity (conditions : List Condition) : ℕ := (conditions.map Condition.placeholder).foldr max 0

/-- The variables `conditions`, `params` and `p` of `list_jobs`. -/
structure WhereClause where
  conditions : List Condition
  params : List Param
  p : ℕ

/-- `conditions.append(…); params.append(…); p += 1`. -/
def WhereClause.add (w : WhereClause) (column : Column) (value : Param) : WhereClause where
  conditions := w.conditions ++ [⟨column, w.p⟩]
  params := w.params ++ [value]
  p := w.p + 1

def WhereClause.addIf (w : WhereClause) (column : Column) : Option Param → WhereClause
  | some value => w.add column value
  | none => w

/-- `if text:`. -/
def truthy : Option String → Option String
  | some s => if s = "" then none else some s
  | none => none

def whereClause (f : JobFilters) : WhereClause :=
  let w : WhereClause := { conditions := [], params := [], p := 1 }
  let w := w.addIf .status ((truthy f.status).map .text)
  let w := w.addIf .type ((truthy f.type).map .text)
  w.addIf .createdAt (f.createdAfter.map .timestamp)

/-! ## The two queries -/

def createdAt (x : JobId × Job) : Time := x.2.createdAt

/-- `SELECT COUNT(*) FROM jobs {where}`. -/
def countQuery (takes : Param → Bool) (db : Db) (w : WhereClause) (args : List Param) : Option ℕ :=
  if args.length = arity w.conditions ∧ args.all takes then
    (bindWhere args w.conditions).map fun test => db.jobs.countWhere test
  else none

/-- `SELECT * FROM jobs {where} ORDER BY created_at DESC LIMIT ${p} OFFSET ${p+1}`. -/
def rowsQuery (takes : Param → Bool) (db : Db) (arrange : Arrangement createdAt) (w : WhereClause)
    (args : List Param) : Option (List (JobId × Job)) :=
  if args.length = max (arity w.conditions) (w.p + 1) ∧ args.all takes then
    match bindWhere args w.conditions, intArgument args w.p, intArgument args (w.p + 1) with
    | some test, some limit, some offset =>
        some (((arrange.order (db.jobs.entries.filter fun x => test x.2)).drop offset).take limit)
    | _, _, _ => none
  else none

/-! ## The answer -/

structure JobResponse where
  id : JobId
  type : String
  payload : List (String × Json)
  status : Status
  priority : Priority
  attempt : ℕ
  maxRetries : ℕ
  runAt : Time
  claimedAt : Option Time
  heartbeatAt : Option Time
  completedAt : Option Time
  result : Option (List (String × Json))
  error : Option String
  workerId : Option WorkerId
  createdAt : Time

/-- `value or {}`. -/
def Json.orEmpty : Json → Json
  | .null => .obj []
  | .bool b => if b then .bool b else .obj []
  | .int n => if n = 0 then .obj [] else .int n
  | .float x => if x == 0 then .obj [] else .float x
  | .str s => if s = "" then .obj [] else .str s
  | .arr [] => .obj []
  | value => value

/-- `Dict[str, Any]`. -/
def Json.dict? : Json → Option (List (String × Json))
  | .obj fields => some fields
  | _ => none

/-- `Optional[Dict[str, Any]]`, of a column that may be NULL. -/
def optionalDict : Option Json → Option (Option (List (String × Json)))
  | none => some none
  | some .null => some none
  | some value => value.dict?.map some

/-- `_row_to_response`; `none` when the model rejects a value. -/
def rowToResponse (x : JobId × Job) : Option JobResponse :=
  match x.2.payload.orEmpty.dict?, optionalDict x.2.result with
  | some payload, some result =>
      some
        { id := x.1
          type := x.2.type
          payload := payload
          status := x.2.status
          priority := x.2.priority
          attempt := x.2.attempt
          maxRetries := x.2.maxRetries
          runAt := x.2.runAt
          claimedAt := x.2.claimedAt
          heartbeatAt := x.2.heartbeatAt
          completedAt := x.2.completedAt
          result := result
          error := x.2.error
          workerId := x.2.workerId
          createdAt := x.2.createdAt }
  | _, _ => none

structure JobListResponse where
  items : List JobResponse
  total : ℕ
  limit : ℕ
  offset : ℕ

inductive ListError where
  | badRequest (detail : String)
  /-- a query or the response model raises -/
  | internal

/-- `sorted(valid_statuses)`. -/
def validStatuses : List String := ["claimed", "dead", "done", "failed", "pending", "running"]

/-- `limit: int = Query(ge=1, le=500)`. -/
abbrev PageLimit := { l : ℕ // 1 ≤ l ∧ l ≤ 500 }

/-- `list_jobs` after its check of the status. -/
def queryJobs (takes : Param → Bool) (db : Db) (arrange : Arrangement createdAt) (f : JobFilters)
    (limit : PageLimit) (offset : ℕ) : Except ListError JobListResponse :=
  let w := whereClause f
  match countQuery takes db w w.params,
    rowsQuery takes db arrange w (w.params ++ [.int limit, .int offset]) with
  | some total, some rows =>
      match rows.mapM rowToResponse with
      | some items => .ok { items, total, limit, offset }
      | none => .error .internal
  | _, _ => .error .internal

/-- `list_jobs`. -/
def listJobs (repr : String → String) (takes : Param → Bool) (db : Db)
    (arrange : Arrangement createdAt) (f : JobFilters) (limit : PageLimit) (offset : ℕ) :
    Except ListError JobListResponse :=
  match truthy f.status with
  | some s =>
      if s ∈ validStatuses then queryJobs takes db arrange f limit offset
      else
        .error
          (.badRequest
            ("Invalid status " ++ repr s ++ ". Must be one of [" ++
              ", ".intercalate (validStatuses.map repr) ++ "]"))
  | none => queryJobs takes db arrange f limit offset

/-! ## What the filters ask for -/

/-- The row satisfies every filter. -/
def JobFilters.Matches (f : JobFilters) (r : Job) : Prop :=
  (∀ s ∈ f.status, r.status.text = s) ∧ (∀ type ∈ f.type, r.type = type) ∧
    ∀ t ∈ f.createdAfter, t < r.createdAt

instance (f : JobFilters) (r : Job) : Decidable (f.Matches r) :=
  inferInstanceAs (Decidable (_ ∧ _))

/-- The rows that satisfy every filter, in key order. -/
def matching (db : Db) (f : JobFilters) : List (JobId × Job) :=
  db.jobs.entries.filter fun x => f.Matches x.2

/-- No filter is an empty text. -/
def JobFilters.NonEmpty (f : JobFilters) : Prop := f.status ≠ some "" ∧ f.type ≠ some ""

instance (f : JobFilters) : Decidable f.NonEmpty := inferInstanceAs (Decidable (_ ∧ _))

/-- The queries of a request take all of their arguments. -/
def TakesAll (takes : Param → Bool) (f : JobFilters) (limit : PageLimit) (offset : ℕ) : Prop :=
  ∀ x ∈ (whereClause f).params ++ [.int limit, .int offset], takes x = true

/-- Whatever orders the queries choose, the pages up to the first empty one hold the matching
rows, each once, and the total of each is their number. -/
def PagesPartition (repr : String → String) (takes : Param → Bool) (db : Db) (f : JobFilters)
    (limit : PageLimit) : Prop :=
  ∀ arrange : ℕ → Arrangement createdAt, ∃ (n : ℕ) (answers : ℕ → JobListResponse),
    (∀ k ≤ n, listJobs repr takes db (arrange k) f limit (k * limit.1) = .ok (answers k)) ∧
    (∀ k < n, (answers k).items ≠ []) ∧ (answers n).items = [] ∧
    (∀ k ≤ n, (answers k).total = (matching db f).length) ∧
    (((List.range n).flatMap fun k => (answers k).items).map some).Perm
      ((matching db f).map rowToResponse)

/-! ## Placeholders and arguments -/

/-- The clause keeps the rows of `test`, with its own arguments or more behind them. -/
structure Binds (w : WhereClause) (test : Job → Bool) : Prop where
  next : w.p = w.params.length + 1
  arity : arity w.conditions = w.params.length
  keeps : ∀ more, bindWhere (w.params ++ more) w.conditions = some test

section

variable {w : WhereClause} {test : Job → Bool}

theorem bindWhere_append {args : List Param} {c : Condition} {last : Job → Bool}
    (bound : c.bind args = some last) :
    ∀ {conditions : List Condition} {test : Job → Bool}, bindWhere args conditions = some test →
      bindWhere args (conditions ++ [c]) = some fun r => test r && last r
  | [], _, keeps => by
      cases keeps
      simp [bindWhere, bound]
  | c' :: rest, _, keeps => by
      simp only [bindWhere] at keeps
      split at keeps
      · rename_i first others bound' keeps'
        cases keeps
        simp [bindWhere, bound', bindWhere_append bound keeps', Bool.and_assoc]
      · cases keeps

theorem Binds.add (binds : Binds w test) {column : Column} {value : Param} {last : Job → Bool}
    (typed : column.test value = some last) :
    Binds (w.add column value) fun r => test r && last r where
  next := by simp [WhereClause.add, binds.next]
  arity := by
    have arity := binds.arity
    have grows (ns : List ℕ) (n : ℕ) : (ns ++ [n]).foldr max 0 = max (ns.foldr max 0) n := by
      induction ns with
      | nil => simp
      | cons m ns ih => simp [ih, max_assoc]
    simp only [TaskQueue.arity] at arity
    simp only [TaskQueue.arity, WhereClause.add, List.map_append, List.map_cons, List.map_nil,
      grows, arity, binds.next, List.length_append, List.length_singleton]
    omega
  keeps more := by
    have found : argument (w.params ++ [value] ++ more) w.p = some value := by
      simp [binds.next, argument]
    refine bindWhere_append ?_ (by simpa [WhereClause.add] using binds.keeps ([value] ++ more))
    simp only [Condition.bind, WhereClause.add, found, Option.bind_some]
    exact typed

/-- A filter adds its condition when it is given, and nothing when it is not. -/
theorem Binds.addFilter {β : Type} (binds : Binds w test) (column : Column) (arg : β → Param)
    (keeps : β → Job → Prop) [∀ b r, Decidable (keeps b r)] (filter : Option β)
    (typed : ∀ b, column.test (arg b) = some fun r => decide (keeps b r)) :
    Binds (w.addIf column (filter.map arg)) fun r =>
      test r && decide (∀ b ∈ filter, keeps b r) := by
  cases filter with
  | none => simpa [WhereClause.addIf] using binds
  | some b => simpa [WhereClause.addIf] using binds.add (typed b)

theorem truthy_of_ne {text : Option String} (given : text ≠ some "") : truthy text = text := by
  cases text with
  | none => rfl
  | some s => exact if_neg fun empty => given (by rw [empty])

/-- **The clause of `list_jobs`** keeps the matching rows. -/
theorem binds_whereClause {f : JobFilters} (nonEmpty : f.NonEmpty) :
    Binds (whereClause f) fun r => f.Matches r := by
  have start : Binds { conditions := [], params := [], p := 1 } fun _ => true :=
    ⟨rfl, rfl, fun _ => rfl⟩
  have status := start.addFilter .status .text (fun s r => r.status.text = s) f.status fun _ => rfl
  have type := status.addFilter .type .text (fun s r => r.type = s) f.type fun _ => rfl
  have bound := type.addFilter .createdAt .timestamp (fun t r => t < r.createdAt) f.createdAfter
    fun _ => rfl
  simp only [whereClause, truthy_of_ne nonEmpty.1, truthy_of_ne nonEmpty.2]
  simpa [JobFilters.Matches, Bool.and_assoc] using bound

/-! ## One request -/

variable {takes : Param → Bool} {db : Db} {f : JobFilters} {arrange : Arrangement createdAt}
  {limit : PageLimit} {offset : ℕ}

theorem countQuery_eq (binds : Binds w test) (taken : ∀ x ∈ w.params, takes x = true) :
    countQuery takes db w w.params = some (db.jobs.countWhere test) := by
  have bound := binds.keeps []
  rw [List.append_nil] at bound
  simp [countQuery, binds.arity, bound, List.all_eq_true.2 taken]

theorem rowsQuery_eq (binds : Binds w test) (limit offset : ℕ)
    (taken : ∀ x ∈ w.params ++ [.int limit, .int offset], takes x = true) :
    rowsQuery takes db arrange w (w.params ++ [.int limit, .int offset]) =
      some
        (((arrange.order (db.jobs.entries.filter fun x => test x.2)).drop offset).take limit) := by
  have args : intArgument (w.params ++ [.int limit, .int offset]) w.p = some limit := by
    simp [intArgument, argument, binds.next]
  have args' : intArgument (w.params ++ [.int limit, .int offset]) (w.p + 1) = some offset := by
    simp [intArgument, argument, binds.next]
  have count : (w.params ++ [Param.int limit, Param.int offset]).length =
      max (arity w.conditions) (w.p + 1) := by
    simp only [List.length_append, List.length_cons, List.length_nil, binds.arity, binds.next]
    omega
  rw [rowsQuery, if_pos ⟨count, List.all_eq_true.2 taken⟩, binds.keeps, args, args']

/-- The query of the rows raises on an argument that it does not take. -/
theorem queryJobs_refuses (refused : ¬ TakesAll takes f limit offset) :
    queryJobs takes db arrange f limit offset = .error .internal := by
  have rows : rowsQuery takes db arrange (whereClause f)
      ((whereClause f).params ++ [.int limit, .int offset]) = none :=
    if_neg fun both => refused (List.all_eq_true.1 both.2)
  simp [queryJobs, rows]

theorem mapM_eq_some_iff {α β : Type} {g : α → Option β} {xs : List α} {ys : List β} :
    xs.mapM g = some ys ↔ xs.map g = ys.map some := by
  induction xs generalizing ys with
  | nil => cases ys <;> simp
  | cons x xs ih =>
      simp only [List.mapM_cons, Option.bind_eq_bind, Option.bind_eq_some_iff, List.map_cons]
      constructor
      · rintro ⟨y, first, rest, others, same⟩
        cases same
        rw [first, ih.1 others, List.map_cons]
      · intro same
        cases ys with
        | nil => cases same
        | cons y ys =>
            obtain ⟨first, others⟩ := List.cons.inj same
            exact ⟨y, first, ys, ih.2 others, rfl⟩

theorem listJobs_eq (repr : String → String) (nonEmpty : f.NonEmpty)
    (accepted : ∀ s ∈ f.status, s ∈ validStatuses) :
    listJobs repr takes db arrange f limit offset = queryJobs takes db arrange f limit offset := by
  unfold listJobs
  rw [truthy_of_ne nonEmpty.1]
  cases given : f.status with
  | none => rfl
  | some s => exact if_pos (accepted s given)

/-- **What a request answers.** -/
theorem listJobs_ok_iff {repr : String → String} (nonEmpty : f.NonEmpty)
    {answer : JobListResponse} :
    listJobs repr takes db arrange f limit offset = .ok answer ↔
      (∀ s ∈ f.status, s ∈ validStatuses) ∧ TakesAll takes f limit offset ∧
        (((arrange.order (matching db f)).drop offset).take limit).map rowToResponse =
          answer.items.map some ∧
        answer.total = (matching db f).length ∧ answer.limit = limit ∧ answer.offset = offset := by
  by_cases accepted : ∀ s ∈ f.status, s ∈ validStatuses
  · have binds := binds_whereClause nonEmpty
    have count : db.jobs.countWhere (fun r => f.Matches r) = (matching db f).length :=
      List.countP_eq_length_filter
    rw [listJobs_eq repr nonEmpty accepted, and_iff_right accepted]
    by_cases taken : TakesAll takes f limit offset
    swap
    · rw [queryJobs_refuses taken]
      exact iff_of_false (fun h => by cases h) fun h => taken h.1
    have taken' : ∀ x ∈ (whereClause f).params, takes x = true := fun x member =>
      taken x (List.mem_append_left _ member)
    rw [and_iff_right taken, queryJobs]
    simp only [countQuery_eq binds taken', rowsQuery_eq binds _ _ taken, ← mapM_eq_some_iff, count]
    rw [← matching]
    cases items : (((arrange.order (matching db f)).drop offset).take limit).mapM rowToResponse with
    | none => simp
    | some items =>
        cases answer
        simp [eq_comm]
  · obtain ⟨s, given, unknown⟩ : ∃ s, f.status = some s ∧ s ∉ validStatuses := by
      simpa using accepted
    refine iff_of_false ?_ fun h => accepted h.1
    have status : truthy f.status = some s := (truthy_of_ne nonEmpty.1).trans given
    simp [listJobs, status, unknown]

/-! ## All pages -/

theorem matching_nodup (db : Db) (f : JobFilters) : (matching db f).Nodup := by
  have keys : (matching db f).Pairwise fun x y => x.1 < y.1 := by
    refine List.Pairwise.filter _ ?_
    rw [SerialTable.entries, List.pairwise_filterMap]
    refine List.pairwise_lt_range.imp ?_
    intro i k less x at_ y at_'
    simp only [Option.map_eq_some_iff] at at_ at_'
    obtain ⟨r, -, rfl⟩ := at_
    obtain ⟨r', -, rfl⟩ := at_'
    exact less
  refine keys.imp ?_
  rintro x y less rfl
  exact Nat.lt_irrefl _ less

/-- The pages that are not empty are those before the last row. -/
theorem page_eq_nil_iff {order : List (JobId × Job)} {limit : ℕ} (pos : 0 < limit) (k : ℕ) :
    page limit k order = [] ↔ order.length ≤ k * limit := by
  rw [page, List.take_eq_nil_iff, List.drop_eq_nil_iff]
  omega

theorem id_of_rowToResponse {x : JobId × Job} {item : JobResponse}
    (shown : rowToResponse x = some item) : item.id = x.1 := by
  unfold rowToResponse at shown
  split at shown
  · cases shown
    rfl
  · cases shown

/-- Two matching rows of one id are one row. -/
theorem matching_inj {x y : JobId × Job} (member : x ∈ matching db f) (member' : y ∈ matching db f)
    (same : x.1 = y.1) : x = y := by
  have row := SerialTable.mem_entries.1 (List.mem_of_mem_filter member)
  have row' := SerialTable.mem_entries.1 (List.mem_of_mem_filter member')
  rw [same, row'] at row
  exact Prod.ext same (Option.some.inj row).symm

/-- Matching rows whose answers are those of all matching rows are all of them. -/
theorem perm_of_answers {xs : List (JobId × Job)} (among : ∀ x ∈ xs, x ∈ matching db f)
    (presentable : ∀ x ∈ matching db f, (rowToResponse x).isSome)
    (perm : (xs.map rowToResponse).Perm ((matching db f).map rowToResponse)) :
    xs.Perm (matching db f) := by
  have ids (ys : List (JobId × Job)) (some_ : ∀ y ∈ ys, (rowToResponse y).isSome) :
      (ys.map rowToResponse).map (Option.map JobResponse.id) = ys.map fun y => some y.1 := by
    rw [List.map_map]
    refine List.map_congr_left fun y member => ?_
    obtain ⟨item, shown⟩ := Option.isSome_iff_exists.1 (some_ y member)
    simp [shown, id_of_rowToResponse shown]
  have sameIds := perm.map (Option.map JobResponse.id)
  rw [ids xs fun x member => presentable x (among x member), ids _ presentable] at sameIds
  have distinct : ((matching db f).map fun y => some y.1).Nodup := by
    refine (List.nodup_map_iff_inj_on (matching_nodup db f)).2 fun x member y member' same => ?_
    exact matching_inj member member' (Option.some.inj same)
  have nodup : xs.Nodup := List.Nodup.of_map _ (sameIds.nodup_iff.2 distinct)
  refine (List.perm_ext_iff_of_nodup nodup (matching_nodup db f)).2 fun x =>
    ⟨among x, fun member => ?_⟩
  -- the id of a matching row is that of some row of `xs`
  have id_ : some x.1 ∈ xs.map fun y => some y.1 :=
    sameIds.symm.subset (List.mem_map.2 ⟨x, member, rfl⟩)
  obtain ⟨y, member', same⟩ := List.mem_map.1 id_
  rw [← matching_inj (among y member') member (Option.some.inj same)]
  exact member'

/-- The number of pages that are not empty. -/
def pageCount (rows limit : ℕ) : ℕ := (rows + limit - 1) / limit

theorem lt_pageCount_iff {rows limit k : ℕ} (pos : 0 < limit) :
    k < pageCount rows limit ↔ k * limit < rows := by
  rw [pageCount, ← Nat.succ_le_iff, Nat.le_div_iff_mul_le pos, Nat.succ_mul]
  omega

/-- What the pages show, put together. -/
theorem map_flatMap_pages {pages : ℕ → List (JobId × Job)} {items : ℕ → List JobResponse} {n : ℕ}
    (shown : ∀ k < n, (pages k).map rowToResponse = (items k).map some) :
    ((List.range n).flatMap pages).map rowToResponse = ((List.range n).flatMap items).map some := by
  induction n with
  | zero => rfl
  | succ n ih =>
      simp only [List.range_succ, List.flatMap_append, List.map_append, List.flatMap_singleton]
      rw [ih fun k below => shown k (Nat.lt_succ_of_lt below), shown n (Nat.lt_succ_self n)]

theorem exists_items {xs : List (JobId × Job)} (some_ : ∀ x ∈ xs, (rowToResponse x).isSome) :
    ∃ items : List JobResponse, xs.map rowToResponse = items.map some := by
  induction xs with
  | nil => exact ⟨[], rfl⟩
  | cons x xs ih =>
      obtain ⟨item, first⟩ := Option.isSome_iff_exists.1 (some_ x List.mem_cons_self)
      obtain ⟨items, others⟩ := ih fun y member => some_ y (List.mem_cons_of_mem _ member)
      exact ⟨item :: items, by simp [first, others]⟩

theorem items_eq_nil_iff {xs : List (JobId × Job)} {items : List JobResponse}
    (shown : xs.map rowToResponse = items.map some) : items = [] ↔ xs = [] := by
  rw [← List.map_eq_nil_iff (f := some), ← shown, List.map_eq_nil_iff]

/-! ## The three conditions, one by one -/

variable {repr : String → String}

/-- A page is empty exactly from `pageCount` on. -/
theorem page_empty_iff {order : List (JobId × Job)}
    (arranges : Arranges createdAt (matching db f) order) (k : ℕ) :
    page limit k order = [] ↔ pageCount (matching db f).length limit ≤ k := by
  rw [page_eq_nil_iff limit.2.1, arranges.perm.length_eq, ← Nat.not_lt,
    ← lt_pageCount_iff limit.2.1, Nat.not_lt]

theorem pageCount_enough (db : Db) (f : JobFilters) (limit : PageLimit) :
    (matching db f).length ≤ pageCount (matching db f).length limit * limit.1 :=
  Nat.not_lt.1 fun short => Nat.lt_irrefl _ ((lt_pageCount_iff limit.2.1).2 short)

/-- The client stops at the page behind the last row. -/
theorem last_page (nonEmpty : f.NonEmpty) {arrange : ℕ → Arrangement createdAt} {n : ℕ}
    {answers : ℕ → JobListResponse}
    (ok : ∀ k ≤ n, listJobs repr takes db (arrange k) f limit (k * limit.1) = .ok (answers k))
    (filled : ∀ k < n, (answers k).items ≠ []) (last : (answers n).items = []) :
    n = pageCount (matching db f).length limit := by
  have all (k : ℕ) := (arrange k).arranges (matching db f)
  have shown (k : ℕ) (upTo : k ≤ n) :
      (page limit k ((arrange k).order (matching db f))).map rowToResponse =
        (answers k).items.map some :=
    ((listJobs_ok_iff nonEmpty).1 (ok k upTo)).2.2.1
  refine Nat.le_antisymm (Nat.not_lt.1 fun more => ?_) ?_
  · refine filled _ more ((items_eq_nil_iff (shown _ (Nat.le_of_lt more))).2 ?_)
    exact (page_empty_iff (all _) _).2 (Nat.le_refl _)
  · exact (page_empty_iff (all n) n).1 ((items_eq_nil_iff (shown n (Nat.le_refl n))).1 last)

/-- Every request that is part of a partition is accepted, its arguments are taken, and its
rows presentable. -/
theorem answered_of_partition (nonEmpty : f.NonEmpty)
    (partition : PagesPartition repr takes db f limit) :
    (∀ s ∈ f.status, s ∈ validStatuses) ∧
      (∀ k ≤ pageCount (matching db f).length limit, TakesAll takes f limit (k * limit.1)) ∧
      ∀ x ∈ matching db f, (rowToResponse x).isSome := by
  obtain ⟨order, arranges⟩ := exists_arranges createdAt (matching db f)
  obtain ⟨arrange, -⟩ := exists_arrangement arranges
  obtain ⟨n, answers, ok, filled, last, -, perm⟩ := partition fun _ => arrange
  refine ⟨((listJobs_ok_iff nonEmpty).1 (ok 0 (Nat.zero_le n))).1, fun k upTo => ?_,
    fun x member => ?_⟩
  · rw [← last_page nonEmpty ok filled last] at upTo
    exact ((listJobs_ok_iff nonEmpty).1 (ok k upTo)).2.1
  · obtain ⟨item, -, shown⟩ := List.mem_map.1 (perm.symm.subset (List.mem_map_of_mem member))
    rw [← shown]
    rfl

/-- Pages that partition the rows under every choice of orders have no straddled boundary. -/
theorem clean_of_partition (nonEmpty : f.NonEmpty)
    (partition : PagesPartition repr takes db f limit) (k : ℕ) :
    ¬ Straddles createdAt (matching db f) (k * limit.1) := by
  have presentable := (answered_of_partition nonEmpty partition).2.2
  revert k
  refine (pages_partition_iff (matching_nodup db f) limit.2.1 (pageCount_enough db f limit)).1 ?_
  intro orders all
  choose arrange chosen using fun k => exists_arrangement (all k)
  obtain ⟨n, answers, ok, filled, last, -, perm⟩ := partition arrange
  have shown (k : ℕ) (upTo : k ≤ n) :
      (page limit k (orders k)).map rowToResponse = (answers k).items.map some := by
    have answer := ((listJobs_ok_iff nonEmpty).1 (ok k upTo)).2.2.1
    rw [chosen k] at answer
    exact answer
  have pages := last_page nonEmpty ok filled last
  subst pages
  refine perm_of_answers (fun x member => ?_) presentable ?_
  · obtain ⟨k, -, inPage⟩ := List.mem_flatMap.1 member
    exact (all k).perm.subset (List.mem_of_mem_drop (List.mem_of_mem_take inPage))
  · rw [map_flatMap_pages fun k below => shown k (Nat.le_of_lt below)]
    exact perm

theorem partition_of_clean (nonEmpty : f.NonEmpty) (accepted : ∀ s ∈ f.status, s ∈ validStatuses)
    (taken : ∀ k ≤ pageCount (matching db f).length limit, TakesAll takes f limit (k * limit.1))
    (presentable : ∀ x ∈ matching db f, (rowToResponse x).isSome)
    (clean : ∀ k, ¬ Straddles createdAt (matching db f) (k * limit.1)) :
    PagesPartition repr takes db f limit := by
  intro arrange
  have all (k : ℕ) := (arrange k).arranges (matching db f)
  have fits (k : ℕ) : ∃ items : List JobResponse,
      (page limit k ((arrange k).order (matching db f))).map rowToResponse = items.map some :=
    exists_items fun x member => presentable x
      ((all k).perm.subset (List.mem_of_mem_drop (List.mem_of_mem_take member)))
  choose items shown using fits
  refine ⟨pageCount (matching db f).length limit, fun k =>
    { items := items k, total := (matching db f).length, limit := limit,
      offset := k * limit.1 }, ?_, ?_, ?_, fun _ _ => rfl, ?_⟩
  · intro k upTo
    exact (listJobs_ok_iff nonEmpty).2 ⟨accepted, taken k upTo, shown k, rfl, rfl, rfl⟩
  · intro k below none_
    exact Nat.not_le.2 below ((page_empty_iff (all k) k).1 ((items_eq_nil_iff (shown k)).1 none_))
  · exact (items_eq_nil_iff (shown _)).2 ((page_empty_iff (all _) _).2 (Nat.le_refl _))
  · rw [← map_flatMap_pages fun k _ => shown k]
    exact ((pages_partition_iff (matching_nodup db f) limit.2.1
      (pageCount_enough db f limit)).2 clean _ all).map rowToResponse

end

/-- **When pages partition the result.**  For any table, non-empty filters and limit: the pages
up to the first empty one hold every matching row exactly once and no other, and every
total is their number, whatever orders the queries choose, exactly when the status filter is
a status, the queries take the arguments of these pages, every matching row fits the response
model, and no group of matching rows of one `created_at` straddles a page boundary. -/
theorem list_pages_partition_iff (repr : String → String) (takes : Param → Bool) (db : Db)
    (f : JobFilters) (limit : PageLimit) (nonEmpty : f.NonEmpty) :
    PagesPartition repr takes db f limit ↔
      (∀ s ∈ f.status, s ∈ validStatuses) ∧
        (∀ k ≤ pageCount (matching db f).length limit, TakesAll takes f limit (k * limit.1)) ∧
        (∀ x ∈ matching db f, (rowToResponse x).isSome) ∧
        ∀ k, ¬ Straddles createdAt (matching db f) (k * limit.1) := by
  constructor
  · intro partition
    obtain ⟨accepted, taken, presentable⟩ := answered_of_partition nonEmpty partition
    exact ⟨accepted, taken, presentable, clean_of_partition nonEmpty partition⟩
  · rintro ⟨accepted, taken, presentable, clean⟩
    exact partition_of_clean nonEmpty accepted taken presentable clean

/-- A table of two jobs, `gap` seconds apart. -/
def demoPair (gap : Time) : Db :=
  (Db.exec 0 .empty (.insertJob demoJob)).exec gap (.insertJob demoJob)

def noFilters : JobFilters := ⟨none, none, none⟩

/-- The arguments that queries take, but for the years of a timestamp. -/
def demoTakes : Param → Bool
  | .text s => s.toList.all fun c => c.toNat ≠ 0
  | .timestamp _ => true
  | .int n => n < 2 ^ 63

/-- One second apart, their pages of one job partition them. -/
theorem list_pages_distinct :
    PagesPartition id demoTakes (demoPair 1) noFilters ⟨1, by decide⟩ := by
  refine (list_pages_partition_iff id demoTakes (demoPair 1) noFilters ⟨1, by decide⟩
    (by decide)).2 ⟨by decide, fun k upTo x member => ?_, by decide +kernel, ?_⟩
  · have pages : pageCount (matching (demoPair 1) noFilters).length 1 = 2 := by decide +kernel
    simp only [whereClause, noFilters, truthy, WhereClause.addIf, Option.map_none, List.nil_append,
      List.mem_cons, List.not_mem_nil, or_false] at member
    rcases member with rfl | rfl
    · decide
    · have : k ≤ 2 := pages ▸ upTo
      exact decide_eq_true (by omega)
  rintro k ⟨x, member, late, early⟩
  have alone : ∀ x ∈ matching (demoPair 1) noFilters,
      through createdAt (matching (demoPair 1) noFilters) x ≤
        ahead createdAt (matching (demoPair 1) noFilters) x + 1 := by decide +kernel
  have bound := alone x member
  omega

/-- Created at one instant, they may appear in any order on each page: one of them twice and
the other never. -/
theorem list_pages_of_twins :
    ¬ PagesPartition id demoTakes (demoPair 0) noFilters ⟨1, by decide⟩ := by
  intro partition
  have straddles : Straddles createdAt (matching (demoPair 0) noFilters) (1 * 1) := by
    decide +kernel
  exact clean_of_partition (by decide) partition 1 straddles

end TaskQueue
