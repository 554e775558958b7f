/-
# TaskQueue.Api -- the routes that change a job

`POST /jobs` inserts a row, `DELETE /jobs/{id}` deletes one that is still pending.
-/
import TaskQueue.Statements

namespace TaskQueue

set_option autoImplicit false

/-- What a route answers, with the `detail` of its error. -/
inductive Answer where
  | noContent
  | notFound (detail : String)
  | conflict (detail : String)

/-- `create_job`: one INSERT; `run_at` defaults to `NOW()`. -/
def createJob (body : JobCreate) : Statement := .insertJob body

/-- `cancel_job`: one transaction, `SELECT status … FOR UPDATE`, then DELETE. -/
def cancelJob (db : Db) (id : JobId) : Answer × Option Statement :=
  match db.jobs.row id with
  | none => (.notFound ("Job " ++ toString id ++ " not found"), none)
  | some r =>
      if r.status = .pending then (.noContent, some (.deleteJob id))
      else
        (.conflict
          ("Job " ++ toString id ++ " is in status '" ++ r.status.text ++
            "' and cannot be cancelled. Only 'pending' jobs can be cancelled."), none)

/-- `cancel_job` answers 204 exactly on a pending row, and deletes exactly then. -/
theorem cancelJob_noContent_iff {db : Db} {id : JobId} :
    (cancelJob db id).1 = .noContent ↔ ∃ r, db.jobs.row id = some r ∧ r.status = .pending := by
  unfold cancelJob
  cases db.jobs.row id with
  | none => simp
  | some r => by_cases pending : r.status = .pending <;> simp [pending]

theorem cancelJob_statement {db : Db} {id : JobId} {st : Statement}
    (deletes : (cancelJob db id).2 = some st) :
    st = .deleteJob id ∧ ∃ r, db.jobs.row id = some r ∧ r.status = .pending := by
  unfold cancelJob at deletes
  cases at_ : db.jobs.row id with
  | none => simp [at_] at deletes
  | some r =>
      by_cases pending : r.status = .pending
      · simp only [at_, pending, if_true, Option.some.injEq] at deletes
        exact ⟨deletes.symm, r, rfl, pending⟩
      · simp [at_, pending] at deletes

end TaskQueue
