/-
# TaskQueue.Schema -- the two tables

The `jobs` and `dead_letter_jobs` tables of `001_init.sql`, with the columns that
the workers, the loops and the API read or write.  Times are exact rationals, in
seconds.  A worker id stands for the text `worker-<uuid>`: the process that spawned
the worker and its slot there, so that distinct workers have distinct ids.
-/
import Mathlib.Data.Rat.Defs
import Mathlib.Algebra.Order.Ring.Rat
import TaskQueue.Lib.SerialTable

namespace TaskQueue

set_option autoImplicit false

abbrev Time := ℚ

abbrev JobId := ℕ

abbrev ProcId := ℕ

structure WorkerId where
  proc : ProcId
  slot : ℕ
  deriving DecidableEq, Repr

/-- `status TEXT … CHECK (status IN ('pending','claimed','running','done','failed','dead'))`. -/
inductive Status where
  | pending
  | claimed
  | running
  | done
  | failed
  | dead
  deriving DecidableEq, Repr

def Status.text : Status → String
  | .pending => "pending"
  | .claimed => "claimed"
  | .running => "running"
  | .done => "done"
  | .failed => "failed"
  | .dead => "dead"

/-- A JSON value, as the `jsonb` codec hands it to Python: a number is an `int`, or a `float`
if its text has a fraction. -/
inductive Json where
  | null
  | bool (b : Bool)
  | int (n : ℤ)
  | float (x : Float)
  | str (s : String)
  | arr (items : List Json)
  | obj (fields : List (String × Json))

/-- `priority INT … CHECK (priority BETWEEN 1 AND 10)`. -/
abbrev Priority := { p : ℕ // 1 ≤ p ∧ p ≤ 10 }

/-- A row of `jobs`; its `id` is the key of the table. -/
structure Job where
  type : String
  payload : Json
  status : Status
  priority : Priority
  attempt : ℕ
  maxRetries : ℕ
  runAt : Time
  claimedAt : Option Time
  heartbeatAt : Option Time
  completedAt : Option Time
  result : Option Json
  error : Option String
  workerId : Option WorkerId
  createdAt : Time

/-- A row of `dead_letter_jobs`. -/
structure DeadLetter where
  originalId : JobId
  type : String
  payload : Json
  error : String
  attempts : ℕ
  workerId : WorkerId
  diedAt : Time

structure Db where
  jobs : SerialTable Job
  deadLetters : List DeadLetter

def Db.empty : Db := ⟨.empty, []⟩

/-- The body of `POST /jobs`. -/
structure JobCreate where
  type : String
  payload : Json
  priority : Priority
  maxRetries : ℕ
  runAt : Option Time

/-- The job of the runs on fixed inputs. -/
def demoJob : JobCreate where
  type := "noop"
  payload := .obj []
  priority := ⟨5, by decide⟩
  maxRetries := 3
  runAt := none

end TaskQueue
