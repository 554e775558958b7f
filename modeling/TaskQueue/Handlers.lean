/-
# TaskQueue.Handlers -- the `collatz` handler

`_collatz_handler` takes `int(job["payload"]["n"])` and runs a loop whose only exit is
`cur == 1`.  The loop never awaits: while it runs, no other coroutine of the process
does, the heartbeats included.
-/
import TaskQueue.Lib.Loop
import TaskQueue.Worker

namespace TaskQueue

set_option autoImplicit false

/-! ## What Python makes of the payload -/

/-- The number that a float stands for; an infinity and NaN stand for none. -/
def floatValue (x : Float) : Option ℚ :=
  match x.toModel.unpack with
  | .finite .positive mantissa exponent _ => some (mantissa * 2 ^ exponent)
  | .finite .negative mantissa exponent _ => some (-(mantissa * 2 ^ exponent))
  | .zero _ => some 0
  | _ => none

/-- `int(x)` of a float drops the fraction. -/
def intOfFloat (x : Float) : Except PyError ℤ :=
  match floatValue x with
  | some q => .ok (if 0 ≤ q then q.floor else q.ceil)
  | none =>
      .error
        (if x.isNaN then
          { name := "ValueError", message := "cannot convert float NaN to integer" }
        else { name := "OverflowError", message := "cannot convert float infinity to integer" })

/-- `int` on the values for which it depends on how Python reads a text. -/
structure PyInt where
  ofStr : String → Except PyError ℤ

/-- The Python type of a JSON value. -/
def Json.pyType : Json → String
  | .null => "NoneType"
  | .bool _ => "bool"
  | .int _ => "int"
  | .float _ => "float"
  | .str _ => "str"
  | .arr _ => "list"
  | .obj _ => "dict"

/-- `int(value)`. -/
def PyInt.int (py : PyInt) : Json → Except PyError ℤ
  | .int n => .ok n
  | .float x => intOfFloat x
  | .bool b => .ok (if b then 1 else 0)
  | .str s => py.ofStr s
  | value =>
      .error
        { name := "TypeError"
          message :=
            "int() argument must be a string, a bytes-like object or a real number, not '" ++
              value.pyType ++ "'" }

/-- `value[key]`, for a string key. -/
def Json.item (key : String) : Json → Except PyError Json
  | .obj fields =>
      match fields.lookup key with
      | some value => .ok value
      | none => .error { name := "KeyError", message := "'" ++ key ++ "'" }
  | .arr _ =>
      .error { name := "TypeError", message := "list indices must be integers or slices, not str" }
  | .str _ =>
      .error { name := "TypeError", message := "string indices must be integers, not 'str'" }
  | value =>
      .error
        { name := "TypeError", message := "'" ++ value.pyType ++ "' object is not subscriptable" }

/-- `n = int(job["payload"]["n"])`. -/
def intArg (py : PyInt) (payload : Json) : Except PyError ℤ := payload.item "n" >>= py.int

/-! ## The loop -/

/-- The variables of the loop. -/
structure CollatzVars where
  cur : ℤ
  steps : ℕ
  maxVal : ℤ
  totalSum : ℤ

/-- One step of the 3n+1 sequence; `//` and `%` round down, as `/` and `%` do here. -/
def collatzNext (cur : ℤ) : ℤ := if cur % 2 = 0 then cur / 2 else 3 * cur + 1

namespace CollatzVars

def start (n : ℤ) : CollatzVars where
  cur := n
  steps := 0
  maxVal := n
  totalSum := n

/-- `while cur != 1`. -/
def guard (v : CollatzVars) : Bool := v.cur ≠ 1

def body (v : CollatzVars) : CollatzVars where
  cur := collatzNext v.cur
  steps := v.steps + 1
  maxVal := max v.maxVal (collatzNext v.cur)
  totalSum := v.totalSum + collatzNext v.cur

def result (n : ℤ) (v : CollatzVars) : Json :=
  .obj
    [("n", .int n), ("steps", .int v.steps), ("max_value", .int v.maxVal),
      ("sequence_checksum", .int v.totalSum)]

@[simp] theorem guard_eq_false {v : CollatzVars} : v.guard = false ↔ v.cur = 1 := by
  simp [guard]

theorem cur_iterate (v : CollatzVars) (k : ℕ) : (body^[k] v).cur = collatzNext^[k] v.cur := by
  induction k generalizing v with
  | zero => rfl
  | succ k ih => exact ih v.body

end CollatzVars

/-- `_collatz_handler`: what it returns or raises within `fuel` rounds of its loop. -/
def collatzHandler (py : PyInt) (fuel : ℕ) (payload : Json) : Option (Except PyError Json) :=
  match intArg py payload with
  | .error e => some (.error e)
  | .ok n =>
      (Loop.whileFuel CollatzVars.guard CollatzVars.body fuel (.start n)).map fun v =>
        .ok (v.result n)

/-- The sequence leaves the integers up to 0 to themselves. -/
theorem collatzNext_nonpos {n : ℤ} (nonpos : n ≤ 0) : collatzNext n ≤ 0 := by
  unfold collatzNext
  split <;> omega

/-- Neither 0 nor a negative integer ever gets to 1. -/
theorem collatz_diverges {n : ℤ} (nonpos : n ≤ 0) (fuel : ℕ) :
    Loop.whileFuel CollatzVars.guard CollatzVars.body fuel (.start n) = none := by
  refine Loop.diverges (P := fun v => v.cur ≤ 0) ?_ ?_ nonpos fuel
  · intro v below
    have : v.cur ≠ 1 := by omega
    simpa [CollatzVars.guard] using this
  · intro v below
    exact collatzNext_nonpos below

theorem collatz_ends_of_reaches {n : ℤ} (reaches : ∃ k, collatzNext^[k] n = 1) :
    ∃ fuel out, Loop.whileFuel CollatzVars.guard CollatzVars.body fuel (.start n) = some out := by
  obtain ⟨k, one⟩ := reaches
  refine Loop.ends_iff.2 ⟨k, ?_⟩
  rw [CollatzVars.guard_eq_false, CollatzVars.cur_iterate]
  exact one

/-- **When the `collatz` handler ends.**  Granted that the 3n+1 sequence reaches 1 from the
payload's integer if that is positive, the handler returns or raises after finitely many
rounds exactly when it raises before its loop or the integer is positive. -/
theorem collatz_ends_iff (py : PyInt) (payload : Json)
    (converges : ∀ n, intArg py payload = .ok n → 0 < n → ∃ k, collatzNext^[k] n = 1) :
    (∃ fuel outcome, collatzHandler py fuel payload = some outcome) ↔
      ∀ n, intArg py payload = .ok n → 0 < n := by
  constructor
  · rintro ⟨fuel, outcome, ends⟩ n arg
    by_contra nonpos
    simp [collatzHandler, arg, collatz_diverges (not_lt.1 nonpos) fuel] at ends
  · intro positive
    cases arg : intArg py payload with
    | error e => exact ⟨0, .error e, by simp [collatzHandler, arg]⟩
    | ok n =>
        obtain ⟨fuel, v, ends⟩ := collatz_ends_of_reaches (converges n arg (positive n arg))
        exact ⟨fuel, .ok (v.result n), by simp [collatzHandler, arg, ends]⟩

/-- No string is read. -/
def demoInt : PyInt where
  ofStr s :=
    .error
      { name := "ValueError", message := "invalid literal for int() with base 10: '" ++ s ++ "'" }

/-- From 6 the loop reaches 1. -/
theorem collatz_ends_six :
    ∃ fuel outcome, collatzHandler demoInt fuel (.obj [("n", .int 6)]) = some outcome := by
  have arg : intArg demoInt (.obj [("n", .int 6)]) = .ok 6 := rfl
  refine (collatz_ends_iff demoInt _ fun n got _ => ?_).2 fun n got => ?_
  · cases arg.symm.trans got
    exact ⟨8, by decide⟩
  · cases arg.symm.trans got
    decide

/-- The payload `{"n": 0}` keeps the handler in its loop for ever. -/
theorem collatz_zero_hangs :
    intArg demoInt (.obj [("n", .int 0)]) = .ok 0 ∧
      ¬ ∃ fuel outcome, collatzHandler demoInt fuel (.obj [("n", .int 0)]) = some outcome := by
  have arg : intArg demoInt (.obj [("n", .int 0)]) = .ok 0 := rfl
  refine ⟨arg, ?_⟩
  rintro ⟨fuel, outcome, ends⟩
  simp [collatzHandler, arg, collatz_diverges (le_refl 0) fuel] at ends

end TaskQueue
