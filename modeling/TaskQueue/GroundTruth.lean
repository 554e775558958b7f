/-
# TaskQueue.GroundTruth -- how the benchmark verifies a result

`verify_result` computes the result of a job once more from its payload and compares the
two; whatever that raises makes the result wrong.  The payload goes into the computation as
it is, without the `int` of the handlers, so what happens depends on its Python type: on 7 the
trial division runs, on 7.0 `math.isqrt` raises.  The benchmark's 3n+1 loop has no more exits
than the handler's.

* `PyNumber` is the arithmetic of that loop, on integers and on floats.
* `verifyResult_shape`: every branch of `verify_result` is that loop, or takes no fuel.
* `verifyResult_ends_iff`: `verify_result` returns unless the loop never gets to 1.
-/
import TaskQueue.Primality

namespace TaskQueue

set_option autoImplicit false

/-! ## Python -/

/-- One of Python's types of numbers, as far as the 3n+1 loop and the comparison with its
outcome use it. -/
structure PyNumber (N : Type) where
  /-- `x == 1` -/
  isOne : N → Bool
  /-- `x % 2 == 0` -/
  isEven : N → Bool
  /-- `x // 2` -/
  half : N → N
  /-- `3 * x + 1` -/
  triple : N → N
  max : N → N → N
  add : N → N → N
  /-- `value == x` -/
  eq : Json → N → Bool
  /-- `str(x)` -/
  str : N → Except PyError String

/-- What the benchmark takes from Python: the hash, and the texts of values. -/
structure PyRuntime where
  /-- `hashlib.sha256(data).digest()` -/
  sha256 : List UInt8 → List UInt8
  /-- `str(value)`, which raises on an integer of too many digits -/
  str : Json → Except PyError String
  /-- what `x % 2` or `3 * (x % 2) + 1` raises on a string -/
  formatError : String → PyError

/-- A value as an integer; `True` is 1 and `False` is 0, and a float is none. -/
def Json.int? : Json → Option ℤ
  | .int n => some n
  | .bool b => some (if b then 1 else 0)
  | _ => none

/-- `value == m`, where a float is compared by the number that it stands for. -/
def Json.eqInt (value : Json) (m : ℤ) : Bool :=
  match value with
  | .float x => floatValue x = some (m : ℚ)
  | value => value.int? = some m

/-- `value == x`. -/
def Json.eqFloat (value : Json) (x : Float) : Bool :=
  match value with
  | .float y => y == x
  | value =>
      match value.int? with
      | some m => floatValue x = some (m : ℚ)
      | none => false

/-- `value == s`. -/
def Json.eqStr : Json → String → Bool
  | .str s, s' => s = s'
  | _, _ => false

/-- `value.get(key)`. -/
def Json.get (key : String) : Json → Except PyError Json
  | .obj fields => .ok ((fields.lookup key).getD .null)
  | value =>
      .error
        { name := "AttributeError"
          message := "'" ++ value.pyType ++ "' object has no attribute 'get'" }

/-- `value.encode()`. -/
def Json.encode : Json → Except PyError (List UInt8)
  | .str s => .ok s.toUTF8.toList
  | value =>
      .error
        { name := "AttributeError"
          message := "'" ++ value.pyType ++ "' object has no attribute 'encode'" }

/-- A value where only an integer will do, as in `range(value)`. -/
def Json.index (value : Json) : Except PyError ℤ :=
  match value.int? with
  | some m => .ok m
  | none =>
      .error
        { name := "TypeError"
          message := "'" ++ value.pyType ++ "' object cannot be interpreted as an integer" }

/-- `data.hex()`. -/
def hex (data : List UInt8) : String :=
  String.ofList
    (data.flatMap fun b => [Nat.digitChar (b.toNat / 16), Nat.digitChar (b.toNat % 16)])

/-- `x % 2 == 0`. -/
def floatIsEven (x : Float) : Bool :=
  match floatValue x with
  | some q => (q / 2).den = 1
  | none => false

/-- The integers. -/
def PyRuntime.int (py : PyRuntime) : PyNumber ℤ where
  isOne x := x = 1
  isEven x := x % 2 = 0
  half x := x / 2
  triple x := 3 * x + 1
  max := max
  add x y := x + y
  eq := Json.eqInt
  str x := py.str (.int x)

/-- The booleans, integers but for their text. -/
def PyRuntime.bool (py : PyRuntime) : PyNumber ℤ :=
  { py.int with str := fun x => py.str (.bool (x = 1)) }

/-- The floats; `x // 2` is computed of an even one only, where it is `x / 2`. -/
def PyRuntime.float (py : PyRuntime) : PyNumber Float where
  isOne x := x == 1
  isEven := floatIsEven
  half x := x / 2
  triple x := 3 * x + 1
  max x y := if x < y then y else x
  add x y := x + y
  eq := Json.eqFloat
  str x := py.str (.float x)

/-! ## Ground truth -/

/-- `ground_truth_is_prime`, the trial division of the handler without its `int`: it
compares the value with 2 first, and takes the square root, an error of a float, only of what
is above 2 and not even. -/
def groundTruthIsPrime : Json → Except PyError Primality
  | .int n => .ok (trialDivision n)
  | .float x =>
      if x < 2 then .ok { isPrime := false, divisorsChecked := 0 }
      else if x == 2 then .ok { isPrime := true, divisorsChecked := 1 }
      else if floatIsEven x then .ok { isPrime := false, divisorsChecked := 1 }
      else
        .error
          { name := "TypeError"
            message := "'float' object cannot be interpreted as an integer" }
  | .bool b => .ok (trialDivision (if b then 1 else 0))
  | value =>
      .error
        { name := "TypeError"
          message := "'<' not supported between instances of '" ++ value.pyType ++ "' and 'int'" }

/-- The variables of `ground_truth_collatz`. -/
structure CollatzTruth (N : Type) where
  cur : N
  steps : ℕ
  maxV : N
  total : N

/-- `cur // 2 if cur % 2 == 0 else 3 * cur + 1`. -/
def PyNumber.next {N : Type} (num : PyNumber N) (cur : N) : N :=
  if num.isEven cur then num.half cur else num.triple cur

namespace CollatzTruth

variable {N : Type}

def start (n : N) : CollatzTruth N where
  cur := n
  steps := 0
  maxV := n
  total := n

/-- `while cur != 1`. -/
def guard (num : PyNumber N) (v : CollatzTruth N) : Bool := !num.isOne v.cur

def body (num : PyNumber N) (v : CollatzTruth N) : CollatzTruth N where
  cur := num.next v.cur
  steps := v.steps + 1
  maxV := num.max v.maxV (num.next v.cur)
  total := num.add v.total (num.next v.cur)

end CollatzTruth

/-- `ground_truth_collatz`, within `fuel` rounds of its loop. -/
def groundTruthCollatz {N : Type} (num : PyNumber N) (fuel : ℕ) (n : N) :
    Option (CollatzTruth N) :=
  Loop.whileFuel (CollatzTruth.guard num) (CollatzTruth.body num) fuel (.start n)

/-- The `final_hash` of `ground_truth_sha256_chain`. -/
def groundTruthSha256Chain (py : PyRuntime) (seed rounds : Json) : Except PyError String := do
  let current ← seed.encode
  let rounds ← rounds.index
  return hex (py.sha256^[rounds.toNat] current)

/-! ## `verify_result` -/

/-- Whether a result is correct, and the reason if it is not. -/
abbrev Check := Bool × String

def verifyIsPrime (py : PyRuntime) (payload result : Json) : Except PyError Check := do
  let n ← payload.item "n"
  let expected ← groundTruthIsPrime n
  let got ← result.get "is_prime"
  if !got.eqInt (if expected.isPrime then 1 else 0) then
    return (false, "n=" ++ (← py.str n) ++ ": got is_prime=" ++ (← py.str got) ++
      ", expected " ++ (← py.str (.bool expected.isPrime)))
  let checked ← result.get "divisors_checked"
  if !checked.eqInt expected.divisorsChecked then
    return (false, "n=" ++ (← py.str n) ++ ": divisors_checked mismatch")
  return (true, "")

/-- The loop over the keys of a `collatz` result: each with its comparison to the expected
value and that value's text. -/
def firstMismatch (py : PyRuntime) (n result : Json) :
    List (String × (Json → Bool) × Except PyError String) → Except PyError Check
  | [] => return (true, "")
  | (key, equals, expected) :: keys => do
      let got ← result.get key
      if equals got then firstMismatch py n result keys
      else
        return (false, "n=" ++ (← py.str n) ++ ": " ++ key ++ " mismatch (got " ++
          (← py.str got) ++ ", expected " ++ (← expected) ++ ")")

def checkCollatz {N : Type} (py : PyRuntime) (num : PyNumber N) (n result : Json)
    (expected : CollatzTruth N) : Except PyError Check :=
  firstMismatch py n result
    [("steps", fun got => got.eqInt expected.steps, py.str (.int expected.steps)),
      ("max_value", fun got => num.eq got expected.maxV, num.str expected.maxV),
      ("sequence_checksum", fun got => num.eq got expected.total, num.str expected.total)]

/-- The `collatz` branch for the value `n` of `payload["n"]`. -/
def verifyCollatzOf (py : PyRuntime) (fuel : ℕ) (result : Json) (n : Json) :
    Option (Except PyError Check) :=
  match n with
  | .int m => (groundTruthCollatz py.int fuel m).map (checkCollatz py py.int n result)
  | .float x => (groundTruthCollatz py.float fuel x).map (checkCollatz py py.float n result)
  | .bool b =>
      (groundTruthCollatz py.bool fuel (if b then 1 else 0)).map (checkCollatz py py.bool n result)
  | .str s => some (.error (py.formatError s))
  | value =>
      some
        (.error
          { name := "TypeError"
            message :=
              "unsupported operand type(s) for %: '" ++ value.pyType ++ "' and 'int'" })

def verifyCollatz (py : PyRuntime) (fuel : ℕ) (payload result : Json) :
    Option (Except PyError Check) :=
  match payload.item "n" with
  | .ok n => verifyCollatzOf py fuel result n
  | .error e => some (.error e)

def verifySha256Chain (py : PyRuntime) (payload result : Json) : Except PyError Check := do
  let seed ← payload.item "seed"
  let rounds ← payload.item "rounds"
  let expected ← groundTruthSha256Chain py seed rounds
  let got ← result.get "final_hash"
  if !got.eqStr expected then
    return (false, "hash mismatch for seed=" ++ (← py.str seed) ++ " rounds=" ++ (← py.str rounds))
  return (true, "")

/-- `except Exception as e`. -/
def caught : Except PyError Check → Check
  | .ok check => check
  | .error e => (false, "verification error: " ++ e.message)

/-- `verify_result`: what it returns within `fuel` rounds of a loop. -/
def verifyResult (py : PyRuntime) (fuel : ℕ) (jobType : String) (payload result : Json) :
    Option Check :=
  if jobType = "is_prime" then some (caught (verifyIsPrime py payload result))
  else if jobType = "collatz" then (verifyCollatz py fuel payload result).map caught
  else if jobType = "sha256_chain" then some (caught (verifySha256Chain py payload result))
  else some (false, "unknown job_type: " ++ jobType)

/-! ## When `verify_result` ends -/

/-- The 3n+1 sequence of a value gets to 1; a value that has none ends by an exception. -/
def CollatzEnds (py : PyRuntime) : Json → Prop
  | .int m => ∃ k, collatzNext^[k] m = 1
  | .float x => ∃ k, py.float.isOne (py.float.next^[k] x) = true
  | .bool b => ∃ k, collatzNext^[k] (if b then 1 else 0) = 1
  | _ => True

/-- If the job is a `collatz` job, the sequence of its `n` gets to 1. -/
def VerificationEnds (py : PyRuntime) (jobType : String) (payload : Json) : Prop :=
  jobType = "collatz" → ∀ n, payload.item "n" = .ok n → CollatzEnds py n

section

variable {py : PyRuntime} {fuel more : ℕ} {jobType : String} {payload result n : Json}

theorem CollatzTruth.cur_iterate {N : Type} (num : PyNumber N) (v : CollatzTruth N) (k : ℕ) :
    ((body num)^[k] v).cur = num.next^[k] v.cur := by
  induction k generalizing v with
  | zero => rfl
  | succ k ih => exact ih (v.body num)

theorem groundTruthCollatz_ends_iff {N : Type} (num : PyNumber N) (n : N) :
    (∃ fuel v, groundTruthCollatz num fuel n = some v) ↔
      ∃ k, num.isOne (num.next^[k] n) = true := by
  refine Loop.ends_iff.trans (exists_congr fun k => ?_)
  rw [CollatzTruth.guard, CollatzTruth.cur_iterate, Bool.not_eq_false']
  rfl

theorem int_ends_iff (py : PyRuntime) (m : ℤ) :
    (∃ k, py.int.isOne (py.int.next^[k] m) = true) ↔ ∃ k, collatzNext^[k] m = 1 := by
  have next : py.int.next = collatzNext := by
    funext x
    simp [PyNumber.next, PyRuntime.int, collatzNext]
  refine exists_congr fun k => ?_
  rw [next]
  exact decide_eq_true_iff

/-- The `collatz` branch is one loop, or raises before it. -/
theorem verifyCollatzOf_shape (py : PyRuntime) (result n : Json) :
    (CollatzEnds py n ∧ ∃ out, ∀ fuel, verifyCollatzOf py fuel result n = some out) ∨
      ∃ (N : Type) (num : PyNumber N) (m : N),
        (CollatzEnds py n ↔ ∃ k, num.isOne (num.next^[k] m) = true) ∧
          ∀ fuel, verifyCollatzOf py fuel result n =
            (groundTruthCollatz num fuel m).map (checkCollatz py num n result) := by
  cases n with
  | int m => exact .inr ⟨ℤ, py.int, m, (int_ends_iff py m).symm, fun _ => rfl⟩
  | float x => exact .inr ⟨Float, py.float, x, Iff.rfl, fun _ => rfl⟩
  | bool b => exact .inr ⟨ℤ, py.bool, _, (int_ends_iff py _).symm, fun _ => rfl⟩
  | _ => exact .inl ⟨trivial, _, fun _ => rfl⟩

/-- Every branch of `verify_result` is one loop, or takes no fuel. -/
theorem verifyResult_shape (py : PyRuntime) (jobType : String) (payload result : Json) :
    (VerificationEnds py jobType payload ∧
        ∃ check, ∀ fuel, verifyResult py fuel jobType payload result = some check) ∨
      ∃ (N : Type) (num : PyNumber N) (m : N) (check : CollatzTruth N → Check),
        (VerificationEnds py jobType payload ↔ ∃ k, num.isOne (num.next^[k] m) = true) ∧
          ∀ fuel, verifyResult py fuel jobType payload result =
            (groundTruthCollatz num fuel m).map check := by
  by_cases collatz : jobType = "collatz"
  · subst collatz
    rw [VerificationEnds, forall_prop_of_true rfl]
    cases item : payload.item "n" with
    | error e =>
        refine .inl ⟨fun n got => (by cases got), caught (.error e), fun fuel => ?_⟩
        simp [verifyResult, verifyCollatz, item]
    | ok n =>
        have only : (∀ n', Except.ok n = (.ok n' : Except PyError Json) → CollatzEnds py n') ↔
            CollatzEnds py n := by
          simp
        have branch (fuel : ℕ) : verifyResult py fuel "collatz" payload result =
            (verifyCollatzOf py fuel result n).map caught := by
          simp [verifyResult, verifyCollatz, item]
        rw [only]
        rcases verifyCollatzOf_shape py result n with
          ⟨ends, out, always⟩ | ⟨N, num, m, ends, loop⟩
        · exact .inl ⟨ends, caught out, fun fuel => by rw [branch, always, Option.map_some]⟩
        · exact .inr ⟨N, num, m, _, ends, fun fuel => by rw [branch, loop, Option.map_map]⟩
  · refine .inl ⟨fun same => absurd same collatz, ?_⟩
    simp only [verifyResult, if_neg collatz]
    split
    · exact ⟨_, fun _ => rfl⟩
    · split
      · exact ⟨_, fun _ => rfl⟩
      · exact ⟨_, fun _ => rfl⟩

/-- More fuel never changes a verification. -/
theorem verifyResult_mono {check : Check} (le : fuel ≤ more)
    (ends : verifyResult py fuel jobType payload result = some check) :
    verifyResult py more jobType payload result = some check := by
  rcases verifyResult_shape py jobType payload result with
    ⟨-, check', always⟩ | ⟨N, num, m, check', -, loop⟩
  · rw [always] at ends ⊢
    exact ends
  · rw [loop, Option.map_eq_some_iff] at ends ⊢
    obtain ⟨v, truth, same⟩ := ends
    exact ⟨v, Loop.whileFuel_mono le truth, same⟩

/-- **When `verify_result` ends**: always, but for a `collatz` job whose sequence never
gets to 1. -/
theorem verifyResult_ends_iff :
    (∃ fuel check, verifyResult py fuel jobType payload result = some check) ↔
      VerificationEnds py jobType payload := by
  rcases verifyResult_shape py jobType payload result with
    ⟨ends, check, always⟩ | ⟨N, num, m, check, ends, loop⟩
  · exact iff_of_true ⟨0, check, always 0⟩ ends
  · rw [ends, ← groundTruthCollatz_ends_iff]
    refine exists_congr fun fuel => ?_
    rw [loop]
    constructor
    · rintro ⟨check', mapped⟩
      obtain ⟨v, truth, -⟩ := Option.map_eq_some_iff.1 mapped
      exact ⟨v, truth⟩
    · rintro ⟨v, truth⟩
      exact ⟨_, by rw [truth, Option.map_some]⟩

end

end TaskQueue
