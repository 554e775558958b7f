/-
# TaskQueue.Acceptance -- what the benchmark makes of the handlers' results

`math_benchmark.py` has its own copy of the computations of the `is_prime`, `collatz` and
`sha256_chain` handlers, and compares.  The copies differ where a payload has another type than
the benchmark's own: a handler takes `int(n)` and `str(seed)` and has a default for `rounds`,
the ground truth takes the values as they are.  What it makes of a float depends on its value, and
is left out of the results here.

* `Verifiable` are the payloads that both read alike.
* `verify_accepts`: their results are accepted; `verify_rejects`: no others are.
-/
import TaskQueue.Benchmark
import TaskQueue.Registry

namespace TaskQueue

set_option autoImplicit false

/-- The key has an `int`, or a boolean, which is one; a float such as 7.0 is none. -/
def Json.HasInt (payload : Json) (key : String) : Prop :=
  ∃ value n, payload.item key = .ok value ∧ value.int? = some n

def Json.HasText (payload : Json) (key : String) : Prop :=
  ∃ s, payload.item key = .ok (.str s)

/-- A payload with values of the types that the ground truth expects. -/
def Verifiable (payload : Json) (jobType : String) : Prop :=
  ((jobType = "is_prime" ∨ jobType = "collatz") ∧ payload.HasInt "n") ∨
    (jobType = "sha256_chain" ∧ payload.HasText "seed" ∧ payload.HasInt "rounds")

section

variable {py : HandlerPython} {rt : PyRuntime} {fuel : ℕ} {payload value v : Json} {n m : ℤ}

@[simp] theorem ok_bind {α β : Type} (a : α) (f : α → Except PyError β) :
    Except.ok a >>= f = f a := rfl

@[simp] theorem error_bind {α β : Type} (e : PyError) (f : α → Except PyError β) :
    Except.error e >>= f = .error e := rfl

/-! ## Values that both read alike -/

theorem verifiable_isPrime : Verifiable payload "is_prime" ↔ payload.HasInt "n" := by
  simp [Verifiable]

theorem verifiable_collatz : Verifiable payload "collatz" ↔ payload.HasInt "n" := by
  simp [Verifiable]

theorem verifiable_sha256Chain :
    Verifiable payload "sha256_chain" ↔ payload.HasText "seed" ∧ payload.HasInt "rounds" := by
  simp [Verifiable]

theorem int_of_int? (int : value.int? = some n) : py.int.int value = .ok n := by
  cases value with
  | int m =>
      cases int
      rfl
  | bool b =>
      cases int
      rfl
  | _ => cases int

@[simp] theorem eqInt_int : (Json.int m).eqInt n = decide (m = n) := by
  simp [Json.eqInt, Json.int?]

theorem intArg_of_int? (item : payload.item "n" = .ok value) (int : value.int? = some n) :
    intArg py.int payload = .ok n := by
  rw [intArg, item]
  exact int_of_int? int

/-! ## `is_prime` -/

theorem groundTruthIsPrime_of_int? (int : value.int? = some n) :
    groundTruthIsPrime value = .ok (trialDivision n) := by
  cases value with
  | int m =>
      cases int
      rfl
  | bool b =>
      cases int
      rfl
  | _ => cases int

@[simp] theorem eqInt_bool (b : Bool) : (Json.bool b).eqInt (if b then 1 else 0) = true := by
  cases b <;> rfl

theorem verifyIsPrime_accepts (item : payload.item "n" = .ok value) (int : value.int? = some n) :
    verifyIsPrime rt payload ((trialDivision n).result n) = .ok (true, "") := by
  have got : ((trialDivision n).result n).get "is_prime" =
      .ok (.bool (trialDivision n).isPrime) := rfl
  have checked : ((trialDivision n).result n).get "divisors_checked" =
      .ok (.int (trialDivision n).divisorsChecked) := rfl
  simp [verifyIsPrime, item, groundTruthIsPrime_of_int? int, got, checked]
  rfl

/-! ## `collatz` -/

/-- The variables of the handler's loop, as those of the ground truth. -/
def CollatzVars.truth (v : CollatzVars) : CollatzTruth ℤ where
  cur := v.cur
  steps := v.steps
  maxV := v.maxVal
  total := v.totalSum

/-- The ground truth runs the handler's loop. -/
theorem groundTruthCollatz_int (fuel : ℕ) (n : ℤ) :
    groundTruthCollatz rt.int fuel n =
      (Loop.whileFuel CollatzVars.guard CollatzVars.body fuel (.start n)).map
        CollatzVars.truth := by
  refine Loop.whileFuel_map CollatzVars.truth (fun v => ?_) (fun v => ?_) fuel (.start n)
  · simp [CollatzTruth.guard, CollatzVars.truth, CollatzVars.guard, PyRuntime.int]
  · simp [CollatzTruth.body, CollatzVars.truth, CollatzVars.body, PyRuntime.int, PyNumber.next,
      collatzNext]

theorem checkCollatz_accepts {num : PyNumber ℤ} (eq : num.eq = Json.eqInt) (out : CollatzVars) :
    checkCollatz rt num value (out.result n) out.truth = .ok (true, "") := by
  have steps : (out.result n).get "steps" = .ok (.int out.steps) := rfl
  have max : (out.result n).get "max_value" = .ok (.int out.maxVal) := rfl
  have sum : (out.result n).get "sequence_checksum" = .ok (.int out.totalSum) := rfl
  simp [checkCollatz, firstMismatch, eq, steps, max, sum, CollatzVars.truth]
  rfl

theorem verifyCollatz_accepts (item : payload.item "n" = .ok value) (int : value.int? = some n)
    {out : CollatzVars}
    (ends : Loop.whileFuel CollatzVars.guard CollatzVars.body fuel (.start n) = some out) :
    verifyCollatz rt fuel payload (out.result n) = some (.ok (true, "")) := by
  have truth : groundTruthCollatz rt.int fuel n = some out.truth := by
    rw [groundTruthCollatz_int, ends]
    rfl
  rw [verifyCollatz, item]
  cases value with
  | int m =>
      cases int
      show (groundTruthCollatz rt.int _ _).map _ = _
      rw [truth, Option.map_some, checkCollatz_accepts rfl]
  | bool b =>
      cases int
      show (groundTruthCollatz rt.int _ _).map _ = _
      rw [truth, Option.map_some, checkCollatz_accepts rfl]
  | _ => cases int

/-! ## `sha256_chain` -/

theorem verifySha256Chain_accepts {seed : String} (seed_ : payload.item "seed" = .ok (.str seed))
    (item : payload.item "rounds" = .ok value) (int : value.int? = some n) (first second : Json) :
    verifySha256Chain rt payload (.obj [("seed", first), ("rounds", second),
      ("final_hash", .str (hex (rt.sha256^[n.toNat] seed.toUTF8.toList)))]) = .ok (true, "") := by
  have index : value.index = .ok n := by simp [Json.index, int]
  have expected : groundTruthSha256Chain rt (.str seed) value =
      .ok (hex (rt.sha256^[n.toNat] seed.toUTF8.toList)) := by
    rw [groundTruthSha256Chain, index]
    rfl
  have got (digest : String) : (Json.obj [("seed", first), ("rounds", second),
      ("final_hash", .str digest)]).get "final_hash" = .ok (.str digest) := rfl
  have same (digest : String) : (Json.str digest).eqStr digest = true := decide_eq_true rfl
  simp only [verifySha256Chain, seed_, item, expected, got, same, ok_bind]
  rfl

/-! ## What the handlers return -/

theorem bind_ok {α β : Type} {x : Except PyError α} {f : α → Except PyError β} {b : β} :
    x >>= f = .ok b ↔ ∃ a, x = .ok a ∧ f a = .ok b := by
  cases x with
  | ok a => simp
  | error e => simp

/-- What `int` reads is an integer, a float, or a text. -/
theorem int_ok {value : Json} (ok : py.int.int value = .ok n) :
    value.int? = some n ∨ (∃ x, value = .float x) ∨ ∃ s, value = .str s := by
  cases value with
  | int m =>
      cases ok
      exact .inl rfl
  | float x => exact .inr (.inl ⟨x, rfl⟩)
  | bool b =>
      cases ok
      exact .inl rfl
  | str s => exact .inr (.inr ⟨s, rfl⟩)
  | _ => cases ok

theorem isPrime_returns {job : Record}
    (returns : (Builtin.isPrime py).run fuel job = some (.ok v)) :
    ∃ value n, job.payload.item "n" = .ok value ∧ py.int.int value = .ok n ∧
      v = (trialDivision n).result n := by
  have handled : isPrimeHandler py.int job.payload = .ok v := Option.some.inj returns
  rw [isPrimeHandler] at handled
  cases arg : intArg py.int job.payload with
  | error e =>
      rw [arg] at handled
      cases handled
  | ok n =>
      rw [arg] at handled
      cases handled
      obtain ⟨value, item, int⟩ := bind_ok.1 arg
      exact ⟨value, n, item, int, rfl⟩

theorem collatz_returns {job : Record}
    (returns : (Builtin.collatz py).run fuel job = some (.ok v)) :
    ∃ value n out, job.payload.item "n" = .ok value ∧ py.int.int value = .ok n ∧
      Loop.whileFuel CollatzVars.guard CollatzVars.body fuel (.start n) = some out ∧
      v = out.result n := by
  have handled : collatzHandler py.int fuel job.payload = some (.ok v) := returns
  rw [collatzHandler] at handled
  cases arg : intArg py.int job.payload with
  | error e =>
      rw [arg] at handled
      cases handled
  | ok n =>
      simp only [arg, Option.map_eq_some_iff] at handled
      obtain ⟨out, ends, same⟩ := handled
      cases same
      obtain ⟨value, item, int⟩ := bind_ok.1 arg
      exact ⟨value, n, out, item, int, ends, rfl⟩

theorem sha256Chain_returns {job : Record}
    (returns : (Builtin.sha256Chain py).run fuel job = some (.ok v)) :
    ∃ value seed value' rounds, job.payload.item "seed" = .ok value ∧ py.str value = .ok seed ∧
      job.payload.getOr "rounds" (.int 1000) = .ok value' ∧ py.int.int value' = .ok rounds ∧
      v = .obj [("seed", .str seed), ("rounds", .int rounds), ("final_hash",
        .str (hex (py.runtime.sha256^[rounds.toNat] seed.toUTF8.toList)))] := by
  have handled : sha256ChainHandler py job.payload = .ok v := Option.some.inj returns
  obtain ⟨seed, first, rest⟩ := bind_ok.1 handled
  obtain ⟨rounds, second, made⟩ := bind_ok.1 rest
  obtain ⟨value, item, str⟩ := bind_ok.1 first
  obtain ⟨value', item', int⟩ := bind_ok.1 second
  cases made
  exact ⟨value, seed, value', rounds, item, str, item', int, rfl⟩

/-- A key that is there has no default. -/
theorem getOr_of_item {key : String} {default_ : Json} (item : payload.item key = .ok value) :
    payload.getOr key default_ = .ok value := by
  cases payload with
  | obj fields =>
      cases found : fields.lookup key with
      | none => simp [Json.item, found] at item
      | some value' =>
          simp only [Json.item, found, Except.ok.injEq] at item
          simp [Json.getOr, found, item]
  | _ => cases item

/-! ## Accepted and rejected -/

/-- The handler of a job type whose results the benchmark verifies. -/
inductive Verified (py : HandlerPython) : String → Handler → Prop
  | isPrime : Verified py "is_prime" (Builtin.isPrime py)
  | collatz : Verified py "collatz" (Builtin.collatz py)
  | sha256Chain : Verified py "sha256_chain" (Builtin.sha256Chain py)

variable {jobType : String} {h : Handler} {job : Record}

/-- What a handler returns on a payload that both read alike is accepted. -/
theorem verify_accepts (verified : Verified py jobType h) (typed : Verifiable job.payload jobType)
    (returns : h.run fuel job = some (.ok v)) :
    verifyResult py.runtime fuel jobType job.payload v = some (true, "") := by
  cases verified with
  | isPrime =>
      obtain ⟨value, n, item, read, rfl⟩ := isPrime_returns returns
      obtain ⟨value', n', item', int⟩ := verifiable_isPrime.1 typed
      cases item.symm.trans item'
      cases read.symm.trans (int_of_int? int)
      rw [verifyResult, if_pos rfl, verifyIsPrime_accepts item int]
      rfl
  | collatz =>
      obtain ⟨value, n, out, item, read, ends, rfl⟩ := collatz_returns returns
      obtain ⟨value', n', item', int⟩ := verifiable_collatz.1 typed
      cases item.symm.trans item'
      cases read.symm.trans (int_of_int? int)
      rw [verifyResult, if_neg (by decide), if_pos rfl, verifyCollatz_accepts item int ends]
      rfl
  | sha256Chain =>
      obtain ⟨value, seed, value', rounds, item, str, item', read, rfl⟩ :=
        sha256Chain_returns returns
      obtain ⟨⟨text, seed_⟩, given, n', at_, int⟩ := verifiable_sha256Chain.1 typed
      cases item.symm.trans seed_
      cases str
      cases item'.symm.trans (getOr_of_item at_)
      cases read.symm.trans (int_of_int? int)
      rw [verifyResult, if_neg (by decide), if_neg (by decide), if_pos rfl,
        verifySha256Chain_accepts seed_ at_ int]
      rfl

/-- The `n` of the payload is no float. -/
def Json.NoFloat (payload : Json) : Prop := ∀ x, payload.item "n" ≠ .ok (.float x)

/-- What a handler returns on any other payload is rejected. -/
theorem verify_rejects (verified : Verified py jobType h) (noFloat : job.payload.NoFloat)
    (untyped : ¬ Verifiable job.payload jobType) (returns : h.run fuel job = some (.ok v)) :
    ∃ reason, verifyResult py.runtime fuel jobType job.payload v = some (false, reason) := by
  cases verified with
  | isPrime =>
      obtain ⟨value, n, item, read, rfl⟩ := isPrime_returns returns
      rcases int_ok read with int | ⟨x, rfl⟩ | ⟨text, rfl⟩
      · exact absurd (verifiable_isPrime.2 ⟨value, n, item, int⟩) untyped
      · exact absurd item (noFloat x)
      · rw [verifyResult, if_pos rfl, verifyIsPrime, item]
        exact ⟨_, rfl⟩
  | collatz =>
      obtain ⟨value, n, out, item, read, -, rfl⟩ := collatz_returns returns
      rcases int_ok read with int | ⟨x, rfl⟩ | ⟨text, rfl⟩
      · exact absurd (verifiable_collatz.2 ⟨value, n, item, int⟩) untyped
      · exact absurd item (noFloat x)
      · rw [verifyResult, if_neg (by decide), if_pos rfl, verifyCollatz, item]
        exact ⟨_, rfl⟩
  | sha256Chain =>
      obtain ⟨value, seed, value', rounds, item, -, item', -, rfl⟩ := sha256Chain_returns returns
      rw [verifyResult, if_neg (by decide), if_neg (by decide), if_pos rfl, verifySha256Chain, item]
      simp only [ok_bind, Option.some.injEq]
      cases given : job.payload.item "rounds" with
      | error e => exact ⟨_, rfl⟩
      | ok value' =>
          rw [ok_bind]
          cases encoded : value.encode with
          | error e =>
              rw [groundTruthSha256Chain, encoded]
              exact ⟨_, rfl⟩
          | ok data =>
              obtain ⟨text, rfl⟩ : ∃ text, value = .str text := by
                cases value with
                | str text => exact ⟨text, rfl⟩
                | _ => cases encoded
              rw [groundTruthSha256Chain, encoded, ok_bind, Json.index]
              cases int : value'.int? with
              | none => exact ⟨_, rfl⟩
              | some rounds =>
                  have typed := verifiable_sha256Chain.2 ⟨⟨text, item⟩, value', rounds, given, int⟩
                  exact absurd typed untyped

end

/-- **What the benchmark accepts of the handlers.**  Where the handler of a verified job type
returns on a payload whose `n` is no float, `verify_result` accepts what it returned exactly
if the payload is of the types that the ground truth takes: an integer `n`, or a text `seed`
and an integer `rounds`, of which no float is one.  The handlers' own `int`, `str` and default
make no result that the benchmark accepts. -/
theorem handler_result_accepted_iff (py : HandlerPython) (jobType : String) (h : Handler)
    (verified : Verified py jobType h) (job : Record) (noFloat : job.payload.NoFloat) (fuel : ℕ)
    (v : Json) (returns : h.run fuel job = some (.ok v)) :
    (∃ more reason, verifyResult py.runtime more jobType job.payload v = some (true, reason)) ↔
      Verifiable job.payload jobType := by
  constructor
  · rintro ⟨more, reason, accepts⟩
    by_contra untyped
    obtain ⟨reason', rejects⟩ := verify_rejects verified noFloat untyped returns
    have accepts := verifyResult_mono (Nat.le_max_left more fuel) accepts
    have rejects := verifyResult_mono (Nat.le_max_right more fuel) rejects
    cases accepts.symm.trans rejects
  · intro typed
    exact ⟨fuel, "", verify_accepts verified typed returns⟩

def demoHandlerPython : HandlerPython where
  int := demoInt
  runtime := demoPython
  float
    | .float x => .ok x
    | _ => .error { name := "TypeError", message := "float() argument" }
  dict _ := .error { name := "TypeError", message := "no mapping" }

/-- A record of a job with this payload. -/
def demoRecord (payload : Json) : Record := .ofRow 1 (.ofCreate 0 { demoJob with payload })

/-- `{"n": 49}` is a payload of the benchmark; `{"seed": "a"}` leaves `rounds` to the handler. -/
theorem handler_result_accepted_demo :
    ∃ v v', (Builtin.isPrime demoHandlerPython).run 0 (demoRecord (.obj [("n", .int 49)])) =
        some (.ok v) ∧
      (Builtin.sha256Chain demoHandlerPython).run 0 (demoRecord (.obj [("seed", .str "a")])) =
        some (.ok v') ∧
      (∃ more reason, verifyResult demoHandlerPython.runtime more "is_prime"
        (.obj [("n", .int 49)]) v = some (true, reason)) ∧
      ¬ ∃ more reason, verifyResult demoHandlerPython.runtime more "sha256_chain"
        (.obj [("seed", .str "a")]) v' = some (true, reason) := by
  refine ⟨_, _, rfl, rfl, ?_, ?_⟩
  · refine (handler_result_accepted_iff demoHandlerPython "is_prime" _ .isPrime
      (demoRecord (.obj [("n", .int 49)])) (fun x item => by cases item) 0 _ rfl).2 ?_
    exact verifiable_isPrime.2 ⟨_, 49, rfl, rfl⟩
  · refine mt (handler_result_accepted_iff demoHandlerPython "sha256_chain" _ .sha256Chain
      (demoRecord (.obj [("seed", .str "a")])) (fun x item => by cases item) 0 _ rfl).1 ?_
    rw [verifiable_sha256Chain]
    rintro ⟨-, value, n, item, -⟩
    cases item

end TaskQueue
