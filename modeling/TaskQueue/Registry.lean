/-
# TaskQueue.Registry -- job types and their handlers

`register` puts a coroutine under its job type into a dictionary and `get_handler` takes it
out.  A handler is what it returns or raises on the record of a job, within as many rounds of
its loops as it is given; that more rounds never change an end is part of it.

* `Registry.get` is `get_handler`, `Registry.names` what `list_types` returns.
* `builtins` are the handlers of `worker/registry.py`, registered one after the other.
* `Handler.Timeless`: a handler does not look at the time its job is due.
-/
import TaskQueue.GroundTruth
import TaskQueue.Lib.Dict

namespace TaskQueue

set_option autoImplicit false

/-- A handler: how it ends on a job within `fuel` rounds of its loops. -/
structure Handler where
  run : ℕ → Record → Option (Except PyError Json)
  mono : ∀ {fuel more : ℕ} {job : Record} {out : Except PyError Json}, fuel ≤ more →
    run fuel job = some out → run more job = some out

/-- A handler without loops. -/
def Handler.ofFunction (f : Record → Except PyError Json) : Handler where
  run _ job := some (f job)
  mono _ ends := ends

/-- How the coroutine of a handler may end on a job: with the value that it computes, which
the `'done'` UPDATE may reject, with its exception, or cancelled from outside. -/
inductive Handler.Ends (h : Handler) (job : Record) : HandlerOutcome → Prop
  | returns {fuel : ℕ} {value : Json} (ends : h.run fuel job = some (.ok value)) :
      h.Ends job (.returns (.storable (some value)))
  | rejected {fuel : ℕ} {value : Json} (ends : h.run fuel job = some (.ok value)) :
      h.Ends job (.returns .rejected)
  | raises {fuel : ℕ} {e : PyError} (ends : h.run fuel job = some (.error e)) :
      h.Ends job (.raises e)
  | cancelled : h.Ends job .raisesBase

/-- `_registry`. -/
abbrev Registry := Dict String Handler

/-- `register(job_type)(fn)`: a later handler of a type replaces an earlier one. -/
def Registry.register (registry : Registry) (jobType : String) (fn : Handler) : Registry :=
  registry.set jobType fn

/-- `list_types`. -/
def Registry.names (registry : Registry) : List String := registry.keys

/-- `get_handler`. -/
def Registry.get (repr : String → String) (registry : Registry) (jobType : String) :
    Except PyError Handler :=
  match registry.lookup jobType with
  | some fn => .ok fn
  | none =>
      .error
        { name := "KeyError"
          message := repr
            ("No handler registered for job type " ++ repr jobType ++ ". Registered types: [" ++
              ", ".intercalate (registry.names.map repr) ++ "]") }

/-- The workers' process has registered the handlers of `registry`. -/
def Config.Serves (cfg : Config) (registry : Registry) : Prop := cfg.registry = registry.names

/-- What `_execute_job` runs for a job of a type: its handler, or `get_handler`'s exception. -/
def Registry.handler (repr : String → String) (registry : Registry) (jobType : String) : Handler :=
  match registry.get repr jobType with
  | .ok fn => fn
  | .error e => .ofFunction fun _ => .error e

/-- Every handler of the registry returns or raises on every job. -/
def Registry.Total (repr : String → String) (registry : Registry) : Prop :=
  ∀ job : Record, ∃ fuel out, (registry.handler repr job.type).run fuel job = some out

/-! ## The built-in handlers -/

/-- What the built-in handlers take from Python. -/
structure HandlerPython where
  int : PyInt
  runtime : PyRuntime
  /-- `float(value)` -/
  float : Json → Except PyError Float
  /-- `dict(value)` of a value that is no dictionary -/
  dict : Json → Except PyError Json

/-- `str(value)`. -/
def HandlerPython.str (py : HandlerPython) : Json → Except PyError String
  | .str s => .ok s
  | value => py.runtime.str value

/-- `value.get(key, default)`. -/
def Json.getOr (value : Json) (key : String) (default : Json) : Except PyError Json :=
  match value with
  | .obj fields => .ok ((fields.lookup key).getD default)
  | value =>
      .error
        { name := "AttributeError"
          message := "'" ++ value.pyType ++ "' object has no attribute 'get'" }

/-- `_sha256_chain_handler`. -/
def sha256ChainHandler (py : HandlerPython) (payload : Json) : Except PyError Json := do
  let seed ← payload.item "seed" >>= py.str
  let rounds ← payload.getOr "rounds" (.int 1000) >>= py.int.int
  let current := py.runtime.sha256^[rounds.toNat] seed.toUTF8.toList
  return .obj [("seed", .str seed), ("rounds", .int rounds), ("final_hash", .str (hex current))]

namespace Builtin

def noop : Handler := .ofFunction fun _ => .ok (.obj [("ok", .bool true)])

def alwaysFail : Handler :=
  .ofFunction fun job =>
    .error
      { name := "RuntimeError"
        message := "always_fail handler: intentional failure on job " ++ toString job.id }

def flaky : Handler :=
  .ofFunction fun job =>
    if job.attempt < 2 then
      .error
        { name := "RuntimeError"
          message := "flaky handler: intentional failure on attempt " ++ toString job.attempt }
    else .ok (.obj [("ok", .bool true), ("succeeded_on_attempt", .int job.attempt)])

/-- The sleep is time passing, and only one of `inf` seconds does not end: `asyncio.sleep`
returns at once from one of `-inf` or NaN seconds. -/
def slow (py : HandlerPython) : Handler where
  run _ job :=
    match job.payload.getOr "sleep_seconds" (.int 1) >>= py.float with
    | .ok seconds =>
        if seconds.isInf ∧ 0 < seconds then none
        else some (.ok (.obj [("slept_for", .float seconds)]))
    | .error e => some (.error e)
  mono _ ends := ends

def echo (py : HandlerPython) : Handler :=
  .ofFunction fun job =>
    match job.payload with
    | .obj fields => .ok (.obj fields)
    | value => py.dict value

def isPrime (py : HandlerPython) : Handler :=
  .ofFunction fun job => isPrimeHandler py.int job.payload

def collatz (py : HandlerPython) : Handler where
  run fuel job := collatzHandler py.int fuel job.payload
  mono := by
    intro fuel more job out le ends
    unfold collatzHandler at ends ⊢
    cases arg : intArg py.int job.payload with
    | error e =>
        rw [arg] at ends
        exact ends
    | ok n =>
        simp only [arg, Option.map_eq_some_iff] at ends ⊢
        obtain ⟨v, loop, same⟩ := ends
        exact ⟨v, Loop.whileFuel_mono le loop, same⟩

def sha256Chain (py : HandlerPython) : Handler :=
  .ofFunction fun job => sha256ChainHandler py job.payload

end Builtin

/-- The handlers of `worker/registry.py`, in the order of their decorators. -/
def builtinHandlers (py : HandlerPython) : List (String × Handler) :=
  [("noop", Builtin.noop), ("always_fail", Builtin.alwaysFail), ("flaky", Builtin.flaky),
    ("slow", Builtin.slow py), ("echo", Builtin.echo py), ("is_prime", Builtin.isPrime py),
    ("collatz", Builtin.collatz py), ("sha256_chain", Builtin.sha256Chain py)]

/-- The registry once the module is loaded. -/
def builtins (py : HandlerPython) : Registry :=
  (builtinHandlers py).foldl (fun registry x => registry.register x.1 x.2) ∅

/-- The handler gives the same whenever the job is due. -/
def Handler.Timeless (h : Handler) : Prop :=
  ∀ fuel job runAt, h.run fuel { job with runAt } = h.run fuel job

def Registry.Timeless (registry : Registry) : Prop :=
  ∀ jobType fn, registry.lookup jobType = some fn → fn.Timeless

section

variable {cfg : Config} {registry : Registry} {jobType jobType' : String} {fn fn' : Handler}

/-- `get_handler` finds what was registered last. -/
theorem lookup_register (registry : Registry) (jobType jobType' : String) (fn : Handler) :
    (registry.register jobType fn).lookup jobType' =
      if jobType' = jobType then some fn else registry.lookup jobType' :=
  Dict.lookup_set registry jobType jobType' fn

theorem handler_of_lookup (repr : String → String) (found : registry.lookup jobType = some fn) :
    registry.handler repr jobType = fn := by
  simp [Registry.handler, Registry.get, found]

/-- The dispatch of `_execute_job` is that of the registry. -/
theorem getHandler_eq (serves : cfg.Serves registry) (jobType : String) :
    getHandler cfg jobType = (registry.get cfg.repr jobType).map fun _ => () := by
  unfold getHandler Registry.get
  rw [serves]
  cases found : registry.lookup jobType with
  | some fn =>
      have mem : jobType ∈ registry.names := AList.lookup_isSome.1 (by rw [found]; rfl)
      rw [if_pos mem]
      rfl
  | none =>
      have absent : jobType ∉ registry.names := AList.lookup_eq_none.1 found
      rw [if_neg absent]
      rfl

/-- A type without a handler has one that raises `get_handler`'s exception. -/
theorem run_of_unregistered (serves : cfg.Serves registry) {e : PyError}
    (raises : getHandler cfg jobType = .error e) (fuel : ℕ) (job : Record) :
    (registry.handler cfg.repr jobType).run fuel job = some (.error e) := by
  rw [getHandler_eq serves] at raises
  unfold Registry.handler
  cases got : registry.get cfg.repr jobType with
  | ok fn => simp [got, Except.map] at raises
  | error e' =>
      simp only [got, Except.map, Except.error.injEq] at raises
      rw [← raises]
      rfl

theorem Registry.Timeless.handler (timeless : registry.Timeless) (repr : String → String)
    (jobType : String) : (registry.handler repr jobType).Timeless := by
  unfold Registry.handler Registry.get
  cases found : registry.lookup jobType with
  | some fn => exact timeless jobType fn found
  | none => exact fun _ _ _ => rfl

theorem Registry.Timeless.registerAll {handlers : List (String × Handler)}
    (timeless : registry.Timeless) (always : ∀ x ∈ handlers, x.2.Timeless) :
    (handlers.foldl (fun registry x => registry.register x.1 x.2) registry).Timeless := by
  induction handlers generalizing registry with
  | nil => exact timeless
  | cons x handlers ih =>
      refine ih (fun jobType fn found => ?_) fun y member =>
        always y (List.mem_cons_of_mem _ member)
      rw [lookup_register] at found
      split at found
      · cases found
        exact always x List.mem_cons_self
      · exact timeless jobType fn found

/-- None of the built-in handlers looks at `run_at`. -/
theorem builtins_timeless (py : HandlerPython) : (builtins py).Timeless := by
  apply Registry.Timeless.registerAll (fun jobType fn found => by cases found)
  intro x member
  simp only [builtinHandlers, List.mem_cons, List.not_mem_nil, or_false] at member
  rcases member with rfl | rfl | rfl | rfl | rfl | rfl | rfl | rfl <;> exact fun _ _ _ => rfl

theorem builtins_lookup {py : HandlerPython} {x : String × Handler}
    (member : x ∈ builtinHandlers py) : (builtins py).lookup x.1 = some x.2 := by
  simp only [builtinHandlers, List.mem_cons, List.not_mem_nil, or_false] at member
  rcases member with rfl | rfl | rfl | rfl | rfl | rfl | rfl | rfl <;>
    simp [builtins, builtinHandlers, lookup_register]

end

end TaskQueue
