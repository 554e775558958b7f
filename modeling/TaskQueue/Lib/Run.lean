/-
# TaskQueue.Lib.Run -- histories of a guarded transition system

A system is a partial step function `S → E → Option S`: the event may or may not
be enabled.  A `Run` remembers its history, most recent step first, as the list of
states left and events taken, so that a property of the past (how often something
was written, when a signal was last seen) is a recursive function of the history
and an invariant may mention it.

* `Run.invariant` is induction over a run: an invariant of history and state.
* `Throughout` / `EachStep` say that every state visited, or every step taken,
  meets a condition; `Run.throughout` turns an invariant that needs the condition
  of each step into a statement about every state visited.
* `Visits` is a run with some of the states that are met on the way.
* `lastAt` is when a kind of step was last taken, `tally` how often it was.
* `Simulation` maps every concrete step to one abstract step or to none, and
  `Simulation.run` lifts that to runs.
* `exec` replays a list of events, `exec_run` makes a run of it.
-/
namespace Transition

set_option autoImplicit false

variable {S E : Type}

/-- The states left and the events taken, most recent first. -/
abbrev History (S E : Type) := List (S × E)

/-- A finite run of `step` from `s₀`, with its history. -/
inductive Run (step : S → E → Option S) (s₀ : S) : History S E → S → Prop
  | nil : Run step s₀ [] s₀
  | snoc {t : History S E} {s s' : S} {e : E} :
      Run step s₀ t s → step s e = some s' → Run step s₀ ((s, e) :: t) s'

namespace Run

variable {step : S → E → Option S} {s₀ : S}

/-- **Induction over a run**, for an invariant of history and state. -/
theorem invariant {P : History S E → S → Prop} (init : P [] s₀)
    (preserved : ∀ t s e s', Run step s₀ t s → P t s → step s e = some s' → P ((s, e) :: t) s')
    {t : History S E} {s : S} (run : Run step s₀ t s) : P t s := by
  induction run with
  | nil => exact init
  | snoc before taken ih => exact preserved _ _ _ _ before ih taken

theorem append {t₁ t₂ : History S E} {s₁ s₂ : S} (first : Run step s₀ t₁ s₁)
    (second : Run step s₁ t₂ s₂) : Run step s₀ (t₂ ++ t₁) s₂ := by
  induction second with
  | nil => exact first
  | snoc _ taken ih => exact .snoc ih taken

theorem single {s s' : S} {e : E} (taken : step s e = some s') : Run step s [(s, e)] s' :=
  .snoc .nil taken

end Run

/-! ## Conditions on every state or every step of a run -/

/-- Every state visited meets `P`, with the history that led to it. -/
def Throughout (P : History S E → S → Prop) : History S E → S → Prop
  | [], s => P [] s
  | (a, e) :: t, s => P ((a, e) :: t) s ∧ Throughout P t a

instance Throughout.decidable {P : History S E → S → Prop} [∀ t s, Decidable (P t s)] :
    ∀ t s, Decidable (Throughout P t s)
  | [], s => inferInstanceAs (Decidable (P [] s))
  | (_, _) :: t, _ =>
      have := Throughout.decidable (P := P) t
      inferInstanceAs (Decidable (_ ∧ _))

/-- Every step taken meets `Q`, with the history before it. -/
def EachStep (Q : History S E → S → E → Prop) : History S E → Prop
  | [] => True
  | (a, e) :: t => Q t a e ∧ EachStep Q t

instance EachStep.decidable {Q : History S E → S → E → Prop} [∀ t s e, Decidable (Q t s e)] :
    ∀ t, Decidable (EachStep Q t)
  | [] => inferInstanceAs (Decidable True)
  | (_, _) :: t =>
      have := EachStep.decidable (Q := Q) t
      inferInstanceAs (Decidable (_ ∧ _))

theorem Throughout.here {P : History S E → S → Prop} {t : History S E} {s : S}
    (all : Throughout P t s) : P t s := by
  cases t with
  | nil => exact all
  | cons _ _ => exact all.1

theorem Throughout.mono {P P' : History S E → S → Prop} (weaker : ∀ t s, P t s → P' t s)
    {t : History S E} {s : S} (all : Throughout P t s) : Throughout P' t s := by
  induction t generalizing s with
  | nil => exact weaker _ _ all
  | cons _ _ ih => exact ⟨weaker _ _ all.1, ih all.2⟩

theorem EachStep.mono {Q Q' : History S E → S → E → Prop} (weaker : ∀ t s e, Q t s e → Q' t s e)
    {t : History S E} (all : EachStep Q t) : EachStep Q' t := by
  induction t with
  | nil => trivial
  | cons _ _ ih => exact ⟨weaker _ _ _ all.1, ih all.2⟩

theorem eachStep_of_all {test : S → E → Bool} {t : History S E}
    (all : (t.all fun x => test x.1 x.2) = true) : EachStep (fun _ s e => test s e = true) t := by
  induction t with
  | nil => trivial
  | cons _ _ ih =>
      rw [List.all_cons, Bool.and_eq_true] at all
      exact ⟨all.1, ih all.2⟩

theorem EachStep.of_mem {Q : History S E → S → E → Prop} {t : History S E} (all : EachStep Q t)
    {s : S} {e : E} (member : (s, e) ∈ t) : ∃ u, Q u s e := by
  induction t with
  | nil => cases member
  | cons x t ih =>
      rcases List.mem_cons.1 member with rfl | earlier
      · exact ⟨t, all.1⟩
      · exact ih all.2 earlier

namespace Run

variable {step : S → E → Option S} {s₀ : S}

/-- An invariant that is kept by every step meeting `Q` holds throughout a run
whose steps all meet `Q`. -/
theorem throughout {P : History S E → S → Prop} {Q : History S E → S → E → Prop} (init : P [] s₀)
    (preserved : ∀ t s e s', Run step s₀ t s → P t s → Q t s e → step s e = some s' →
      P ((s, e) :: t) s')
    {t : History S E} {s : S} (run : Run step s₀ t s) (steps : EachStep Q t) :
    Throughout P t s := by
  induction run with
  | nil => exact init
  | snoc before taken ih =>
      have earlier := ih steps.2
      exact ⟨preserved _ _ _ _ before earlier.here steps.1 taken, earlier⟩

/-- If every visited state meets `P`, and a step between two states that meet it
must meet `Q`, then every step taken meets `Q`. -/
theorem eachStep {P : History S E → S → Prop} {Q : History S E → S → E → Prop}
    (forced : ∀ t s e s', Run step s₀ t s → Throughout P t s → EachStep Q t →
      P ((s, e) :: t) s' → step s e = some s' → Q t s e)
    {t : History S E} {s : S} (run : Run step s₀ t s) (all : Throughout P t s) :
    EachStep Q t := by
  induction run with
  | nil => trivial
  | snoc before taken ih =>
      have earlier := ih all.2
      exact ⟨forced _ _ _ _ before all.2 earlier all.1 taken, earlier⟩

end Run

/-- Two conditions that agree on every step of every run hold of the same runs. -/
theorem Run.eachStep_iff {step : S → E → Option S} {s₀ : S} {Q Q' : History S E → S → E → Prop}
    (agree : ∀ t s e s', Run step s₀ t s → step s e = some s' → (Q t s e ↔ Q' t s e))
    {t : History S E} {s : S} (run : Run step s₀ t s) : EachStep Q t ↔ EachStep Q' t := by
  induction run with
  | nil => exact Iff.rfl
  | snoc before taken ih => exact and_congr (agree _ _ _ _ before taken) ih

/-! ## The last time something happened -/

/-- When a step meeting `p` was last taken, read off a clock of the state it left. -/
def lastAt {T : Type} (clock : S → T) (p : S → E → Bool) : History S E → Option T
  | [] => none
  | (s, e) :: t => if p s e then some (clock s) else lastAt clock p t

theorem lastAt_cons_of_pos {T : Type} {clock : S → T} {p : S → E → Bool} {s : S} {e : E}
    (t : History S E) (hit : p s e = true) : lastAt clock p ((s, e) :: t) = some (clock s) := by
  simp [lastAt, hit]

/-! ## States met on the way -/

/-- A run from `s` to `s'` on which the states of the list are met, in this order. -/
inductive Visits (step : S → E → Option S) : S → History S E → List S → S → Prop
  | rest {t : History S E} {s s' : S} (run : Run step s t s') : Visits step s t [] s'
  | next {t u : History S E} {s a s' : S} {visited : List S} (run : Run step s t a)
      (later : Visits step a u visited s') : Visits step s (u ++ t) (a :: visited) s'

namespace Visits

variable {step : S → E → Option S} {t : History S E} {s s' a : S} {visited : List S}

theorem run (visits : Visits step s t visited s') : Run step s t s' := by
  induction visits with
  | rest run => exact run
  | next run _ ih => exact run.append ih

/-- A state met is between the ends of the run. -/
theorem of_mem (visits : Visits step s t visited s') (member : a ∈ visited) :
    ∃ u v, Run step s u a ∧ Run step a v s' ∧ v ++ u = t := by
  induction visits with
  | rest _ => cases member
  | @next u _ _ _ _ _ run later ih =>
      rcases List.mem_cons.1 member with rfl | behind
      · exact ⟨u, _, run, later.run, rfl⟩
      · obtain ⟨v, w, first, rest, rfl⟩ := ih behind
        exact ⟨v ++ u, w, run.append first, rest, (List.append_assoc w v u).symm⟩

/-- Each state met leads to those that are met after it. -/
theorem pairwise (visits : Visits step s t visited s') :
    visited.Pairwise fun a b => ∃ u, Run step a u b := by
  induction visits with
  | rest _ => exact List.Pairwise.nil
  | next _ later ih =>
      refine List.pairwise_cons.2 ⟨fun b member => ?_, ih⟩
      obtain ⟨u, _, first, -, -⟩ := later.of_mem member
      exact ⟨u, first⟩

end Visits

/-! ## Counting steps -/

/-- How many steps met `p`. -/
def tally (p : S → E → Bool) (t : History S E) : Nat := t.countP fun x => p x.1 x.2

theorem tally_cons (p : S → E → Bool) (s : S) (e : E) (t : History S E) :
    tally p ((s, e) :: t) = tally p t + if p s e then 1 else 0 :=
  List.countP_cons

theorem tally_quiet {p : S → E → Bool} {s : S} {e : E} {t : History S E}
    (quiet : ¬ p s e = true) : tally p ((s, e) :: t) = tally p t := by
  rw [tally_cons, if_neg quiet, Nat.add_zero]

theorem tally_hit {p : S → E → Bool} {s : S} {e : E} {t : History S E} (hit : p s e = true) :
    tally p ((s, e) :: t) = tally p t + 1 := by
  rw [tally_cons, if_pos hit]

theorem tally_le (p : S → E → Bool) {s : S} {e : E} {t : History S E} :
    tally p t ≤ tally p ((s, e) :: t) := by
  rw [tally_cons]
  exact Nat.le_add_right _ _

/-! ## Simulation -/

/-- Every concrete step is one abstract step of the view, or leaves the view alone. -/
structure Simulation {A B : Type} (step : S → E → Option S) (s₀ : S)
    (abstractStep : A → B → Option A) (a₀ : A) where
  view : History S E → S → A
  label : History S E → S → E → Option B
  init : view [] s₀ = a₀
  silent : ∀ {t s e s'}, Run step s₀ t s → step s e = some s' → label t s e = none →
    view ((s, e) :: t) s' = view t s
  visible : ∀ {t s e s' b}, Run step s₀ t s → step s e = some s' → label t s e = some b →
    abstractStep (view t s) b = some (view ((s, e) :: t) s')

/-- A simulated run is an abstract run. -/
theorem Simulation.run {A B : Type} {step : S → E → Option S} {s₀ : S}
    {abstractStep : A → B → Option A} {a₀ : A} (sim : Simulation step s₀ abstractStep a₀)
    {t : History S E} {s : S} (run : Run step s₀ t s) :
    ∃ u, Run abstractStep a₀ u (sim.view t s) := by
  induction run with
  | nil =>
      rw [sim.init]
      exact ⟨[], .nil⟩
  | @snoc t s s' e before taken ih =>
      obtain ⟨u, abstract⟩ := ih
      cases labelled : sim.label t s e with
      | none =>
          rw [sim.silent before taken labelled]
          exact ⟨u, abstract⟩
      | some b => exact ⟨_, .snoc abstract (sim.visible before taken labelled)⟩

/-! ## Replaying a list of events -/

/-- Replay `events` in order, keeping the history. -/
def exec (step : S → E → Option S) : History S E → S → List E → Option (History S E × S)
  | t, s, [] => some (t, s)
  | t, s, e :: events => (step s e).bind fun s' => exec step ((s, e) :: t) s' events

theorem exec_run {step : S → E → Option S} {s₀ : S} :
    ∀ {t : History S E} {s : S} {events : List E} {out : History S E × S},
      Run step s₀ t s → exec step t s events = some out → Run step s₀ out.1 out.2
  | _, _, [], _, run, h => by
      cases h
      exact run
  | _, s, e :: _, _, run, h => by
      simp only [exec, Option.bind_eq_some_iff] at h
      obtain ⟨s', taken, rest⟩ := h
      exact exec_run (.snoc run taken) rest

/-- A replayed list of events is a run; `test` says what it leaves. -/
theorem run_of_exec {step : S → E → Option S} {s₀ : S} (events : List E)
    (test : History S E × S → Bool) (passes : (exec step [] s₀ events).any test = true) :
    ∃ t s, Run step s₀ t s ∧ test (t, s) = true := by
  rw [Option.any_eq_true] at passes
  obtain ⟨out, replayed, ok⟩ := passes
  exact ⟨out.1, out.2, exec_run .nil replayed, ok⟩

end Transition
