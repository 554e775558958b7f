/-
# TaskQueue.Accounting -- attempts, budgets and final states

`_handle_failure` decides between retry and dead letter from the attempt count of its
record, SQL increments the column itself, and no write looks at the status.  The two
agree because the row of a job in execution is the record's (`Holds`).

* `outcomes` is the history of outcome writes to a row; `Balanced` are the books of a
  row against it, `balanced_of_run` the invariant.
* `ledger` reads a bounded-retry ledger off tables and history, and `ledgerSimulation`
  maps every step of the program to one of its acts or to none.  How a job may end is
  then a fact about the closed entries of the ledger (`Entry.Sound.closed`).
-/
import TaskQueue.Ownership

namespace TaskQueue

set_option autoImplicit false

open Transition RetryBudget

/-- The outcomes written to the row of `j`, most recent first. -/
def outcomes (cfg : Config) (j : JobId) : History Sys Event → List Outcome
  | [] => []
  | (s, e) :: t =>
      match s.db.jobs.row j, decided cfg s e j with
      | some _, some o => o :: outcomes cfg j t
      | _, _ => outcomes cfg j t

/-- The body of the INSERT of job `j`. -/
def enqueued (cfg : Config) (j : JobId) : History Sys Event → Option JobCreate
  | [] => none
  | (s, e) :: t =>
      match committed cfg s e with
      | some (.insertJob body) => if s.db.jobs.next = j then some body else enqueued cfg j t
      | _ => enqueued cfg j t

/-- The books of a row: its attempts are its outcomes, it is live as long as its entry in
the ledger is open, and done when a success is among its outcomes. -/
structure Balanced (r : Job) (os : List Outcome) : Prop where
  attempt : r.attempt = os.length
  live_iff : r.Live ↔ Entry.Open ⟨r.maxRetries, os⟩
  done_iff : r.status = .done ↔ Outcome.success ∈ os

/-- The ledger of the jobs in the table. -/
def ledger (cfg : Config) (t : History Sys Event) (s : Sys) : Ledger JobId := fun j =>
  (s.db.jobs.row j).map fun r => ⟨r.maxRetries, outcomes cfg j t⟩

/-- What a step does to the ledger. -/
def ledgerAct (cfg : Config) (s : Sys) (e : Event) : Option (Act JobId) :=
  match committed cfg s e with
  | some (.insertJob body) => some (.enroll s.db.jobs.next body.maxRetries)
  | some (.deleteJob id) => some (.withdraw id)
  | st =>
      match st.bind Statement.decides with
      | some (id, o) => if (s.db.jobs.row id).isSome then some (.record id o) else none
      | none => none

section

variable {cfg : Config} {t₀ : Time} {db : Db} {t : History Sys Event} {s s' : Sys} {e : Event}
  {j : JobId} {r r' : Job}

theorem outcomes_cons {o : Outcome} (row : s.db.jobs.row j = some r)
    (writes : decided cfg s e j = some o) :
    outcomes cfg j ((s, e) :: t) = o :: outcomes cfg j t := by
  simp [outcomes, row, writes]

theorem outcomes_skip (quiet : decided cfg s e j = none) :
    outcomes cfg j ((s, e) :: t) = outcomes cfg j t := by
  simp only [outcomes, quiet]
  cases s.db.jobs.row j <;> rfl

theorem outcomes_absent (gone : s.db.jobs.row j = none) :
    outcomes cfg j ((s, e) :: t) = outcomes cfg j t := by
  simp only [outcomes, gone]

theorem enqueued_insert {body : JobCreate} (commits : committed cfg s e = some (.insertJob body))
    (next : s.db.jobs.next = j) : enqueued cfg j ((s, e) :: t) = some body := by
  simp [enqueued, commits, next]

/-- A key that was handed out is not handed out again. -/
theorem enqueued_old (old : j < s.db.jobs.next) :
    enqueued cfg j ((s, e) :: t) = enqueued cfg j t := by
  rw [enqueued]
  split
  · rw [if_neg (Nat.ne_of_gt old)]
  · rfl

/-- The INSERT of a job is the last step, or an earlier one. -/
theorem enqueued_cons {body : JobCreate} (posted : enqueued cfg j ((s, e) :: t) = some body) :
    (committed cfg s e = some (.insertJob body) ∧ s.db.jobs.next = j) ∨
      enqueued cfg j t = some body := by
  rw [enqueued] at posted
  split at posted
  · rename_i body' commits
    split at posted
    · rename_i next
      cases posted
      exact .inl ⟨commits, next⟩
    · exact .inr posted
  · exact .inr posted

/-- A job that was enqueued: its key was handed out. -/
theorem lt_next_of_enqueued (run : Runs cfg t₀ db t s) :
    ∀ body, enqueued cfg j t = some body → j < s.db.jobs.next := by
  refine run.invariant (P := fun t s => ∀ body, enqueued cfg j t = some body → j < s.db.jobs.next)
    (fun _ posted => by cases posted) ?_
  intro t s e s' _ ih taken body posted
  rw [step_db taken]
  rcases enqueued_cons posted with ⟨commits, rfl⟩ | before
  · simp [commits, Db.commit, Db.exec]
  · exact Nat.lt_of_lt_of_le (ih body before) (next_commit _ _ _)

/-! ## The books of every row -/

/-- The books of a live row. -/
theorem Balanced.of_open {os : List Outcome} (live : r.Live) (attempt : r.attempt = os.length)
    (isOpen : Entry.Open ⟨r.maxRetries, os⟩) : Balanced r os where
  attempt := attempt
  live_iff := iff_of_true live isOpen
  done_iff := iff_of_false live.not_done isOpen.1

/-- The books of a row that is there stay balanced. -/
theorem balanced_step (balanced : Balanced r (outcomes cfg j t)) (row : s.db.jobs.row j = some r)
    (change : RowStep cfg t s e j r (some r')) :
    Balanced r' (outcomes cfg j ((s, e) :: t)) := by
  have attempt := balanced.attempt
  have isOpen := balanced.live_iff.1
  cases change with
  | keeps undecided _ =>
      rw [outcomes_skip undecided]
      exact balanced
  | claims commits pending =>
      rw [outcomes_skip (decided_none commits rfl)]
      exact .of_open (.inr (.inl rfl)) attempt (isOpen (.inl pending))
  | marks commits _ _ holds =>
      rw [outcomes_skip (decided_none commits rfl)]
      exact .of_open (.inr (.inr rfl)) attempt (isOpen holds.live)
  | succeeds commits _ _ _ =>
      rw [outcomes_cons row (decided_some commits rfl)]
      refine ⟨by simp [Job.setDone, attempt], iff_of_false ?_ ?_, iff_of_true rfl ?_⟩
      · exact Job.not_live_of_final (.inl rfl)
      · exact fun still => still.1 List.mem_cons_self
      · exact List.mem_cons_self
  | dies commits _ _ holds spent =>
      rw [outcomes_cons row (decided_some commits rfl)]
      obtain ⟨noSuccess, -⟩ := isOpen holds.live
      refine ⟨by simp [Job.setDead, attempt], iff_of_false ?_ ?_, iff_of_false ?_ ?_⟩
      · exact Job.not_live_of_final (.inr rfl)
      · rintro ⟨-, short⟩
        simp only [List.length_cons, Job.setDead] at short
        omega
      · simp [Job.setDead]
      · simpa using noSuccess
  | retries commits _ _ holds left =>
      rw [outcomes_cons row (decided_some commits rfl)]
      obtain ⟨noSuccess, -⟩ := isOpen holds.live
      refine .of_open (.inl rfl) (by simp [Job.setRetry, attempt]) ⟨?_, ?_⟩
      · simpa using noSuccess
      · simp only [List.length_cons, Job.setRetry]
        omega
  | beats commits _ running =>
      rw [outcomes_skip (decided_none commits rfl)]
      have live : r.Live := .inr (.inr running)
      exact .of_open live attempt (isOpen live)
  | reclaims commits stale =>
      rw [outcomes_skip (decided_none commits rfl)]
      exact .of_open (.inl rfl) attempt (isOpen (.inr (Job.isStale_iff.1 stale).1))

/-- Every row's books are balanced, and a key that was not handed out has none. -/
theorem balanced_of_run (run : Runs cfg t₀ .empty t s) :
    (∀ j r, s.db.jobs.row j = some r → Balanced r (outcomes cfg j t)) ∧
      ∀ j, s.db.jobs.next ≤ j → outcomes cfg j t = [] := by
  refine run.invariant (P := fun t s =>
    (∀ j r, s.db.jobs.row j = some r → Balanced r (outcomes cfg j t)) ∧
      ∀ j, s.db.jobs.next ≤ j → outcomes cfg j t = []) ?_ ?_
  · refine ⟨fun j r row => ?_, fun _ _ => rfl⟩
    cases row
  rintro t s e s' run ⟨balanced, blank⟩ taken
  refine ⟨fun j r' row' => ?_, fun j beyond => ?_⟩
  · cases row : s.db.jobs.row j with
    | some r =>
        have change := row_step run taken row
        rw [row'] at change
        exact balanced_step (balanced j r row) row change
    | none =>
        rw [step_db taken] at row'
        obtain ⟨body, -, rfl, rfl⟩ := row_new row row'
        rw [outcomes_absent row, blank _ (Nat.le_refl _)]
        exact .of_open (.inl rfl) rfl ⟨by simp, by simp⟩
  · rw [step_db taken] at beyond
    have old := Nat.le_trans (next_commit _ _ _) beyond
    rw [outcomes_absent (s.db.jobs.fresh j old), blank j old]

/-! ## The retry ledger -/

/-- What a step leaves of the ledger entry of a row that is there. -/
theorem entry_step (row : s.db.jobs.row j = some r)
    (change : RowStep cfg t s e j r (s'.db.jobs.row j)) :
    (decided cfg s e j = none ∧ committed cfg s e ≠ some (.deleteJob j) ∧
        ledger cfg ((s, e) :: t) s' j = ledger cfg t s j) ∨
      (∃ o, decided cfg s e j = some o ∧
        ledger cfg ((s, e) :: t) s' j = some (Entry.record ⟨r.maxRetries, outcomes cfg j t⟩ o)) ∨
      (committed cfg s e = some (.deleteJob j) ∧ r.status = .pending ∧
        ledger cfg ((s, e) :: t) s' j = none) := by
  simp only [ledger, row, Option.map_some]
  generalize s'.db.jobs.row j = after at change
  -- the budget is the row's before and after
  have silent {r' : Job} (quiet : decided cfg s e j = none)
      (budget : r'.maxRetries = r.maxRetries) :
      (some r').map (fun r => (⟨r.maxRetries, outcomes cfg j ((s, e) :: t)⟩ : Entry)) =
        some ⟨r.maxRetries, outcomes cfg j t⟩ := by
    rw [outcomes_skip quiet, Option.map_some, budget]
  have writes {r' : Job} {o : Outcome} (now : decided cfg s e j = some o)
      (budget : r'.maxRetries = r.maxRetries) :
      (some r').map (fun r => (⟨r.maxRetries, outcomes cfg j ((s, e) :: t)⟩ : Entry)) =
        some (Entry.record ⟨r.maxRetries, outcomes cfg j t⟩ o) := by
    rw [outcomes_cons row now, Option.map_some, budget]
    rfl
  cases change with
  | keeps undecided stays => exact .inl ⟨undecided, stays, silent undecided rfl⟩
  | claims commits _ =>
      have quiet := decided_none (j := j) commits rfl
      exact .inl ⟨quiet, by simp [commits], silent quiet rfl⟩
  | marks commits _ _ _ =>
      have quiet := decided_none (j := j) commits rfl
      exact .inl ⟨quiet, by simp [commits], silent quiet rfl⟩
  | beats commits _ _ =>
      have quiet := decided_none (j := j) commits rfl
      exact .inl ⟨quiet, by simp [commits], silent quiet rfl⟩
  | reclaims commits _ =>
      have quiet := decided_none (j := j) commits rfl
      exact .inl ⟨quiet, by simp [commits], silent quiet rfl⟩
  | succeeds commits _ _ _ =>
      have now : decided cfg s e j = some .success := decided_some commits rfl
      exact .inr (.inl ⟨_, now, writes now rfl⟩)
  | dies commits _ _ _ _ =>
      have now : decided cfg s e j = some .failure := decided_some commits rfl
      exact .inr (.inl ⟨_, now, writes now rfl⟩)
  | retries commits _ _ _ _ =>
      have now : decided cfg s e j = some .failure := decided_some commits rfl
      exact .inr (.inl ⟨_, now, writes now rfl⟩)
  | deletes commits pending => exact .inr (.inr ⟨commits, pending, rfl⟩)

/-- An entry that the step does not enroll, withdraw or decide stays as it is. -/
theorem entry_elsewhere (run : Runs cfg t₀ .empty t s) (taken : step cfg s e = some s')
    (noInsert : ∀ body, committed cfg s e = some (.insertJob body) → j ≠ s.db.jobs.next)
    (noDelete : committed cfg s e ≠ some (.deleteJob j))
    (undecided : ∀ r, s.db.jobs.row j = some r → decided cfg s e j = none) :
    ledger cfg ((s, e) :: t) s' j = ledger cfg t s j := by
  cases row : s.db.jobs.row j with
  | some r =>
      rcases entry_step row (row_step run taken row) with
        ⟨-, -, same⟩ | ⟨o, writes, -⟩ | ⟨commits, -, -⟩
      · exact same
      · cases (undecided r row).symm.trans writes
      · exact absurd commits noDelete
  | none =>
      cases row' : s'.db.jobs.row j with
      | none => simp [ledger, row, row']
      | some r' =>
          rw [step_db taken] at row'
          obtain ⟨body, commits, next, -⟩ := row_new row row'
          exact absurd next (noInsert body commits)

theorem ledgerAct_of_decided {o : Outcome} (row : s.db.jobs.row j = some r)
    (writes : decided cfg s e j = some o) : ledgerAct cfg s e = some (.record j o) := by
  rw [decided_eq_some] at writes
  unfold ledgerAct
  split
  · rename_i commits
    simp [commits, Statement.decides] at writes
  · rename_i commits
    simp [commits, Statement.decides] at writes
  · simp [writes, row]

theorem enroll_act (run : Runs cfg t₀ .empty t s) (taken : step cfg s e = some s')
    {body : JobCreate} (commits : committed cfg s e = some (.insertJob body)) :
    RetryBudget.step (ledger cfg t s) (.enroll s.db.jobs.next body.maxRetries) =
      some (ledger cfg ((s, e) :: t) s') := by
  have gone : s.db.jobs.row s.db.jobs.next = none := s.db.jobs.fresh _ (Nat.le_refl _)
  have absent : ledger cfg t s s.db.jobs.next = none := by simp [ledger, gone]
  simp only [RetryBudget.step, absent, if_true, Option.some.injEq]
  funext i
  by_cases same : i = s.db.jobs.next
  · subst same
    have blank := (balanced_of_run run).2 _ (Nat.le_refl _)
    simp [put, ledger, step_db taken, commits, Db.commit, Db.exec, SerialTable.row_insert,
      Job.ofCreate, outcomes_absent gone, blank]
  · simp only [put, same, if_false]
    refine (entry_elsewhere run taken (fun _ _ => same) (by simp [commits]) fun r _ => ?_).symm
    exact decided_none commits rfl

theorem withdraw_act (run : Runs cfg t₀ .empty t s) (taken : step cfg s e = some s')
    {id : JobId} (commits : committed cfg s e = some (.deleteJob id)) :
    RetryBudget.step (ledger cfg t s) (.withdraw id) =
      some (ledger cfg ((s, e) :: t) s') := by
  have undecided (i : JobId) : decided cfg s e i = none := decided_none commits rfl
  obtain ⟨r, row, pending⟩ := delete_pending taken commits
  have isOpen := ((balanced_of_run run).1 id r row).live_iff.1 (.inl pending)
  have entry : ledger cfg t s id = some ⟨r.maxRetries, outcomes cfg id t⟩ := by
    simp [ledger, row]
  simp only [RetryBudget.step, entry, isOpen, if_true, Option.some.injEq]
  funext i
  by_cases same : i = id
  · subst same
    rcases entry_step row (row_step run taken row) with
      ⟨-, stays, -⟩ | ⟨o, writes, -⟩ | ⟨-, -, withdrawn⟩
    · exact absurd commits stays
    · cases (undecided i).symm.trans writes
    · simp [put, withdrawn]
  · simp only [put, same, if_false]
    refine (entry_elsewhere run taken ?_ ?_ fun r _ => undecided i).symm
    · intro body commits'
      cases commits.symm.trans commits'
    · rw [commits]
      simp [Ne.symm same]

theorem record_act (run : Runs cfg t₀ .empty t s) (taken : step cfg s e = some s')
    {o : Outcome} (row : s.db.jobs.row j = some r) (writes : decided cfg s e j = some o) :
    RetryBudget.step (ledger cfg t s) (.record j o) = some (ledger cfg ((s, e) :: t) s') := by
  have commits := decided_eq_some.1 writes
  have live : r.Live := by
    have change := row_step run taken row
    generalize s'.db.jobs.row j = after at change
    cases change with
    | keeps undecided _ => cases undecided.symm.trans writes
    | claims commits' => simp [commits', Statement.decides] at commits
    | marks commits' => simp [commits', Statement.decides] at commits
    | succeeds _ _ _ holds => exact holds.live
    | dies _ _ _ holds _ => exact holds.live
    | retries _ _ _ holds _ => exact holds.live
    | beats commits' => simp [commits', Statement.decides] at commits
    | reclaims commits' => simp [commits', Statement.decides] at commits
    | deletes commits' => simp [commits', Statement.decides] at commits
  have isOpen := ((balanced_of_run run).1 j r row).live_iff.1 live
  have entry : ledger cfg t s j = some ⟨r.maxRetries, outcomes cfg j t⟩ := by simp [ledger, row]
  simp only [RetryBudget.step, entry, isOpen, if_true, Option.some.injEq]
  funext i
  by_cases same : i = j
  · subst same
    rcases entry_step row (row_step run taken row) with
      ⟨undecided, -, -⟩ | ⟨o', writes', recorded⟩ | ⟨commits', -, -⟩
    · cases undecided.symm.trans writes
    · cases writes.symm.trans writes'
      simp [put, recorded]
    · simp [commits', Statement.decides] at commits
  · simp only [put, same, if_false]
    refine (entry_elsewhere run taken ?_ ?_ fun r _ => ?_).symm
    · intro body commits'
      simp [commits', Statement.decides] at commits
    · intro commits'
      simp [commits', Statement.decides] at commits
    · simp [decided, commits, Ne.symm same]

/-- **Every step of the program is an act of a bounded-retry ledger, or none.** -/
def ledgerSimulation (cfg : Config) (t₀ : Time) :
    Simulation (step cfg) (Sys.boot t₀ .empty) (@RetryBudget.step JobId _) fun _ => none where
  view := ledger cfg
  label _ s e := ledgerAct cfg s e
  init := rfl
  silent := by
    intro t s e s' run taken none_
    funext j
    refine entry_elsewhere run taken ?_ ?_ ?_
    · intro body commits
      simp [ledgerAct, commits] at none_
    · intro commits
      simp [ledgerAct, commits] at none_
    · intro r row
      cases writes : decided cfg s e j with
      | none => rfl
      | some o => cases (ledgerAct_of_decided row writes).symm.trans none_
  visible := by
    intro t s e s' b run taken label
    unfold ledgerAct at label
    split at label
    · rename_i body commits
      cases label
      exact enroll_act run taken commits
    · rename_i id commits
      cases label
      exact withdraw_act run taken commits
    · split at label
      · rename_i id o decides
        simp only [Option.ite_none_right_eq_some, Option.some.injEq] at label
        obtain ⟨there, rfl⟩ := label
        obtain ⟨r, row⟩ := Option.isSome_iff_exists.1 there
        exact record_act run taken row (decided_eq_some.2 decides)
      · cases label

/-- The ledger that the tables and the history show is one of bounded retries. -/
theorem ledger_sound (run : Runs cfg t₀ .empty t s) (row : s.db.jobs.row j = some r) :
    Entry.Sound ⟨r.maxRetries, outcomes cfg j t⟩ := by
  obtain ⟨u, abstract⟩ := (ledgerSimulation cfg t₀).run run
  exact sound_of_run abstract j _ (by simp [ledgerSimulation, ledger, row])

/-! ## Final rows -/

/-- A row that is done or dead never changes again. -/
theorem final_step (run : Runs cfg t₀ db t s) (taken : step cfg s e = some s')
    (row : s.db.jobs.row j = some r) (final : r.status = .done ∨ r.status = .dead) :
    s'.db.jobs.row j = some r := by
  have dead := Job.not_live_of_final final
  have change := row_step run taken row
  generalize s'.db.jobs.row j = after at change
  cases change with
  | keeps _ _ => rfl
  | claims _ pending => exact absurd (.inl pending) dead
  | marks _ _ _ holds => exact absurd holds.live dead
  | succeeds _ _ _ holds => exact absurd holds.live dead
  | dies _ _ _ holds _ => exact absurd holds.live dead
  | retries _ _ _ holds _ => exact absurd holds.live dead
  | beats _ _ running => exact absurd (.inr (.inr running)) dead
  | reclaims _ stale => exact absurd (.inr (Job.isStale_iff.1 stale).1) dead
  | deletes _ pending => exact absurd (.inl pending) dead

theorem final_run (run : Runs cfg t₀ db t s) (row : s.db.jobs.row j = some r)
    (final : r.status = .done ∨ r.status = .dead) {u : History Sys Event}
    (rest : Run (step cfg) s u s') : s'.db.jobs.row j = some r := by
  induction rest with
  | nil => exact row
  | snoc before taken ih => exact final_step (run.append before) taken ih final

end

/-- **Attempts and final states.**  In every run from empty tables and for every row:
`attempt` counts the outcome writes; a pending, claimed or running row has attempts left;
a dead one has used them all on failures; a done one ended with its only success; and a
done or dead one never changes again. -/
theorem attempt_accounting (cfg : Config) (t₀ : Time) {t : History Sys Event} {s : Sys}
    (run : Runs cfg t₀ .empty t s) (j : JobId) (r : Job) (row : s.db.jobs.row j = some r) :
    r.attempt = (outcomes cfg j t).length ∧
      (r.status = .pending ∨ r.status = .claimed ∨ r.status = .running →
        r.attempt < max 1 r.maxRetries) ∧
      (r.status = .dead →
        r.attempt = max 1 r.maxRetries ∧ ∀ o ∈ outcomes cfg j t, o = .failure) ∧
      (r.status = .done →
        ∃ rest, outcomes cfg j t = .success :: rest ∧ ∀ o ∈ rest, o = .failure) ∧
      (r.status = .done ∨ r.status = .dead →
        ∀ u s', Run (step cfg) s u s' → s'.db.jobs.row j = some r) := by
  have balanced := (balanced_of_run run).1 j r row
  -- a final row is a closed entry of the ledger
  have closed (final : r.status = .done ∨ r.status = .dead) :
      (∃ rest, outcomes cfg j t = .success :: rest ∧ Outcome.success ∉ rest) ∨
        (Outcome.success ∉ outcomes cfg j t ∧
          (outcomes cfg j t).length = max 1 r.maxRetries) :=
    (ledger_sound run row).closed (mt balanced.live_iff.2 (Job.not_live_of_final final))
  have failures {os : List Outcome} (noSuccess : Outcome.success ∉ os) :
      ∀ o ∈ os, o = .failure := by
    intro o member
    cases o with
    | success => exact absurd member noSuccess
    | failure => rfl
  refine ⟨balanced.attempt, fun live => ?_, fun dead => ?_, fun done => ?_, fun final u s' rest =>
    final_run run row final rest⟩
  · rw [balanced.attempt]
    exact (balanced.live_iff.1 live).2
  · rcases closed (.inr dead) with ⟨rest, shape, -⟩ | ⟨noSuccess, spent⟩
    · have done := balanced.done_iff.2 (by rw [shape]; exact List.mem_cons_self)
      cases dead.symm.trans done
    · exact ⟨balanced.attempt.trans spent, failures noSuccess⟩
  · rcases closed (.inl done) with ⟨rest, shape, noSuccess⟩ | ⟨noSuccess, -⟩
    · exact ⟨rest, shape, failures noSuccess⟩
    · exact absurd (balanced.done_iff.1 done) noSuccess

/-- A job of an unknown type with two attempts dies after two failures. -/
theorem attempt_accounting_dead :
    ∃ t s r, Runs demo 0 .empty t s ∧ s.db.jobs.row 1 = some r ∧ r.status = .dead ∧
      r.attempt = 2 ∧ ∀ o ∈ outcomes demo 1 t, o = .failure := by
  obtain ⟨t, s, run, after⟩ := demo_run
    ([.createJob { demoJob with type := "resize", maxRetries := 2 }, .start 0,
        .worker ⟨0, 0⟩ (.connect true)] ++
      demoClaim ⟨0, 0⟩ [1] (some 1) ++ demoFail ⟨0, 0⟩ ++ [.tick 5] ++
      demoClaim ⟨0, 0⟩ [1] (some 1) ++ demoFail ⟨0, 0⟩)
    (fun out => (out.2.db.jobs.row 1).any fun r => r.status = .dead ∧ r.maxRetries = 2)
    (by decide +kernel)
  simp only [Option.any_eq_true, decide_eq_true_eq] at after
  obtain ⟨r, row, dead, budget⟩ := after
  have books := attempt_accounting demo 0 run 1 r row
  obtain ⟨spent, failures⟩ := books.2.2.1 dead
  rw [budget] at spent
  exact ⟨t, s, r, run, row, dead, spent, failures⟩

end TaskQueue
