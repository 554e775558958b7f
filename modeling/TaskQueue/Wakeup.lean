/-
# TaskQueue.Wakeup -- notifications and the wait of a worker

The callback of the listener schedules `notify_event.set`; the worker clears the event when
it stops waiting, on wake-up and on timeout alike, and nowhere else.  So a notification may
be cleared unseen, but only on the way from the wait to the next `_try_claim`, which begins
after the job's INSERT: the trigger notifies on commit.

* `NotifyStep` is what one step does to a worker's notifications.
* `pending_of_run` is the invariant: a delivered notification is still scheduled or set, or
  the latest claim began after the INSERT, or the worker is outside its loop body and
  begins a claim before it waits again.
* `poll_needed_after_lock`: that claim may find the row locked and leave it to the timeout.
-/
import TaskQueue.System

namespace TaskQueue

set_option autoImplicit false

open Transition

/-- The step begins a `_try_claim` of `w`. -/
def begins (w : WorkerId) (s : Sys) : Event → Bool
  | .worker w' .enterLoop => w' = w && !s.shutdown w.proc
  | _ => false

/-- The history before the latest `_try_claim` of `w` began. -/
def beforeLatestClaim (w : WorkerId) : History Sys Event → History Sys Event
  | [] => []
  | (s, e) :: t => if begins w s e then t else beforeLatestClaim w t

/-- The INSERT of job `j` committed. -/
def Inserted (cfg : Config) (j : JobId) (t : History Sys Event) : Prop :=
  ∃ x ∈ t, ∃ body, committed cfg x.1 x.2 = some (.insertJob body) ∧ x.1.db.jobs.next = j

/-- The step delivers the notification of job `j` to `w`. -/
def delivers (w : WorkerId) (j : JobId) (s : Sys) : Event → Bool
  | .deliver w' => w' = w && (s.notify w).inbox.head? = some j
  | _ => false

/-- The notification of job `j` was delivered to `w`. -/
def Delivered (w : WorkerId) (j : JobId) (t : History Sys Event) : Prop :=
  ∃ x ∈ t, delivers w j x.1 x.2 = true

/-- In the body of the loop, from the start of a claim to the end of the wait. -/
def Pc.inLoop : Pc → Bool
  | .absent | .connecting | .loopHead | .closing _ _ | .exited _ | .dead => false
  | _ => true

/-- What one step does to the notifications of `w`. -/
inductive NotifyStep (cfg : Config) (w : WorkerId) (s : Sys) (e : Event) (n : Notify) : Prop
  | rests (other : e ≠ .deliver w) (same : n = s.notify w)
  | arrives {body : JobCreate} (commits : committed cfg s e = some (.insertJob body))
      (other : e ≠ .deliver w)
      (next : n = { s.notify w with inbox := (s.notify w).inbox ++ [s.db.jobs.next] })
  | delivers {j : JobId} {rest : List JobId} (now : e = .deliver w)
      (inbox : (s.notify w).inbox = j :: rest)
      (next : n = { s.notify w with inbox := rest, scheduled := (s.notify w).scheduled + 1 })
  | sets {m : ℕ} (now : e = .runScheduled w) (scheduled : (s.notify w).scheduled = m + 1)
      (next : n = { s.notify w with scheduled := m, isSet := true })
  | clears (now : e = .worker w .wake) (next : n = { s.notify w with isSet := false })

section

variable {cfg : Config} {t₀ : Time} {db : Db} {t : History Sys Event} {s s' : Sys} {e : Event}
  {w : WorkerId} {j : JobId}

theorem deliver_step {w' : WorkerId} (taken : step cfg s (.deliver w') = some s') :
    ∃ j rest, (s.notify w').inbox = j :: rest ∧ s'.notify = Function.update s.notify w'
      { s.notify w' with inbox := rest, scheduled := (s.notify w').scheduled + 1 } := by
  simp only [step, control, Option.map_eq_some_iff] at taken
  obtain ⟨c, enabled, rfl⟩ := taken
  split at enabled
  · cases enabled
  · rename_i j rest inbox
    cases enabled
    exact ⟨j, rest, inbox, rfl⟩

theorem runScheduled_step {w' : WorkerId} (taken : step cfg s (.runScheduled w') = some s') :
    ∃ m, (s.notify w').scheduled = m + 1 ∧ s'.notify = Function.update s.notify w'
      { s.notify w' with scheduled := m, isSet := true } := by
  simp only [step, control, Option.map_eq_some_iff] at taken
  obtain ⟨c, enabled, rfl⟩ := taken
  split at enabled
  · cases enabled
  · rename_i m scheduled
    cases enabled
    exact ⟨m, scheduled, rfl⟩

theorem notify_step (taken : step cfg s e = some s') : NotifyStep cfg w s e (s'.notify w) := by
  cases step_taken taken with
  | @worker w' act m moved =>
      by_cases wakes : act = .wake ∧ w' = w
      · obtain ⟨rfl, rfl⟩ := wakes
        exact .clears rfl (by simp [Sys.moveWorker])
      · refine .rests (by simp) ?_
        cases act with
        | wake =>
            have other : w ≠ w' := fun same => wakes ⟨rfl, same.symm⟩
            simp [Sys.moveWorker, other]
        | _ => rfl
  | createJob body =>
      by_cases listens : (s.pc w).listening = true
      · exact .arrives rfl (by simp) (by simp [Sys.notifyAll, listens])
      · exact .rests (by simp) (by simp [Sys.notifyAll, listens])
  | deliver w' n =>
      obtain ⟨j, rest, inbox, next⟩ := deliver_step taken
      rw [next]
      by_cases mine : w' = w
      · subst mine
        exact .delivers rfl inbox (by simp)
      · exact .rests (by simpa using mine) (by simp [Ne.symm mine])
  | runScheduled w' n =>
      obtain ⟨m, scheduled, next⟩ := runScheduled_step taken
      rw [next]
      by_cases mine : w' = w
      · subst mine
        exact .sets rfl scheduled (by simp)
      · exact .rests (by simp) (by simp [Ne.symm mine])
  | _ => exact .rests (by simp) rfl

theorem Inserted.cons (x : Sys × Event) (inserted : Inserted cfg j t) :
    Inserted cfg j (x :: t) := by
  obtain ⟨y, member, facts⟩ := inserted
  exact ⟨y, List.mem_cons_of_mem _ member, facts⟩

theorem delivered_cons :
    Delivered w j ((s, e) :: t) ↔ delivers w j s e = true ∨ Delivered w j t := by
  simp [Delivered]

theorem delivers_iff :
    delivers w j s e = true ↔ e = .deliver w ∧ (s.notify w).inbox.head? = some j := by
  unfold delivers
  split
  · simp
  · rename_i other
    simpa using fun now => absurd now (other w)

/-- Only jobs whose INSERT has committed are notified. -/
theorem inserted_of_inbox (run : Runs cfg t₀ db t s) :
    ∀ w, ∀ j ∈ (s.notify w).inbox, Inserted cfg j t := by
  refine run.invariant (P := fun t s => ∀ w, ∀ j ∈ (s.notify w).inbox, Inserted cfg j t) ?_ ?_
  · intro w j member
    cases member
  intro t s e s' _ ih taken w j member
  cases notify_step (w := w) taken with
  | rests _ same =>
      rw [same] at member
      exact (ih w j member).cons _
  | arrives commits _ next =>
      rw [next, List.mem_append, List.mem_singleton] at member
      rcases member with before | rfl
      · exact (ih w j before).cons _
      · exact ⟨(s, e), List.mem_cons_self, _, commits, rfl⟩
  | delivers _ inbox next =>
      rw [next] at member
      exact (ih w j (by rw [inbox]; exact List.mem_cons_of_mem _ member)).cons _
  | sets _ _ next =>
      rw [next] at member
      exact (ih w j member).cons _
  | clears _ next =>
      rw [next] at member
      exact (ih w j member).cons _

theorem inserted_of_delivered (run : Runs cfg t₀ db t s) : Delivered w j t → Inserted cfg j t := by
  refine run.invariant (P := fun t _ => Delivered w j t → Inserted cfg j t) ?_ ?_
  · rintro ⟨x, member, -⟩
    cases member
  intro t s e s' run ih _ delivered
  rcases delivered_cons.1 delivered with now | before
  · have head := (delivers_iff.1 now).2
    exact (inserted_of_inbox run w j (List.mem_of_head? head)).cons _
  · exact (ih before).cons _

/-- The body of the loop is entered only by beginning a claim. -/
theorem begins_of_enters (taken : step cfg s e = some s') (outside : (s.pc w).inLoop = false)
    (inside : (s'.pc w).inLoop = true) : begins w s e = true := by
  cases worker_step taken w with
  | @moves act m now moved pc _ =>
      subst now
      rw [pc] at inside
      cases at_ : s.pc w with
      | loopHead =>
          cases act with
          | enterLoop =>
              simp only [Sys.runWorker, runWorker, at_, Option.some.injEq] at moved
              subst moved
              cases down : s.shutdown w.proc with
              | false => simp [begins, down]
              | true => simp [down, Pc.inLoop] at inside
          | _ => simp [Sys.runWorker, runWorker, executeJob, at_] at moved
      | connecting =>
          cases act with
          | connect ok =>
              simp only [Sys.runWorker, runWorker, at_, Option.some.injEq] at moved
              subst moved
              cases ok <;> cases inside
          | _ => simp [Sys.runWorker, runWorker, executeJob, at_] at moved
      | closing raised left =>
          cases act with
          | close raises =>
              simp only [Sys.runWorker, runWorker, at_, Option.some.injEq] at moved
              subst moved
              cases inside
          | _ => simp [Sys.runWorker, runWorker, executeJob, at_] at moved
      | absent => simp [Sys.runWorker, runWorker, executeJob, at_] at moved
      | exited raised => simp [Sys.runWorker, runWorker, executeJob, at_] at moved
      | dead => simp [Sys.runWorker, runWorker, executeJob, at_] at moved
      | _ => simp [at_, Pc.inLoop] at outside
  | stays _ _ pc _ =>
      rw [pc, outside] at inside
      cases inside
  | spawns _ pc _ =>
      rw [pc] at inside
      cases inside
  | dies _ pc _ =>
      rw [pc] at inside
      cases inside

theorem waiting_of_enabled (enabled : (step cfg s (.worker w .wake)).isSome = true) :
    s.pc w = .waiting := by
  obtain ⟨m, moved⟩ := moved_of_enabled enabled
  cases at_ : s.pc w with
  | waiting => rfl
  | _ => simp [Sys.runWorker, runWorker, executeJob, at_] at moved

/-- Clearing the event, the worker leaves the wait. -/
theorem outside_of_wake (taken : step cfg s (.worker w .wake) = some s') :
    (s'.pc w).inLoop = false := by
  have at_ := waiting_of_enabled (Option.isSome_of_eq_some taken)
  cases step_taken taken with
  | worker moved =>
      simp only [Sys.runWorker, runWorker, at_, Option.some.injEq] at moved
      subst moved
      simp [Sys.moveWorker, Pc.inLoop]

theorem inserted_before_begins (hit : begins w s e = true) (inserted : Inserted cfg j t) :
    Inserted cfg j (beforeLatestClaim w ((s, e) :: t)) := by
  rw [beforeLatestClaim, if_pos hit]
  exact inserted

/-- **No notification is lost**: a delivered one is scheduled or set, or the latest claim began
after its INSERT, or the worker is outside the loop body. -/
theorem pending_of_run (run : Runs cfg t₀ db t s) : Delivered w j t →
    0 < (s.notify w).scheduled ∨ (s.notify w).isSet = true ∨
      Inserted cfg j (beforeLatestClaim w t) ∨ (s.pc w).inLoop = false := by
  refine run.invariant (P := fun t s => Delivered w j t →
    0 < (s.notify w).scheduled ∨ (s.notify w).isSet = true ∨
      Inserted cfg j (beforeLatestClaim w t) ∨ (s.pc w).inLoop = false) ?_ ?_
  · rintro ⟨x, member, -⟩
    cases member
  intro t s e s' run ih taken delivered
  -- what the history and the program point say is kept by every step
  have keeps (before : Delivered w j t)
      (seen : Inserted cfg j (beforeLatestClaim w t) ∨ (s.pc w).inLoop = false) :
      Inserted cfg j (beforeLatestClaim w ((s, e) :: t)) ∨ (s'.pc w).inLoop = false := by
    by_cases hit : begins w s e = true
    · exact .inl (inserted_before_begins hit (inserted_of_delivered run before))
    · rw [beforeLatestClaim, if_neg hit]
      refine seen.imp id fun outside => ?_
      by_contra inside
      exact hit (begins_of_enters taken outside (by simpa using inside))
  cases notify_step (w := w) taken with
  | rests other same =>
      have before := (delivered_cons.1 delivered).resolve_left fun now =>
        other (delivers_iff.1 now).1
      rw [same]
      rcases ih before with scheduled | set | seen
      · exact .inl scheduled
      · exact .inr (.inl set)
      · exact .inr (.inr (keeps before seen))
  | arrives _ other next =>
      have before := (delivered_cons.1 delivered).resolve_left fun now =>
        other (delivers_iff.1 now).1
      rw [next]
      rcases ih before with scheduled | set | seen
      · exact .inl scheduled
      · exact .inr (.inl set)
      · exact .inr (.inr (keeps before seen))
  | delivers _ _ next =>
      rw [next]
      exact .inl (Nat.succ_pos _)
  | sets _ _ next =>
      rw [next]
      exact .inr (.inl rfl)
  | clears now _ =>
      subst now
      exact .inr (.inr (.inr (outside_of_wake taken)))

end

/-- **No lost wake-up.**  In every run, from any tables: whenever a worker is blocked in its
wait with its event unset and no set scheduled, its latest `_try_claim` began after the
INSERT of every job whose notification was delivered to it. -/
theorem no_lost_wakeup (cfg : Config) (t₀ : Time) (db : Db) {t : History Sys Event} {s : Sys}
    (run : Runs cfg t₀ db t s) (w : WorkerId) (blocked : s.pc w = .waiting)
    (unset : (s.notify w).isSet = false) (idle : (s.notify w).scheduled = 0) (j : JobId)
    (delivered : Delivered w j t) : Inserted cfg j (beforeLatestClaim w t) := by
  rcases pending_of_run run delivered with scheduled | set | seen | outside
  · omega
  · cases unset.symm.trans set
  · exact seen
  · rw [blocked] at outside
    cases outside

/-- The notification of job 1 wakes a waiting worker, which executes the job and waits again. -/
theorem no_lost_wakeup_executed :
    ∃ t s, Runs demo 0 .empty t s ∧ Delivered ⟨0, 0⟩ 1 t ∧
      Inserted demo 1 (beforeLatestClaim ⟨0, 0⟩ t) := by
  obtain ⟨t, s, run, after⟩ := demo_run
    ([.start 0, .worker ⟨0, 0⟩ (.connect true)] ++ demoClaim ⟨0, 0⟩ [] none ++
      [.createJob demoJob, .deliver ⟨0, 0⟩, .runScheduled ⟨0, 0⟩, .worker ⟨0, 0⟩ .wake] ++
      demoClaim ⟨0, 0⟩ [1] (some 1) ++ demoDone ⟨0, 0⟩ ++ demoClaim ⟨0, 0⟩ [] none)
    (fun out => (step demo out.2 (.worker ⟨0, 0⟩ .wake)).isSome ∧
      ((out.2.notify ⟨0, 0⟩).isSet = false ∧ (out.2.notify ⟨0, 0⟩).scheduled = 0) ∧
      out.1.any fun x => delivers ⟨0, 0⟩ 1 x.1 x.2)
    (by decide +kernel)
  simp only [decide_eq_true_eq, List.any_eq_true] at after
  obtain ⟨enabled, ⟨unset, idle⟩, delivered⟩ := after
  have blocked := waiting_of_enabled enabled
  exact ⟨t, s, run, delivered,
    no_lost_wakeup demo 0 .empty run ⟨0, 0⟩ blocked unset idle 1 delivered⟩

/-- Worker `⟨1, 0⟩` claims job 1 and takes the lock of job 2 with it.  The notifications wake worker
`⟨0, 0⟩`, which finds no row that it can lock.  Then process 1 crashes. -/
def pollRun : List Event :=
  [.start 0, .start 1, .worker ⟨0, 0⟩ (.connect true), .worker ⟨1, 0⟩ (.connect true)] ++
    demoClaim ⟨0, 0⟩ [] none ++ [.createJob demoJob, .createJob demoJob] ++
    demoClaim ⟨1, 0⟩ [1, 2] (some 1) ++
    [.deliver ⟨0, 0⟩, .deliver ⟨0, 0⟩, .runScheduled ⟨0, 0⟩, .runScheduled ⟨0, 0⟩,
      .worker ⟨0, 0⟩ .wake] ++
    demoClaim ⟨0, 0⟩ [2] none ++ [.crash 1]

/-- The worker waits, with no notification left; job 2, of which it was notified, is due and no
session holds its lock.  It is the timeout that brings the claim. -/
theorem poll_needed_after_lock :
    ∃ t s, Runs demo 0 .empty t s ∧ s.pc ⟨0, 0⟩ = .waiting ∧
      ((s.notify ⟨0, 0⟩).isSet = false ∧ (s.notify ⟨0, 0⟩).scheduled = 0 ∧
        (s.notify ⟨0, 0⟩).inbox = []) ∧
      Delivered ⟨0, 0⟩ 2 t ∧ eligible s.now s.db.jobs 2 = true ∧ s.locks.owner 2 = none ∧
      ∃ u s', exec (step demo) t s ([.worker ⟨0, 0⟩ .wake] ++ demoClaim ⟨0, 0⟩ [2] (some 2)) =
        some (u, s') := by
  obtain ⟨t, s, run, after⟩ := demo_run pollRun
    (fun out => (step demo out.2 (.worker ⟨0, 0⟩ .wake)).isSome ∧
      ((out.2.notify ⟨0, 0⟩).isSet = false ∧ (out.2.notify ⟨0, 0⟩).scheduled = 0 ∧
        (out.2.notify ⟨0, 0⟩).inbox = []) ∧
      (out.1.any fun x => delivers ⟨0, 0⟩ 2 x.1 x.2) ∧
      eligible out.2.now out.2.db.jobs 2 = true ∧ out.2.locks.owner 2 = none ∧
      (exec (step demo) out.1 out.2
        ([.worker ⟨0, 0⟩ .wake] ++ demoClaim ⟨0, 0⟩ [2] (some 2))).isSome)
    (by decide +kernel)
  simp only [decide_eq_true_eq, List.any_eq_true] at after
  obtain ⟨enabled, quiet, delivered, due, unlocked, claims⟩ := after
  obtain ⟨out, claimed⟩ := Option.isSome_iff_exists.1 claims
  exact ⟨t, s, run, waiting_of_enabled enabled, quiet, delivered, due, unlocked, out.1, out.2,
    claimed⟩

end TaskQueue
