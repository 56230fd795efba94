import SimpleTaskQueue.Refinement.Threads
import SimpleTaskQueue.Refinement.Worker
/-!
# SimpleTaskQueue.Properties.Interleaving

The calls of `SQLiteQueue` that run under its mutexes are **linearizable**, whatever the
interleaving of their SQLite calls, their accesses to `m_currentTask` and their operations on the
two mutexes (`calls_linearizable`).

So a call can be taken as one step, as the machine of `SimpleTaskQueue.Model.Dao.SQLiteQueue.Queue`
takes it (`step_guardedCall`).
-/

namespace SimpleTaskQueue

open Sqlite Runs SQLiteQueue
open Linearizable (Linearization Visible)

/-! ### The machine -/

/-- The guarded call that is made in an action. -/
def Action.guardedCall (q : SQLiteQueue) : Action → Option GuardedCall
  | listPending env => some (.listPending env)
  | listFinished env => some (.listFinished env)
  | pendingDetails env id out => some (.pendingDetails env id out)
  | finishedDetails env id out => some (.finishedDetails env id out)
  | clearPending env => some (.clearPending env)
  | clearFinished env => some (.clearFinished env)
  | currentTask _ => if q.mIsRunning then some .currentTask else none
  | addTask env t => some (.addTask env t)
  | removeTask env id => some (.removeTask env id)
  | worker _ (.init env) => some (.mainLoopInit env)
  | worker _ (.fin env exitCode) => some (.mainLoopFin env exitCode)
  | _ => none

variable {q u : SQLiteQueue} {a : Action} {g : GuardedCall} {o : Output}

/-- A step that makes a guarded call does to the guarded members what the call does at once. What
SQLite decides is given anew with the next use of the connection. -/
theorem step_guardedCall (ha : a.guardedCall q = some g) (hs : q.step a = some (o, u)) :
    o = (g.onQueue q).1 ∧ u.mCurrentTask = (g.onQueue q).2.mCurrentTask ∧
      ∀ env, u.mToken.given env = (g.onQueue q).2.mToken.given env := by
  cases a with
  | listPending | listFinished | pendingDetails | finishedDetails | clearPending | clearFinished
  | addTask | removeTask =>
      cases ha
      cases hs
      exact ⟨rfl, rfl, fun _ => rfl⟩
  | currentTask out =>
      obtain ⟨hrun, he⟩ := Option.ite_none_right_eq_some.mp ha
      cases he
      cases hs
      have hcall : q.currentTask out = (.OK, q.mCurrentTask) := by simp [currentTask, hrun]
      exact ⟨by rw [hcall]; rfl, rfl, fun _ => rfl⟩
  | start | stop => cases ha
  | worker i w =>
      obtain ⟨pc, pc', q', -, hl, rfl⟩ := step_worker hs
      cases hl with
      | init env =>
          cases ha
          exact ⟨rfl, rfl, fun _ => rfl⟩
      | fin env exitCode | finFailed env exitCode =>
          cases ha
          cases exitCode with
          | none | some n => exact ⟨rfl, rfl, fun _ => rfl⟩
      | test | startProcess | poll | clearStart | clearRunning => cases ha

/-- Any other step leaves the guarded members alone. -/
theorem step_unguarded (ha : a.guardedCall q = none) (hs : q.step a = some (o, u)) :
    u.guarded = q.guarded := by
  cases a with
  | listPending | listFinished | pendingDetails | finishedDetails | clearPending | clearFinished
  | addTask | removeTask => cases ha
  | currentTask =>
      cases hs
      rfl
  | start | stop =>
      obtain ⟨-, rfl⟩ := Prod.mk.inj (Option.some.inj hs)
      simp only [SQLiteQueue.start, stopImpl]
      split <;> rfl
  | worker i w =>
      obtain ⟨pc, pc', q', -, hl, rfl⟩ := step_worker hs
      cases hl with
      | init env | fin env exitCode | finFailed env exitCode => cases ha
      | test | startProcess | poll | clearStart | clearRunning => rfl

/-! ### Linearizability -/

/-- The queue on which each call runs at once. -/
def atomicQueue : Linearizable.Server SQLiteQueue GuardedCall Unit Output :=
  ⟨fun _ _ => (), fun q _ g => some (g.onQueue q)⟩

variable {q q' : SQLiteQueue} {B : ∀ m, Guarded m} {l : List (GuardedCall × Output)}

/-- The server of the code, run alone, is this queue. -/
theorem run_atomicQueue (h : Run (Locking.server GuardedCall.code).seq anyAction q.guarded l B) :
    ∃ q', Run atomicQueue.seq anyAction q l q' ∧ B = q'.guarded := by
  induction h with
  | nil => exact ⟨q, .nil, rfl⟩
  | @snoc l B C g o _ _ hs ih =>
      obtain ⟨q', hrun, rfl⟩ := ih
      have hdone : (o, C) = ((g.onQueue q').1, (g.onQueue q').2.guarded) :=
        (Option.some.inj hs).symm.trans (g.does q').run
      obtain ⟨rfl, rfl⟩ := Prod.mk.inj hdone
      exact ⟨(g.onQueue q').2, hrun.snoc trivial rfl, rfl⟩

variable {es : List (Locking.Move GuardedCall × Option (Visible GuardedCall Output))}
  {t : Locking.State Guarded GuardedCall Output}

/-- **Linearizability.** -/
theorem calls_linearizable
    (h : Run (Locking.step GuardedCall.code) anyAction (Locking.init q.guarded) es t) :
    ∃ l q', Linearization atomicQueue q (Locking.history es) l q' ∧
      (∀ p ∈ l, p.1.isSome = true) ∧ ∀ m, t.holder m = none → t.data m = q'.guarded m := by
  have hproper : ∀ g : GuardedCall, g.code.Proper := fun g => (g.does q).proper
  obtain ⟨l, B, hl, hcalls, hfree⟩ := Locking.run_linearizable hproper h
  obtain ⟨q', hrun, rfl⟩ := run_atomicQueue hl.run
  exact ⟨l, q', ⟨hrun, hl.once, hl.sent, hl.answers, hl.order⟩, hcalls, hfree⟩

/-- `currentTask` runs in the middle of a `removeTask`. -/
def overlapping : List (Locking.Move GuardedCall) :=
  [.send (.removeTask .rowid 1), .step 0, .send .currentTask, .step 1, .step 0, .step 1, .step 1,
    .answer 1] ++ List.replicate 8 (.step 0) ++ [.answer 0]

theorem overlapping_runs : (script (Locking.step GuardedCall.code) anyAction
    (Locking.init fresh.guarded) overlapping).isSome = true := by
  decide +kernel

theorem calls_linearizable_overlapping :
    let r := (script (Locking.step GuardedCall.code) anyAction (Locking.init fresh.guarded)
      overlapping).get overlapping_runs
    ∃ l q', Linearization atomicQueue fresh (Locking.history r.1) l q' ∧
      (∀ p ∈ l, p.1.isSome = true) ∧ ∀ m, r.2.holder m = none → r.2.data m = q'.guarded m :=
  calls_linearizable ((Run.of_script overlapping_runs).mono fun _ _ _ => trivial)

end SimpleTaskQueue
