import SimpleTaskQueue.Refinement.Tracking
/-!
# SimpleTaskQueue.Properties.CurrentTask

**When `currentTask` tells the truth.** `m_currentTask` is the task that was picked since the last
`mainLoopFin`, and blank if there is none, in every interleaving and with any number of threads.
But `currentTask` asks `m_isRunning`, which `start` sets before a task is picked and which stays
set between two tasks. Then it reports success and hands out the blank task.
-/

namespace SimpleTaskQueue

open Sqlite Runs SQLiteQueue

variable {q u : SQLiteQueue} {a : Action} {o : Output} {es : List Event}

/-- The task in flight after an output. -/
def nextFlight (fl : Option Task) : Output → Option Task
  | .inited (.picked t) => some t
  | .finished _ _ => none
  | _ => fl

/-- The task picked last, unless a `mainLoopFin` ran since. -/
def inFlight (es : List Event) : Option Task := es.foldl (fun fl e => nextFlight fl e.2) none

theorem inFlight_snoc : inFlight (es ++ [(a, o)]) = nextFlight (inFlight es) o := by
  rw [inFlight, List.foldl_append]
  rfl

/-- What a client gets back is not an output of the worker. -/
theorem nextFlight_client (h : q.step a = some (o, u)) (hw : ∀ i w, a ≠ .worker i w)
    (fl : Option Task) : nextFlight fl o = fl := by
  cases a with
  | worker i w => exact absurd rfl (hw i w)
  | listPending | listFinished | pendingDetails | finishedDetails | clearPending | clearFinished
  | currentTask | addTask | removeTask | start | stop =>
      simp only [SQLiteQueue.step, Option.some.injEq, Prod.mk.injEq] at h
      obtain ⟨rfl, -⟩ := h
      rfl

/-- **Step lemma.** -/
theorem step_currentTask {fl : Option Task} (h : q.step a = some (o, u))
    (hq : q.mCurrentTask = fl.getD Task.blank) :
    u.mCurrentTask = (nextFlight fl o).getD Task.blank := by
  by_cases hw : ∃ i w, a = .worker i w
  · obtain ⟨i, w, rfl⟩ := hw
    obtain ⟨pc, pc', q', -, hl, rfl⟩ := step_worker h
    cases hl with
    | init env =>
        rcases q.runInit_cases env with ⟨hr, hrun⟩ | ⟨t, hr, hrun⟩ | ⟨hr, hrun⟩ <;> rw [hrun, hr]
        · exact hq
        · rfl
        · exact hq
    | fin env exitCode | finFailed env exitCode => rfl
    | test | startProcess | poll | clearStart | clearRunning => exact hq
  · have hclient : ∀ i w, a ≠ .worker i w := fun i w he => hw ⟨i, w, he⟩
    rw [step_client_currentTask h hclient, nextFlight_client h hclient]
    exact hq

/-- **Run lemma.** -/
theorem run_currentTask (h : Run SQLiteQueue.step anyAction fresh es q) :
    q.mCurrentTask = (inFlight es).getD Task.blank := by
  induction h with
  | nil => rfl
  | snoc _ _ hs ih =>
      rw [inFlight_snoc]
      exact step_currentTask hs ih

/-- **`currentTask` reports a task that is being executed** exactly if it fails, or a task was
picked and not yet finished. -/
theorem currentTask_inFlight_iff (h : Run SQLiteQueue.step anyAction fresh es q) (out : Task) :
    (∀ t, q.currentTask out = (.OK, t) → inFlight es = some t) ↔
      (q.mIsRunning = true → inFlight es ≠ none) := by
  have hcur := run_currentTask h
  cases hrun : q.mIsRunning with
  | false =>
      refine iff_of_true (fun t ht => ?_) nofun
      simp [SQLiteQueue.currentTask, hrun] at ht
  | true =>
      have hout : q.currentTask out = (.OK, q.mCurrentTask) := by
        simp [SQLiteQueue.currentTask, hrun]
      constructor
      · intro hall _ hnone
        rw [hall _ hout] at hnone
        cases hnone
      · intro hfl t ht
        obtain rfl : q.mCurrentTask = t := (Prod.mk.inj (hout.symm.trans ht)).2
        cases hes : inFlight es with
        | none => exact absurd hes (hfl rfl)
        | some t =>
            rw [hcur, hes]
            rfl

/-- A task is added, the queue started, and the task picked. -/
def pickOne : List Action :=
  [.addTask Env.rowid listing, .start, .worker 0 .go, .worker 0 (.init Env.rowid)]

theorem pickOne_runs : (script SQLiteQueue.step anyAction fresh pickOne).isSome = true := by
  decide +kernel

theorem currentTask_inFlight_pickOne :
    ∃ es q, Run SQLiteQueue.step anyAction fresh es q ∧ q.mIsRunning = true ∧
      ((∀ t, q.currentTask Task.blank = (.OK, t) → inFlight es = some t) ↔
        (q.mIsRunning = true → inFlight es ≠ none)) :=
  ⟨_, _, Run.of_script pickOne_runs, by decide +kernel,
    currentTask_inFlight_iff (Run.of_script pickOne_runs) Task.blank⟩

/-- The queue was just started. -/
theorem justStarted_runs : (script SQLiteQueue.step anyAction fresh [.start]).isSome = true := by
  decide +kernel

/-- **A queue that was just started reports the blank task**, with success. -/
theorem currentTask_blank :
    ∃ es q, Run SQLiteQueue.step anyAction fresh es q ∧ q.currentTask listing = (.OK, Task.blank) ∧
      inFlight es = none :=
  ⟨_, _, Run.of_script justStarted_runs, by decide +kernel, by decide +kernel⟩

end SimpleTaskQueue
