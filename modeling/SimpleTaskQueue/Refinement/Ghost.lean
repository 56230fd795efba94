import SimpleTaskQueue.Core.SqliteGhost
import SimpleTaskQueue.Refinement.Tracking
/-!
# SimpleTaskQueue.Refinement.Ghost

**Where a connection comes from does not matter.** The operations of a queue do not look at the
ghost log (`Blind`). So two queues that hold the same content and the same members (`SameQueue`)
make the same steps with the same outputs, for ever; in particular a queue that `init` has opened
on a new file behaves like `SQLiteQueue.fresh`, whatever else its connection remembers.
-/

namespace SimpleTaskQueue

open Sqlite Runs

/-! ### The operations -/

theorem blind_clearTable (name : TableName) : Blind (clearTable name) := blind_execute _ _ _ _ _

theorem blind_listIDInTable (name : TableName) : Blind (listIDInTable name) :=
  (blind_query _ _ _ _ _).bind fun _ => blind_pure _

theorem blind_taskDetails (name : TableName) (id : Int) (out : Task) :
    Blind (taskDetails name id out) := by
  refine (blind_query _ _ _ _ _).bind fun r => ?_
  cases r.2 with
  | some e => exact blind_pure _
  | none => exact (blind_pure _).ite (blind_pure _)

theorem blind_addTaskToTable (name : TableName) (t : Task) : Blind (addTaskToTable name t) :=
  blind_execute _ _ _ _ _

theorem blind_removeTaskFromPending (currentTask : Task) (id : Int) (check : Bool) :
    Blind (removeTaskFromPending currentTask id check) :=
  (blind_pure _).ite (blind_execute _ _ _ _ _)

theorem blind_getID (out : Int) : Blind (getID out) := by
  refine (blind_query _ _ _ _ _).bind fun r => ?_
  cases r.2 with
  | some e => exact blind_pure _
  | none => exact (blind_pure _).ite ((blind_execute _ _ _ _ _).bind fun _ => blind_pure _)

theorem blind_addTask (t : Task) : Blind (addTask t) :=
  (blind_getID t.ID).bind fun _ =>
    (blind_pure _).ite ((blind_addTaskToTable _ _).bind fun _ => blind_pure _)

theorem blind_mainLoopInit : Blind mainLoopInit := by
  have hclose : ∀ r : InitResult, Blind (do close; pure r : QueueM InitResult) := fun r =>
    blind_close.bind fun _ => blind_pure r
  refine (blind_prepare _).bind fun b => (hclose _).ite ?_
  refine blind_step.bind fun r => ?_
  cases r with
  | row r => exact hclose _
  | done | error => exact hclose _

theorem blind_mainLoopFin (currentTask : Task) (exitCode : Option Int) :
    Blind (mainLoopFin currentTask exitCode) := by
  cases exitCode with
  | none => exact blind_pure _
  | some n =>
      refine (blind_removeTaskFromPending _ _ _).bind fun code => (blind_pure _).ite ?_
      exact (blind_addTaskToTable _ _).bind fun _ => (blind_pure _).ite (blind_pure _)

/-! ### Queues -/

/-- The queues differ in what their connections remember only. -/
structure SameQueue (q q' : SQLiteQueue) : Prop where
  token : ∀ env, SameView (q.mToken.given env) (q'.mToken.given env)
  mCurrentTask : q.mCurrentTask = q'.mCurrentTask
  mIsRunning : q.mIsRunning = q'.mIsRunning
  mStart : q.mStart = q'.mStart
  threads : q.threads = q'.threads

namespace SameQueue

variable {q q' u : SQLiteQueue} {a : Action} {o : Output}

theorem db (h : SameQueue q q') : q.mToken.db = q'.mToken.db := (h.token Env.rowid).db

theorem symm (h : SameQueue q q') : SameQueue q' q where
  token env := ⟨(h.token env).db.symm, rfl, rfl, (h.token env).stmt.symm⟩
  mCurrentTask := h.mCurrentTask.symm
  mIsRunning := h.mIsRunning.symm
  mStart := h.mStart.symm
  threads := h.threads.symm

/-- An operation on the database. -/
theorem call (h : SameQueue q q') {β : Type} {m : QueueM β} (hm : Blind m) (env : Env) :
    (q.call env m).1 = (q'.call env m).1 ∧ SameQueue (q.call env m).2 (q'.call env m).2 := by
  obtain ⟨hres, hview⟩ := hm _ _ (h.token env)
  exact ⟨hres, hview.given, h.mCurrentTask, h.mIsRunning, h.mStart, h.threads⟩

theorem runInit (h : SameQueue q q') (env : Env) :
    (q.runInit env).1 = (q'.runInit env).1 ∧
      SameQueue (q.runInit env).2.1 (q'.runInit env).2.1 ∧
      (q.runInit env).2.2 = (q'.runInit env).2.2 := by
  obtain ⟨hres, hq⟩ := h.call blind_mainLoopInit env
  simp only [SQLiteQueue.runInit, hres]
  cases (q'.call env mainLoopInit).1 with
  | notPrepared => exact ⟨rfl, hq, rfl⟩
  | picked t => exact ⟨rfl, ⟨hq.token, rfl, hq.mIsRunning, hq.mStart, hq.threads⟩, rfl⟩
  | stopped => exact ⟨rfl, ⟨hq.token, hq.mCurrentTask, rfl, rfl, hq.threads⟩, rfl⟩

theorem runFin (h : SameQueue q q') (env : Env) (exitCode : Option Int) :
    (q.runFin env exitCode).1 = (q'.runFin env exitCode).1 ∧
      SameQueue (q.runFin env exitCode).2 (q'.runFin env exitCode).2 := by
  obtain ⟨hres, hq⟩ := h.call (blind_mainLoopFin q.mCurrentTask exitCode) env
  simp only [SQLiteQueue.runFin, ← h.mCurrentTask, hres]
  exact ⟨trivial, hq.token, rfl, hq.mIsRunning, by rw [hq.mStart], hq.threads⟩

/-- A step of a thread. -/
theorem mainLoop (h : SameQueue q q') {pc pc' : Pc} {w : Work}
    (hs : q.mainLoop pc w = some (o, u, pc')) :
    ∃ u', q'.mainLoop pc w = some (o, u', pc') ∧ SameQueue u u' := by
  have hl : SQLiteQueue.LoopStep q pc w o u pc' := .of_mainLoop hs
  cases hl with
  | test => exact ⟨q', by rw [h.mStart]; rfl, h⟩
  | init env =>
      obtain ⟨ho, hq, hpc⟩ := h.runInit env
      exact ⟨_, by rw [ho, hpc]; rfl, hq⟩
  | startProcess ok => exact ⟨q', by rw [h.mCurrentTask]; rfl, h⟩
  | poll running => exact ⟨q', rfl, h⟩
  | fin env exitCode | finFailed env exitCode =>
      obtain ⟨ho, hq⟩ := h.runFin env exitCode
      exact ⟨_, by rw [ho]; rfl, hq⟩
  | clearStart => exact ⟨_, rfl, h.token, h.mCurrentTask, h.mIsRunning, rfl, h.threads⟩
  | clearRunning => exact ⟨_, rfl, h.token, h.mCurrentTask, rfl, h.mStart, h.threads⟩

/-- **Step lemma.** -/
theorem step (h : SameQueue q q') (hs : q.step a = some (o, u)) :
    ∃ u', q'.step a = some (o, u') ∧ SameQueue u u' := by
  have hcall : ∀ {β : Type} {m : QueueM β} {env : Env} (f : β → Output), Blind m →
      some (f (q.call env m).1, (q.call env m).2) = some (o, u) →
      ∃ u', some (f (q'.call env m).1, (q'.call env m).2) = some (o, u') ∧ SameQueue u u' := by
    intro β m env f hm heq
    obtain ⟨rfl, rfl⟩ := Prod.mk.inj (Option.some.inj heq)
    obtain ⟨hres, hq⟩ := h.call hm env
    exact ⟨_, by rw [hres], hq⟩
  cases a with
  | worker i w =>
      simp only [SQLiteQueue.step] at hs ⊢
      rw [← h.threads]
      split at hs
      · cases hs
      · next pc hpc =>
        simp only [Option.map_eq_some_iff, Prod.mk.injEq] at hs
        obtain ⟨⟨o', q₁, pc'⟩, hr, rfl, rfl⟩ := hs
        obtain ⟨q₂, hr', hq⟩ := h.mainLoop hr
        refine ⟨{ q₂ with threads := q₂.threads.set i pc' }, by rw [hr']; rfl, hq.token,
          hq.mCurrentTask, hq.mIsRunning, hq.mStart, ?_⟩
        rw [hq.threads]
  | listPending env | listFinished env =>
      exact hcall (fun r : ErrCode × List Int => .ids r.1 r.2) (blind_listIDInTable _) hs
  | pendingDetails env id out | finishedDetails env id out =>
      exact hcall (fun r : ErrCode × Task => .task r.1 r.2) (blind_taskDetails _ _ _) hs
  | clearPending env | clearFinished env => exact hcall Output.code (blind_clearTable _) hs
  | addTask env t => exact hcall (fun r : ErrCode × Task => .task r.1 r.2) (blind_addTask t) hs
  | removeTask env id =>
      simp only [SQLiteQueue.step, ← h.mCurrentTask] at hs ⊢
      exact hcall Output.code (blind_removeTaskFromPending _ _ _) hs
  | currentTask out =>
      obtain ⟨rfl, rfl⟩ := Prod.mk.inj (Option.some.inj hs)
      refine ⟨q', ?_, h⟩
      simp only [SQLiteQueue.step, SQLiteQueue.currentTask, h.mIsRunning, h.mCurrentTask]
  | start =>
      obtain ⟨rfl, rfl⟩ := Prod.mk.inj (Option.some.inj hs)
      simp only [SQLiteQueue.step, SQLiteQueue.start, ← h.mIsRunning]
      split
      · exact ⟨q', rfl, h⟩
      · refine ⟨_, rfl, h.token, h.mCurrentTask, rfl, rfl, ?_⟩
        rw [h.threads]
  | stop =>
      obtain ⟨rfl, rfl⟩ := Prod.mk.inj (Option.some.inj hs)
      simp only [SQLiteQueue.step, SQLiteQueue.stopImpl, ← h.mIsRunning]
      split
      · exact ⟨q', rfl, h⟩
      · exact ⟨_, rfl, h.token, h.mCurrentTask, rfl, rfl, h.threads⟩

/-- **Run lemma.** -/
theorem run {ok ok' : SQLiteQueue → Action → Prop} {es : List (Action × Output)}
    (h : SameQueue q q') (hrun : Run SQLiteQueue.step ok q es u)
    (hok : ∀ q q' a, SameQueue q q' → ok q a → ok' q' a) :
    ∃ u', Run SQLiteQueue.step ok' q' es u' ∧ SameQueue u u' := by
  induction hrun with
  | nil => exact ⟨q', .nil, h⟩
  | snoc _ ha hs ih =>
      obtain ⟨t, ht, hsame⟩ := ih
      obtain ⟨u', hs', hu⟩ := hsame.step hs
      exact ⟨u', ht.snoc (hok _ _ _ hsame ha) hs', hu⟩

end SameQueue

/-- The one-worker discipline is about the members. -/
theorem SameQueue.oneWorker {q q' : SQLiteQueue} {a : Action} (h : SameQueue q q')
    (hone : SQLiteQueue.OneWorker q a) : SQLiteQueue.OneWorker q' a := by
  rw [SQLiteQueue.OneWorker, ← h.mIsRunning, ← h.threads]
  exact hone

/-- Queues at rest with the same content and the same members. -/
theorem sameQueue_of_rest {q q' : SQLiteQueue} (hdb : q.mToken.db = q'.mToken.db)
    (hst : q.mToken.stmt = none) (hst' : q'.mToken.stmt = none)
    (hcur : q.mCurrentTask = q'.mCurrentTask) (hrun : q.mIsRunning = q'.mIsRunning)
    (hstart : q.mStart = q'.mStart) (hthreads : q.threads = q'.threads) : SameQueue q q' where
  token _ := ⟨hdb, rfl, rfl, congrArg (Option.map Stmt.view) (hst.trans hst'.symm)⟩
  mCurrentTask := hcur
  mIsRunning := hrun
  mStart := hstart
  threads := hthreads

/-- A queue that was opened on a new file. -/
theorem sameQueue_fresh {c : Conn TableName} (hdb : c.db = ledgerDB emptyLedger)
    (hst : c.stmt = none) : SameQueue ⟨c, Task.blank, false, false, []⟩ SQLiteQueue.fresh :=
  sameQueue_of_rest (hdb.trans fresh_refines.db.symm) hst fresh_refines.stmt rfl rfl rfl rfl

end SimpleTaskQueue
