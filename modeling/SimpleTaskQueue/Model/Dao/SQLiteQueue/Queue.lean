import SimpleTaskQueue.Core.Runs
import SimpleTaskQueue.Model.Dao.SQLiteQueue.Schema
/-!
# SimpleTaskQueue.Model.Dao.SQLiteQueue.Queue

The `SQLiteQueue` object as a **machine**: clients call its public functions, threads
execute `mainLoop` step by step, and a run is any interleaving of the two.

* A public call is one step. So are the test of `m_start`, `mainLoopInit`,
  `m_process->start`, a poll of `m_process->isRunning`, `mainLoopFin`, and the two stores
  behind the loop. That the mutexes make the calls on the database one step each is shown in
  `SimpleTaskQueue.Properties.Interleaving`.
* `m_process` is an interface (`IProc`): what it answers is part of the action.
  `SimpleTaskQueue.Model.Dao.LinuxQueue` fills it in with `LinuxProc`.
* The action also carries what SQLite decides (`Env`). A statement about all runs is
  therefore one about all failures, all scan orders and all process results, unless it
  restricts the actions.
* `start` launches a thread whenever `isRunning()` is false, as the code does; the thread
  of the previous session may still be in the loop.
-/

namespace SimpleTaskQueue

open Sqlite Runs

/-- Where a thread stands in `mainLoop`: the next thing it does. -/
inductive Pc
  /-- Test `m_start` at the head of the loop. -/
  | test
  | init
  /-- Call `m_process->start(m_currentTask)`. -/
  | startProcess
  /-- Poll `m_process->isRunning()`. -/
  | poll
  | fin
  /-- `mainLoopFin` in the branch of a failed start. -/
  | finFailed
  /-- `m_start.store(false)` in the branch of a failed start. -/
  | clearStart
  /-- `m_isRunning.store(false)` behind the loop. -/
  | clearRunning
  | returned
  deriving Repr, DecidableEq

/-- The thread has not left the loop. -/
def Pc.InLoop : Pc → Bool
  | clearRunning | returned => false
  | _ => true

/-- The thread has picked a task and not yet finished it. -/
def Pc.Executing : Pc → Bool
  | startProcess | poll | fin | finFailed => true
  | _ => false

/-- What a thread does next, with the answers of SQLite and of the process. -/
inductive Work
  /-- A step of `mainLoop` without calls. -/
  | go
  | init (env : Env)
  /-- Does `m_process->start` return 0? -/
  | start (ok : Bool)
  | isRunning (running : Bool)
  /-- `exitCode` is what `m_process->exitCode` gives (`none`: it returns an error). -/
  | fin (env : Env) (exitCode : Option Int)

/-- A client call, or a step of the thread `i`. -/
inductive Action
  | listPending (env : Env)
  | listFinished (env : Env)
  | pendingDetails (env : Env) (id : Int) (out : Task)
  | finishedDetails (env : Env) (id : Int) (out : Task)
  | clearPending (env : Env)
  | clearFinished (env : Env)
  | currentTask (out : Task)
  | addTask (env : Env) (t : Task)
  | removeTask (env : Env) (id : Int)
  | start
  | stop
  | worker (i : Nat) (w : Work)

namespace Action

/-- The failures SQLite decides on in this action. -/
def faults : Action → List Bool
  | listPending env | listFinished env | pendingDetails env _ _ | finishedDetails env _ _
  | clearPending env | clearFinished env | addTask env _ | removeTask env _
  | worker _ (.init env) | worker _ (.fin env _) => env.faults
  | _ => []

/-- SQLite does not fail in this action. -/
def Reliable (a : Action) : Prop := ∀ b ∈ a.faults, b = false

/-- `mainLoopInit` scans in rowid order. -/
def Rowid : Action → Prop
  | worker _ (.init env) => env.scan = Scan.rowid
  | _ => True

/-- The task handed in. -/
def input : Action → Option Task
  | addTask _ t => some t
  | _ => none

/-- No string of a task handed in has a NUL character. -/
def NulFree (a : Action) : Prop := ∀ t ∈ a.input, t.NulFree

def isStart : Action → Bool
  | start => true
  | _ => false

instance (a : Action) : Decidable a.Reliable := inferInstanceAs (Decidable (∀ _ ∈ _, _))

instance (a : Action) : Decidable a.NulFree := inferInstanceAs (Decidable (∀ _ ∈ _, _))

end Action

/-- What a step lets its caller, or an observer of the worker, see. -/
inductive Output
  | code (rc : ErrCode)
  | ids (rc : ErrCode) (ids : List Int)
  /-- A code and the task left in the output parameter. -/
  | task (rc : ErrCode) (t : Task)
  | inited (r : InitResult)
  /-- `m_process->start` was called with `t`. -/
  | started (t : Task) (ok : Bool)
  /-- `mainLoopFin` ran with `t` in `m_currentTask`. -/
  | finished (t : Task) (r : FinResult)
  | silent
  deriving Repr, DecidableEq

/-- The members of the class, and the threads launched so far. -/
structure SQLiteQueue where
  mToken : Conn TableName
  mCurrentTask : Task
  mIsRunning : Bool
  mStart : Bool
  threads : List Pc

namespace SQLiteQueue

/-- A queue after `init`, opened on a new file. -/
def fresh : SQLiteQueue := ⟨newToken, Task.blank, false, false, []⟩

/-- Run a database operation of the queue. -/
def call {β : Type} (q : SQLiteQueue) (env : Env) (m : QueueM β) : β × SQLiteQueue :=
  let r := m (q.mToken.given env)
  (r.1, { q with mToken := r.2 })

/-- `SQLiteQueue::currentTask`. -/
def currentTask (q : SQLiteQueue) (out : Task) : ErrCode × Task :=
  if !q.mIsRunning then (.INVALID_ARGUMENT, out) else (.OK, q.mCurrentTask)

/-- `SQLiteQueue::start`. -/
def start (q : SQLiteQueue) : ErrCode × SQLiteQueue :=
  if q.mIsRunning then (.INVALID_ARGUMENT, q)
  else (.OK, { q with mIsRunning := true, mStart := true, threads := q.threads ++ [.test] })

/-- `SQLiteQueue::stopImpl`, less the call of `m_process->stop`. -/
def stopImpl (q : SQLiteQueue) : SQLiteQueue :=
  if !q.mIsRunning then q else { q with mStart := false, mIsRunning := false }

/-- `mainLoopInit` on the members. -/
def runInit (q : SQLiteQueue) (env : Env) : Output × SQLiteQueue × Pc :=
  let r := q.call env mainLoopInit
  match r.1 with
  | .notPrepared => (.inited r.1, r.2, .test)
  | .picked t => (.inited r.1, { r.2 with mCurrentTask := t }, .startProcess)
  | .stopped => (.inited r.1, { r.2 with mStart := false, mIsRunning := false }, .test)

/-- `mainLoopFin` on the members. -/
def runFin (q : SQLiteQueue) (env : Env) (exitCode : Option Int) : Output × SQLiteQueue :=
  let r := q.call env (mainLoopFin q.mCurrentTask exitCode)
  (.finished q.mCurrentTask r.1,
    { r.2 with mCurrentTask := Task.blank, mStart := r.2.mStart && r.1 == .moved })

/-- A step of a thread of `mainLoop`, and where it stands then. -/
def mainLoop (q : SQLiteQueue) : Pc → Work → Option (Output × SQLiteQueue × Pc)
  | .test, .go => some (.silent, q, if q.mStart then .init else .clearRunning)
  | .init, .init env => some (q.runInit env)
  | .startProcess, .start ok =>
    some (.started q.mCurrentTask ok, q, if ok then .poll else .finFailed)
  | .poll, .isRunning running => some (.silent, q, if running then .poll else .fin)
  | .fin, .fin env exitCode =>
    let r := q.runFin env exitCode
    some (r.1, r.2, .test)
  | .finFailed, .fin env exitCode =>
    let r := q.runFin env exitCode
    some (r.1, r.2, .clearStart)
  | .clearStart, .go => some (.silent, { q with mStart := false }, .test)
  | .clearRunning, .go => some (.silent, { q with mIsRunning := false }, .returned)
  | _, _ => none

/-- **The machine.** -/
def step (q : SQLiteQueue) : Action → Option (Output × SQLiteQueue)
  | .listPending env =>
    let r := q.call env SimpleTaskQueue.listPending
    some (.ids r.1.1 r.1.2, r.2)
  | .listFinished env =>
    let r := q.call env SimpleTaskQueue.listFinished
    some (.ids r.1.1 r.1.2, r.2)
  | .pendingDetails env id out =>
    let r := q.call env (SimpleTaskQueue.pendingDetails id out)
    some (.task r.1.1 r.1.2, r.2)
  | .finishedDetails env id out =>
    let r := q.call env (SimpleTaskQueue.finishedDetails id out)
    some (.task r.1.1 r.1.2, r.2)
  | .clearPending env =>
    let r := q.call env SimpleTaskQueue.clearPending
    some (.code r.1, r.2)
  | .clearFinished env =>
    let r := q.call env SimpleTaskQueue.clearFinished
    some (.code r.1, r.2)
  | .currentTask out =>
    let r := q.currentTask out
    some (.task r.1 r.2, q)
  | .addTask env t =>
    let r := q.call env (SimpleTaskQueue.addTask t)
    some (.task r.1.1 r.1.2, r.2)
  | .removeTask env id =>
    let r := q.call env (SimpleTaskQueue.removeTask q.mCurrentTask id)
    some (.code r.1, r.2)
  | .start => some (.code q.start.1, q.start.2)
  | .stop => some (.silent, q.stopImpl)
  | .worker i w =>
    match q.threads[i]? with
    | none => none
    | some pc => (q.mainLoop pc w).map fun r =>
        (r.1, { r.2.1 with threads := r.2.1.threads.set i r.2.2 })

end SQLiteQueue

end SimpleTaskQueue
