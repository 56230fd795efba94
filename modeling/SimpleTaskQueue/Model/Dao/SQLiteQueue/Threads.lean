import SimpleTaskQueue.Core.Locking
import SimpleTaskQueue.Model.Dao.SQLiteQueue.Locks
import SimpleTaskQueue.Model.Dao.SQLiteQueue.Queue
/-!
# SimpleTaskQueue.Model.Dao.SQLiteQueue.Threads

The code of `SQLiteQueue` under its two mutexes, as a thread executes it
(`model/dao/sqlitequeue.cpp`): every SQLite call, every access to `m_currentTask` and every
operation on a mutex is a step of its own, between which other threads make theirs.

* `m_token->mutex` guards the connection, `m_currentTaskMutex` guards `m_currentTask`.
* `m_start` and `m_isRunning` are atomics, outside the mutexes: the stores to them are left out
  here, as are `start`, `stopImpl` and the test of `isRunning()` before `currentTask` locks.
* So is `m_process->start(m_currentTask)`, which reads `m_currentTask` without its mutex.

`GuardedCall.onQueue` is the same call as one step of the members, as in
`SimpleTaskQueue.Model.Dao.SQLiteQueue.Queue`.
-/

namespace SimpleTaskQueue

open Sqlite

/-- What a mutex guards. -/
abbrev Guarded : Lock → Type
  | .token => Conn TableName
  | .currentTask => Task

/-- Code of a thread. -/
abbrev ThreadM := Locking.Code Guarded

namespace ThreadM

open Locking.Code

variable {ε τ β : Type}

/-- One call of SQLite. -/
def sqlite (m : QueueM β) : ThreadM β := on .token m

/-- One access to `m_currentTask`. -/
def onCurrentTask (f : Task → β × Task) : ThreadM β := on .currentTask f

/-- From here on, SQLite decides as the environment says. -/
def given (env : Env) : ThreadM Unit := sqlite fun c => ((), c.given env)

/-! ### Prepared statements -/

def bindAll : Nat → List Value → ThreadM Bool
  | _, [] => pure false
  | i, v :: vs => do
    if ← sqlite (Sqlite.bind i v) then
      pure true
    else
      bindAll (i + 1) vs

def execute (q : Sql TableName) (vals : List Value) (early late ok : ε) : ThreadM ε := do
  if ← sqlite (prepare q) then
    sqlite close
    pure early
  else if ← bindAll 1 vals then
    sqlite close
    pure early
  else
    match ← sqlite step with
    | .done =>
      sqlite close
      pure ok
    | _ =>
      sqlite close
      pure late

def fetch (f : τ → Record → τ × Option ε) (onError : ε) : Nat → τ → ThreadM (τ × Option ε)
  | 0, s => pure (s, some onError)
  | n + 1, s => do
    match ← sqlite step with
    | .row r =>
      match f s r with
      | (s', none) => fetch f onError n s'
      | (s', some e) => pure (s', some e)
    | .done => pure (s, none)
    | .error => pure (s, some onError)

def query (q : Sql TableName) (vals : List Value) (f : τ → Record → τ × Option ε) (s : τ)
    (onError : ε) : ThreadM (τ × Option ε) := do
  if ← sqlite (prepare q) then
    sqlite close
    pure (s, some onError)
  else if ← bindAll 1 vals then
    sqlite close
    pure (s, some onError)
  else
    -- not a call: the rows there are bound the rounds of the loop
    let c ← sqlite get
    let r ← fetch f onError (c.rowsLeft + 1) s
    sqlite close
    pure r

/-! ### The helpers -/

/-- `SQLiteQueue::clearTable`. -/
def clearTable (name : TableName) : ThreadM ErrCode :=
  execute (.delete name none) [] .OS_ERROR .OS_ERROR .OK

/-- `SQLiteQueue::listIDInTable`. -/
def listIDInTable (name : TableName) : ThreadM (ErrCode × List Int) := do
  let r ← query (.select name (some ["ID"]) none none) []
    (fun out row => (out ++ [columnInt row 0], none)) [] .OS_ERROR
  pure (r.2.getD .OK, r.1)

/-- `SQLiteQueue::taskDetails`. -/
def taskDetails (name : TableName) (id : Int) (out : Task) : ThreadM (ErrCode × Task) := do
  let r ← query (.select name none (some ("ID", .param 1)) none) [.int (toInt32 id)]
    (fun s row => ((taskOfRecord row, s.2 + 1), none)) (out, 0) .OS_ERROR
  match r.2 with
  | some e => pure (e, r.1.1)
  | none => if r.1.2 = 0 then pure (.NOT_FOUND, r.1.1) else pure (.OK, r.1.1)

/-- `SQLiteQueue::addTaskToTable`. -/
def addTaskToTable (name : TableName) (t : Task) : ThreadM ErrCode :=
  execute (.insert name [.param 1, .param 2, .param 3, .param 4, .param 5, .param 6])
    (taskValues t) .OS_ERROR .OS_ERROR .OK

/-- `SQLiteQueue::removeTaskFromPending`. `m_currentTaskMutex` is held over the comparison only. -/
def removeTaskFromPending (id : Int) (needCheckCurrentTask : Bool) : ThreadM ErrCode :=
  let remove := execute (.delete .pending (some ("ID", .param 1))) [.int (toInt32 id)]
    .OS_ERROR .NOT_FOUND .OK
  if needCheckCurrentTask then do
    lock .currentTask
    let isCurrent ← onCurrentTask fun t => (decide (id = t.ID), t)
    unlock .currentTask
    if isCurrent then pure .INVALID_ARGUMENT else remove
  else remove

/-- `SQLiteQueue::getID`. -/
def getID (out : Int) : ThreadM (ErrCode × Int) := do
  let r ← query (.select .lastID none none none) []
    (fun s row => ((columnInt row 0, s.2 + 1), none)) (out, 0) .OS_ERROR
  match r.2 with
  | some e => pure (e, r.1.1)
  | none =>
    if r.1.2 ≠ 1 then
      pure (.INVALID_ARGUMENT, r.1.1)
    else
      let rc ← execute (.update .lastID "ID" (.param 1) ("ID", .param 2))
        [.int (toInt32 (r.1.1 + 1)), .int (toInt32 r.1.1)] .OS_ERROR .OS_ERROR .OK
      pure (rc, r.1.1)

/-! ### The calls -/

/-- Under `m_token->mutex` from beginning to end. -/
def underToken (env : Env) (x : ThreadM β) : ThreadM β := do
  lock .token
  given env
  let b ← x
  unlock .token
  pure b

def listPending (env : Env) : ThreadM (ErrCode × List Int) :=
  underToken env (listIDInTable .pending)

def listFinished (env : Env) : ThreadM (ErrCode × List Int) :=
  underToken env (listIDInTable .done)

def pendingDetails (env : Env) (id : Int) (out : Task) : ThreadM (ErrCode × Task) :=
  underToken env (taskDetails .pending id out)

def finishedDetails (env : Env) (id : Int) (out : Task) : ThreadM (ErrCode × Task) :=
  underToken env (taskDetails .done id out)

/-- `SQLiteQueue::clearPending`, which locks `m_currentTaskMutex` as well. -/
def clearPending (env : Env) : ThreadM ErrCode :=
  underToken env do
    lock .currentTask
    let rc ← clearTable .pending
    unlock .currentTask
    pure rc

def clearFinished (env : Env) : ThreadM ErrCode := underToken env (clearTable .done)

/-- `SQLiteQueue::currentTask`, behind its test of `isRunning()`. -/
def currentTask : ThreadM Task := do
  lock .currentTask
  let t ← onCurrentTask fun t => (t, t)
  unlock .currentTask
  pure t

/-- What `SQLiteQueue::addTask` does under the mutex. -/
def addTaskImpl (t : Task) : ThreadM (ErrCode × Task) := do
  let r ← getID t.ID
  if r.1 ≠ .OK then
    pure (.OS_ERROR, { t with ID := r.2 })
  else
    let rc ← addTaskToTable .pending { t with ID := r.2 }
    pure (rc, { t with ID := r.2 })

def addTask (env : Env) (t : Task) : ThreadM (ErrCode × Task) := underToken env (addTaskImpl t)

def removeTask (env : Env) (id : Int) : ThreadM ErrCode :=
  underToken env (removeTaskFromPending id true)

/-! ### The worker's part -/

/-- `SQLiteQueue::mainLoopInit`. The columns are read and stored under both mutexes. -/
def mainLoopInit (env : Env) : ThreadM InitResult :=
  underToken env do
    if ← sqlite (prepare (.select .pending none none (some 1))) then
      sqlite close
      pure .notPrepared
    else
      match ← sqlite step with
      | .row r =>
        lock .currentTask
        onCurrentTask fun _ => ((), taskOfRecord r)
        unlock .currentTask
        sqlite close
        pure (.picked (taskOfRecord r))
      | _ =>
        sqlite close
        pure .stopped

/-- `SQLiteQueue::mainLoopFin` once `m_process->exitCode` has stored the code in `m_currentTask`,
which `t` was before. -/
def mainLoopFinDB (env : Env) (t : Task) (exitCode : Int) : ThreadM FinResult :=
  underToken env do
    let code ← removeTaskFromPending t.ID false
    if code = .INVALID_ARGUMENT ∨ code = .OS_ERROR then
      onCurrentTask fun _ => ((), Task.blank)
      pure .notRemoved
    else if (← addTaskToTable .done { t with exitCode := exitCode }) ≠ .OK then
      onCurrentTask fun _ => ((), Task.blank)
      pure .notAdded
    else
      onCurrentTask fun _ => ((), Task.blank)
      pure .moved

/-- `SQLiteQueue::mainLoopFin`, with what `m_process->exitCode` gives. -/
def mainLoopFin (env : Env) (exitCode : Option Int) : ThreadM (Task × FinResult) := do
  lock .currentTask
  match exitCode with
  | none =>
    let t ← onCurrentTask fun t => (t, t)
    onCurrentTask fun _ => ((), Task.blank)
    unlock .currentTask
    pure (t, .noExitCode)
  | some n =>
    let t ← onCurrentTask fun t => (t, { t with exitCode := n })
    let r ← mainLoopFinDB env t n
    unlock .currentTask
    pure (t, r)

end ThreadM

/-! ### Calls -/

/-- The calls under the mutexes, with what SQLite and the process decide in them. -/
inductive GuardedCall
  | listPending (env : Env)
  | listFinished (env : Env)
  | pendingDetails (env : Env) (id : Int) (out : Task)
  | finishedDetails (env : Env) (id : Int) (out : Task)
  | clearPending (env : Env)
  | clearFinished (env : Env)
  | currentTask
  | addTask (env : Env) (t : Task)
  | removeTask (env : Env) (id : Int)
  | mainLoopInit (env : Env)
  | mainLoopFin (env : Env) (exitCode : Option Int)

namespace GuardedCall

/-- The code of a call, with what it lets its caller, or an observer of the worker, see. -/
def code : GuardedCall → ThreadM Output
  | listPending env => (fun r => .ids r.1 r.2) <$> ThreadM.listPending env
  | listFinished env => (fun r => .ids r.1 r.2) <$> ThreadM.listFinished env
  | pendingDetails env id out => (fun r => .task r.1 r.2) <$> ThreadM.pendingDetails env id out
  | finishedDetails env id out => (fun r => .task r.1 r.2) <$> ThreadM.finishedDetails env id out
  | clearPending env => .code <$> ThreadM.clearPending env
  | clearFinished env => .code <$> ThreadM.clearFinished env
  | currentTask => .task .OK <$> ThreadM.currentTask
  | addTask env t => (fun r => .task r.1 r.2) <$> ThreadM.addTask env t
  | removeTask env id => .code <$> ThreadM.removeTask env id
  | mainLoopInit env => .inited <$> ThreadM.mainLoopInit env
  | mainLoopFin env exitCode => (fun r => .finished r.1 r.2) <$> ThreadM.mainLoopFin env exitCode

/-- The call as far as its locks go. It depends on the rows which one `mainLoopInit` is. -/
def lockCalls : GuardedCall → List LockCall
  | listPending _ => [.listPending]
  | listFinished _ => [.listFinished]
  | pendingDetails .. => [.pendingDetails]
  | finishedDetails .. => [.finishedDetails]
  | clearPending _ => [.clearPending]
  | clearFinished _ => [.clearFinished]
  | currentTask => [.currentTask true]
  | addTask .. => [.addTask]
  | removeTask .. => [.removeTask]
  | mainLoopInit _ => [.mainLoopInit true, .mainLoopInit false]
  | mainLoopFin _ exitCode => [.mainLoopFin exitCode.isSome]

/-- The same call as one step of the members. -/
def onQueue (q : SQLiteQueue) : GuardedCall → Output × SQLiteQueue
  | listPending env =>
    let r := q.call env SimpleTaskQueue.listPending
    (.ids r.1.1 r.1.2, r.2)
  | listFinished env =>
    let r := q.call env SimpleTaskQueue.listFinished
    (.ids r.1.1 r.1.2, r.2)
  | pendingDetails env id out =>
    let r := q.call env (SimpleTaskQueue.pendingDetails id out)
    (.task r.1.1 r.1.2, r.2)
  | finishedDetails env id out =>
    let r := q.call env (SimpleTaskQueue.finishedDetails id out)
    (.task r.1.1 r.1.2, r.2)
  | clearPending env =>
    let r := q.call env SimpleTaskQueue.clearPending
    (.code r.1, r.2)
  | clearFinished env =>
    let r := q.call env SimpleTaskQueue.clearFinished
    (.code r.1, r.2)
  | currentTask => (.task .OK q.mCurrentTask, q)
  | addTask env t =>
    let r := q.call env (SimpleTaskQueue.addTask t)
    (.task r.1.1 r.1.2, r.2)
  | removeTask env id =>
    let r := q.call env (SimpleTaskQueue.removeTask q.mCurrentTask id)
    (.code r.1, r.2)
  | mainLoopInit env =>
    let r := q.runInit env
    (r.1, r.2.1)
  | mainLoopFin env (some exitCode) => q.runFin env (some exitCode)
  -- without an exit code it does not come to the connection
  | mainLoopFin _ none => q.runFin ⟨q.mToken.faults, q.mToken.scan⟩ none

end GuardedCall

namespace SQLiteQueue

/-- The members under the mutexes. -/
def guarded (q : SQLiteQueue) : ∀ m, Guarded m
  | .token => q.mToken
  | .currentTask => q.mCurrentTask

end SQLiteQueue

end SimpleTaskQueue
