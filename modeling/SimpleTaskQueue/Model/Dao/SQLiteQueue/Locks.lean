import Mathlib.Data.Fintype.Basic
import SimpleTaskQueue.Core.Mutex
/-!
# SimpleTaskQueue.Model.Dao.SQLiteQueue.Locks

The two mutexes of `SQLiteQueue`, as the public calls and both worker steps acquire and release
them (`model/dao/sqlitequeue.cpp`). `mainLoopFin` takes `m_currentTaskMutex` and then
`m_token->mutex`; the others that take both do it the other way round. The code itself is in
`SimpleTaskQueue.Model.Dao.SQLiteQueue.Threads`; it makes these operations (`locks_code`).
-/

namespace SimpleTaskQueue

open Mutex Runs

/-- The mutexes. -/
inductive Lock
  | token
  | currentTask
  deriving Repr, DecidableEq

instance : Fintype Lock := ⟨{.token, .currentTask}, fun m => by cases m <;> decide⟩

/-- The calls, as far as their locks go. -/
inductive LockCall
  | listPending
  | listFinished
  | pendingDetails
  | finishedDetails
  | clearPending
  | clearFinished
  /-- `m_currentTaskMutex` is taken only if the queue is running. -/
  | currentTask (running : Bool)
  | addTask
  | removeTask
  /-- `m_currentTaskMutex` is taken only if there is a row. -/
  | mainLoopInit (row : Bool)
  /-- `m_token->mutex` is taken only if `m_process->exitCode` does not fail. -/
  | mainLoopFin (exitCode : Bool)
  deriving Repr, DecidableEq

/-- `m_token->mutex` only. -/
def tokenOnly : List (Op Lock) := [.acquire .token, .release .token]

/-- `m_currentTaskMutex` within `m_token->mutex`. -/
def tokenFirst : List (Op Lock) :=
  [.acquire .token, .acquire .currentTask, .release .currentTask, .release .token]

/-- `m_currentTaskMutex` only. -/
def currentTaskOnly : List (Op Lock) := [.acquire .currentTask, .release .currentTask]

/-- `m_token->mutex` within `m_currentTaskMutex`. -/
def currentTaskFirst : List (Op Lock) :=
  [.acquire .currentTask, .acquire .token, .release .token, .release .currentTask]

namespace LockCall

/-- The mutex operations of a call. -/
def program : LockCall → List (Op Lock)
  | listPending | listFinished | pendingDetails | finishedDetails | clearFinished | addTask =>
    tokenOnly
  | clearPending => tokenFirst
  | currentTask running => if running then currentTaskOnly else []
  | removeTask => tokenFirst
  | mainLoopInit row => if row then tokenFirst else tokenOnly
  | mainLoopFin exitCode => if exitCode then currentTaskFirst else currentTaskOnly

/-- The steps of `mainLoop`. -/
def ofWorker : LockCall → Bool
  | mainLoopInit _ | mainLoopFin _ => true
  | _ => false

end LockCall

/-- One worker, the thread 0, and any number of client threads. -/
def queueLocks : System Lock LockCall where
  program := LockCall.program
  may i c := c.ofWorker == (i == 0)

end SimpleTaskQueue
