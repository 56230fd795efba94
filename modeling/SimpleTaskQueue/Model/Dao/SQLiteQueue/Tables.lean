import SimpleTaskQueue.Core.SqliteRules
import SimpleTaskQueue.Model.Dao.SQLiteQueue.Args
/-!
# SimpleTaskQueue.Model.Dao.SQLiteQueue.Tables

The operations of `SQLiteQueue` on its database file (`model/dao/sqlitequeue.cpp`): the
private helpers, each one prepared statement, and the public calls on top of them, which
run under `m_token->mutex` from beginning to end.

Every helper of the source has the same shape: prepare, bind, step, `goto exit` on the
first error, finalize at `exit`. It is written here as `execute` or `query` with the
statement, the bound values and the error codes of that helper.
-/

namespace SimpleTaskQueue

open Sqlite

/-- The tables of a queue database. -/
inductive TableName
  | pending
  | done
  | lastID
  deriving Repr, DecidableEq

/-- The name of the table in the SQL texts. -/
def TableName.text : TableName → Str
  | pending => "pending".toList
  | done => "done".toList
  | lastID => "lastID".toList

abbrev QueueDB := Database TableName

abbrev QueueM := SqliteM TableName

/-! ### Reading columns -/

/-- A `std::string` built from `sqlite3_column_text`. -/
def columnText (r : Record) (i : Nat) : Str :=
  match r.getD i .null with
  | .text s => cstr s
  | .int n => (toString n).toList
  | .null => []

/-- `sqlite3_column_int`: the lower 32 bits. The columns read so never hold a text. -/
def columnInt (r : Record) (i : Nat) : Int :=
  match r.getD i .null with
  | .int n => toInt32 n
  | _ => 0

/-- The six column reads with which `taskDetails` and `mainLoopInit` fill a `Task`. -/
def taskOfRecord (r : Record) : Task where
  execName := columnText r 0
  args := splitString (columnText r 1)
  workDir := columnText r 2
  ID := columnInt r 3
  exitCode := columnInt r 4
  isSuccess := columnInt r 5 != 0

/-- The six values `addTaskToTable` binds. -/
def taskValues (t : Task) : List Value :=
  [.text t.execName, .text (concatString t.args), .text t.workDir, .int (toInt32 t.ID),
    .int (toInt32 t.exitCode), .int (if t.isSuccess then 1 else 0)]

/-! ### The helpers -/

/-- `SQLiteQueue::clearTable`. -/
def clearTable (name : TableName) : QueueM ErrCode :=
  execute (.delete name none) [] .OS_ERROR .OS_ERROR .OK

/-- `SQLiteQueue::listIDInTable`. -/
def listIDInTable (name : TableName) : QueueM (ErrCode × List Int) := do
  let r ← query (.select name (some ["ID"]) none none) []
    (fun out row => (out ++ [columnInt row 0], none)) [] .OS_ERROR
  pure (r.2.getD .OK, r.1)

/-- `SQLiteQueue::taskDetails`. -/
def taskDetails (name : TableName) (id : Int) (out : Task) : QueueM (ErrCode × Task) := do
  let r ← query (.select name none (some ("ID", .param 1)) none) [.int (toInt32 id)]
    (fun s row => ((taskOfRecord row, s.2 + 1), none)) (out, 0) .OS_ERROR
  match r.2 with
  | some e => pure (e, r.1.1)
  | none => if r.1.2 = 0 then pure (.NOT_FOUND, r.1.1) else pure (.OK, r.1.1)

/-- `SQLiteQueue::addTaskToTable`. -/
def addTaskToTable (name : TableName) (t : Task) : QueueM ErrCode :=
  execute (.insert name [.param 1, .param 2, .param 3, .param 4, .param 5, .param 6])
    (taskValues t) .OS_ERROR .OS_ERROR .OK

/-- `SQLiteQueue::removeTaskFromPending`; `currentTask` is `m_currentTask`, looked at only
under the flag. A failing step is reported as `NOT_FOUND`. -/
def removeTaskFromPending (currentTask : Task) (id : Int) (needCheckCurrentTask : Bool) :
    QueueM ErrCode :=
  if needCheckCurrentTask ∧ id = currentTask.ID then
    pure .INVALID_ARGUMENT
  else
    execute (.delete .pending (some ("ID", .param 1))) [.int (toInt32 id)]
      .OS_ERROR .NOT_FOUND .OK

/-- `SQLiteQueue::getID`: the code and the value left in `out`. -/
def getID (out : Int) : QueueM (ErrCode × Int) := do
  let r ← query (.select .lastID none none none) []
    (fun s row => ((columnInt row 0, s.2 + 1), none)) (out, 0) .OS_ERROR
  match r.2 with
  | some e => pure (e, r.1.1)
  | none =>
    if r.1.2 ≠ 1 then
      pure (.INVALID_ARGUMENT, r.1.1)
    else
      let rc ← execute (.update .lastID "ID" (.param 1) ("ID", .param 2))
        [.int (toInt32 (r.1.1 + 1)), .int (toInt32 r.1.1)] .OS_ERROR .OS_ERROR .OK
      pure (rc, r.1.1)

/-! ### The public calls -/

def listPending : QueueM (ErrCode × List Int) := listIDInTable .pending

def listFinished : QueueM (ErrCode × List Int) := listIDInTable .done

def pendingDetails (id : Int) (out : Task) : QueueM (ErrCode × Task) := taskDetails .pending id out

def finishedDetails (id : Int) (out : Task) : QueueM (ErrCode × Task) := taskDetails .done id out

def clearPending : QueueM ErrCode := clearTable .pending

def clearFinished : QueueM ErrCode := clearTable .done

/-- `SQLiteQueue::addTask`: the code, and `in` with the ID it was given. -/
def addTask (t : Task) : QueueM (ErrCode × Task) := do
  let r ← getID t.ID
  if r.1 ≠ .OK then
    pure (.OS_ERROR, { t with ID := r.2 })
  else
    let rc ← addTaskToTable .pending { t with ID := r.2 }
    pure (rc, { t with ID := r.2 })

/-- `SQLiteQueue::removeTask`. -/
def removeTask (currentTask : Task) (id : Int) : QueueM ErrCode :=
  removeTaskFromPending currentTask id true

/-! ### The worker's part -/

/-- What `mainLoopInit` found. -/
inductive InitResult
  /-- The statement could not be prepared: `m_start` and `m_isRunning` keep their values. -/
  | notPrepared
  /-- The first row of `pending`. -/
  | picked (t : Task)
  /-- `pending` is empty or the step failed: both flags are cleared. -/
  | stopped
  deriving Repr, DecidableEq

/-- The database part of `SQLiteQueue::mainLoopInit`: one step of
`SELECT * FROM pending limit 1;`. -/
def mainLoopInit : QueueM InitResult := do
  if ← prepare (.select .pending none none (some 1)) then
    close
    pure .notPrepared
  else
    match ← step with
    | .row r =>
      close
      pure (.picked (taskOfRecord r))
    | _ =>
      close
      pure .stopped

/-- How `mainLoopFin` ended. In every case `m_currentTask` is blank afterwards; `m_start` is
cleared in all of them but `moved`. -/
inductive FinResult
  | noExitCode
  | notRemoved
  | notAdded
  | moved
  deriving Repr, DecidableEq

/-- The database part of `SQLiteQueue::mainLoopFin`. `currentTask` is `m_currentTask`,
`exitCode` what `m_process->exitCode` returned (`none`: an error). -/
def mainLoopFin (currentTask : Task) (exitCode : Option Int) : QueueM FinResult :=
  match exitCode with
  | none => pure .noExitCode
  | some n => do
    let code ← removeTaskFromPending currentTask currentTask.ID false
    if code = .INVALID_ARGUMENT ∨ code = .OS_ERROR then
      pure .notRemoved
    else if (← addTaskToTable .done { currentTask with exitCode := n }) ≠ .OK then
      pure .notAdded
    else
      pure .moved

end SimpleTaskQueue
