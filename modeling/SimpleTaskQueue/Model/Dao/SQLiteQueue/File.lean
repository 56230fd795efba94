import SimpleTaskQueue.Model.Dao.SQLiteQueue.Queue
/-!
# SimpleTaskQueue.Model.Dao.SQLiteQueue.File

The **database file** of a queue over its whole life: `connectToDB` opens it, the operations of
`SQLiteQueue` use it, it is closed and opened again, by the same process or a later one.

* The operations come in any order. What they take from the members of the object
  (`m_currentTask`, the answer of `m_process->exitCode`) is an argument here, so that every run
  of a queue is a run of its file.
* The program may stop between any two SQLite calls, also of `connectToDB`. The file then has
  the content that the ghost log shows at that point.
-/

namespace SimpleTaskQueue

open Sqlite Runs

/-- The operations of `SQLiteQueue` on its file. -/
inductive Operation
  | listPending
  | listFinished
  | pendingDetails (id : Int) (out : Task)
  | finishedDetails (id : Int) (out : Task)
  | clearPending
  | clearFinished
  | addTask (t : Task)
  | removeTask (currentTask : Task) (id : Int)
  | mainLoopInit
  | mainLoopFin (currentTask : Task) (exitCode : Option Int)

namespace Operation

def run : Operation → QueueM Output
  | listPending => do
    let r ← SimpleTaskQueue.listPending
    pure (.ids r.1 r.2)
  | listFinished => do
    let r ← SimpleTaskQueue.listFinished
    pure (.ids r.1 r.2)
  | pendingDetails id out => do
    let r ← SimpleTaskQueue.pendingDetails id out
    pure (.task r.1 r.2)
  | finishedDetails id out => do
    let r ← SimpleTaskQueue.finishedDetails id out
    pure (.task r.1 r.2)
  | clearPending => do
    let rc ← SimpleTaskQueue.clearPending
    pure (.code rc)
  | clearFinished => do
    let rc ← SimpleTaskQueue.clearFinished
    pure (.code rc)
  | addTask t => do
    let r ← SimpleTaskQueue.addTask t
    pure (.task r.1 r.2)
  | removeTask currentTask id => do
    let rc ← SimpleTaskQueue.removeTask currentTask id
    pure (.code rc)
  | mainLoopInit => do
    let r ← SimpleTaskQueue.mainLoopInit
    pure (.inited r)
  | mainLoopFin currentTask exitCode => do
    let r ← SimpleTaskQueue.mainLoopFin currentTask exitCode
    pure (.finished currentTask r)

def isAddTask : Operation → Bool
  | addTask _ => true
  | _ => false

end Operation

inductive QueueFile
  | closed (db : QueueDB)
  /-- Open in a queue, with its `m_token`. -/
  | opened (token : Conn TableName)

inductive FileAction
  /-- `opens` says whether `sqlite3_open` succeeds. -/
  | connectToDB (env : Env) (opens : Bool)
  | call (env : Env) (op : Operation)
  /-- The queue is deleted, or its process ends between two operations. -/
  | close
  /-- The process ends after `n` SQLite calls of the operation. -/
  | die (env : Env) (op : Operation) (n : Nat)
  /-- The process ends after `n` SQLite calls of `connectToDB`. -/
  | dieOpening (env : Env) (n : Nat)

/-- The step runs `addTask`, perhaps not to its end. -/
def FileAction.isAddTask : FileAction → Bool
  | call _ op | die _ op _ => op.isAddTask
  | _ => false

inductive FileOutput
  | connected (rc : Nat)
  | returned (o : Output)
  | silent
  deriving Repr, DecidableEq

/-- The contents the file goes through during a computation, the present one first. -/
def contents {β : Type} (m : QueueM β) (c : Conn TableName) : List QueueDB :=
  c.db :: ((m { c with trace := [] }).2.trace.map Prod.snd).reverse

namespace QueueFile

def content : QueueFile → QueueDB
  | closed db => db
  | opened token => token.db

/-- **The machine.** -/
def step (f : QueueFile) (a : FileAction) : Option (FileOutput × QueueFile) :=
  match f, a with
  | closed db, .connectToDB env opens =>
    let r := SimpleTaskQueue.connectToDB opens ((Conn.open db).given env)
    some (.connected r.1, if r.1 = 0 then opened r.2 else closed r.2.db)
  | closed db, .dieOpening env n =>
    ((contents (SimpleTaskQueue.connectToDB true) ((Conn.open db).given env))[n]?).map
      fun db => (.silent, closed db)
  | opened token, .call env op =>
    let r := op.run (token.given env)
    some (.returned r.1, opened r.2)
  | opened token, .close => some (.silent, closed token.db)
  | opened token, .die env op n =>
    ((contents op.run (token.given env))[n]?).map fun db => (.silent, closed db)
  | _, _ => none

/-- A file that `connectToDB` has just created. -/
def Created (f : QueueFile) : Prop :=
  ∃ env, step (closed emptyDB) (.connectToDB env true) = some (.connected 0, f)

end QueueFile

end SimpleTaskQueue
