import SimpleTaskQueue.Model.Dao.SQLiteQueueList
/-!
# SimpleTaskQueue.Model.Dao.SQLiteQueue.Life

A database file with the **queue objects** that have it open one after the other:
`SQLiteQueue::init` opens it for a new object, the object is called and its threads run, and the
process ends. What an object leaves behind is the content of its file.
-/

namespace SimpleTaskQueue

open Sqlite Runs

inductive QueueLife
  | closed (db : QueueDB)
  /-- The object that has the file open, or had it last. -/
  | opened (q : SQLiteQueue)

inductive QueueLifeAction
  /-- `SQLiteQueue::init` of a new object gets as far as `connectToDB`. -/
  | init (env : Env)
  | call (a : Action)
  /-- The process ends. -/
  | exit

namespace QueueLife

def content : QueueLife → QueueDB
  | closed db => db
  | opened q => q.mToken.db

/-- The content of the file has changed. -/
def load : QueueLife → QueueDB → QueueLife
  | closed _, db => closed db
  | opened q, db => opened (q.load db)

/-- **The machine.** -/
def step : Machine QueueLife QueueLifeAction Output
  | s, .init env =>
    let r := connectToDB true ((Conn.open s.content).given env)
    if r.1 = 0 then some (.code .OK, opened ⟨r.2, Task.blank, false, false, []⟩)
    else some (.code .OS_ERROR, s.load r.2.db)
  | opened q, .call a => (q.step a).map fun r => (r.1, opened r.2)
  | closed _, .call _ => none
  | s, .exit => some (.silent, closed s.content)

/-- The calls and the steps of threads in a history. -/
def calls (es : List (QueueLifeAction × Output)) : List (Action × Output) :=
  es.filterMap fun e => match e.1 with
    | .call a => some (a, e.2)
    | _ => none

end QueueLife

end SimpleTaskQueue
