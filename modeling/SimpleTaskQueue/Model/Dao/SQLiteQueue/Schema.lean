import SimpleTaskQueue.Model.Dao.SQLiteQueue.Tables
/-!
# SimpleTaskQueue.Model.Dao.SQLiteQueue.Schema

Opening a queue database (`model/dao/sqlitequeue.cpp`): `connectToDB` checks the three
tables one after the other, and creates the ones that are missing on the way. The checks
return 0 (the table was there and is accepted), 2 (it was created) or 1 (an error), and
`connectToDB` accepts the file when the three agree.

The declared types are written the way `PRAGMA table_info` reports them, `TEXT` and `INT`
for the `text` and `INT` of the `create table` texts.
-/

namespace SimpleTaskQueue

open Sqlite

/-- The columns of `pending` and `done` in the text of `createTable`. -/
def taskColumns : List Column :=
  [⟨"execName", "TEXT", true, false⟩, ⟨"args", "TEXT", true, false⟩,
    ⟨"workDir", "TEXT", true, false⟩, ⟨"ID", "INT", true, true⟩,
    ⟨"exitCode", "INT", true, false⟩, ⟨"isSuccess", "INT", true, false⟩]

/-- The column of `lastID` in the text of `verifyID`. -/
def lastIDColumns : List Column := [⟨"ID", "INT", true, true⟩]

/-- The map `dbColumnName` read with `operator[]`: unknown names get the empty string. -/
def dbColumnName (colName : Str) : Str :=
  if colName = "execName".toList then "TEXT".toList
  else if colName = "args".toList then "TEXT".toList
  else if colName = "workDir".toList then "TEXT".toList
  else if colName = "ID".toList then "INT".toList
  else if colName = "exitCode".toList then "INT".toList
  else if colName = "isSuccess".toList then "INT".toList
  else []

/-- `SQLiteQueue::createTable`. -/
def createTable (name : TableName) : QueueM Nat :=
  execute (.create name taskColumns) [] 1 1 2

/-- `SQLiteQueue::verifyTable`. -/
def verifyTable (name : TableName) : QueueM Nat := do
  let r ← query (.master name) [.text name.text] (fun n _ => (n + 1, none)) 0 1
  match r.2 with
  | some e => pure e
  | none =>
    if r.1 = 0 then
      createTable name
    else if r.1 > 1 then
      pure 1
    else
      let r ← query (.tableInfo name) []
        (fun n row =>
          if dbColumnName (columnText row 1) ≠ columnText row 2 then (n, some 1)
          else (n + 1, none)) 0 1
      match r.2 with
      | some e => pure e
      | none => if r.1 ≠ 6 then pure 1 else pure 0

/-- `SQLiteQueue::verifyID`. When the step that creates `lastID` fails the function goes on;
the insert then decides. -/
def verifyID : QueueM Nat := do
  let r ← query (.master .lastID) [] (fun n _ => (n + 1, none)) 0 1
  match r.2 with
  | some e => pure e
  | none =>
    if r.1 = 0 then
      let stop ← execute (.create .lastID lastIDColumns) [] true false false
      if stop then
        pure 1
      else
        execute (.insert .lastID [.lit (.int 0)]) [] 1 1 2
    else if r.1 > 1 then
      pure 1
    else
      let r ← query (.tableInfo .lastID) []
        (fun n row =>
          if columnText row 1 ≠ "ID".toList then (n, some 1)
          else if columnText row 2 ≠ "INT".toList then (n, some 1)
          else (n + 1, none)) 0 1
      match r.2 with
      | some e => pure e
      | none =>
        if r.1 ≠ 1 then
          pure 1
        else
          let r ← query (.select .lastID none none none) [] (fun n _ => (n + 1, none)) 0 1
          match r.2 with
          | some e => pure e
          | none => if r.1 ≠ 1 then pure 1 else pure 0

/-- `SQLiteQueue::connectToDB`; `opens` says whether `sqlite3_open` succeeds. The second and
third error branch test `rcPending`, as in the source. -/
def connectToDB (opens : Bool) : QueueM Nat := do
  if !opens then
    pure 1
  else
    let rcPending ← verifyTable .pending
    if rcPending = 1 then
      pure 1
    else
      let rcDone ← verifyTable .done
      if rcPending = 1 then
        pure 1
      else
        let rcID ← verifyID
        if rcPending = 1 then
          pure 1
        else if rcPending ≠ rcDone ∨ rcPending ≠ rcID ∨ rcDone ≠ rcID then
          pure 1
        else
          pure 0

/-- The content of a database file that was just created. -/
def emptyDB : QueueDB := fun _ => none

/-- `m_token` after `connectToDB` on a new file, all calls succeeding. -/
def newToken : Conn TableName := (connectToDB true (Conn.open emptyDB)).2

/-- The tables `connectToDB` creates. -/
def freshDB : QueueDB
  | .pending => some ⟨taskColumns, []⟩
  | .done => some ⟨taskColumns, []⟩
  | .lastID => some ⟨lastIDColumns, [[.int 0]]⟩

end SimpleTaskQueue
