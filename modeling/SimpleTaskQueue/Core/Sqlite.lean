import Mathlib.Logic.Function.Basic
import Mathlib.Data.List.Nodup
/-!
# SimpleTaskQueue.Core.Sqlite

A shallow model of the part of the **SQLite C interface** that a program with one
connection and one statement handle uses: `prepare`, `bind`, `step`, `finalize` over
a small SQL language (`Sql`) with its own denotation (`Sql.eval`).

* A database maps table names to tables; a table is its declared columns and its
  rows in rowid order. A new row goes behind the rows present.
* `PRIMARY KEY` and `NOT NULL` are checked by `insert` and `update`.
* Column names are compared exactly, and a column stores a value as it is given: that SQLite
  ignores the case of a name and converts a value to the type of its column is left out. It
  makes no difference for a table that is created and used with the same names, and whose
  columns get values of their types.
* The order in which a scan delivers the rows is a parameter of the connection
  (`Scan`): SQL promises none. `Scan.rowid` is the order of the rowids.
* Every failable call consumes one entry of `Conn.faults`; `true` makes it fail, and a
  failing call has no effect. An exhausted list means that the calls succeed.
* `Conn.trace` is a ghost log: every call with the durable content after it, newest
  first. The points at which a process can die between two calls are its entries.

`execute` and `query` are the two ways in which a prepared statement is used: run it
once for its effect, or fetch all rows. Their specifications are in
`SimpleTaskQueue.Core.SqliteRules`.
-/

namespace Sqlite

/-! ### Values, tables, databases -/

/-- A stored or bound value. -/
inductive Value
  | null
  | int (n : Int)
  | text (s : List Char)
  deriving Repr, DecidableEq

/-- A row, by column position. -/
abbrev Record := List Value

/-- A declared column: what `PRAGMA table_info` reports of it. -/
structure Column where
  name : String
  type : String
  notNull : Bool
  key : Bool
  deriving Repr, DecidableEq

structure Table where
  cols : List Column
  /-- In rowid order. -/
  rows : List Record
  deriving Repr, DecidableEq

/-- The tables of a database by name (`none`: no such table). -/
abbrev Database (N : Type) := N → Option Table

namespace Table

/-- The position of a column. -/
def colIndex (tb : Table) (name : String) : Option Nat :=
  tb.cols.findIdx? fun c => c.name == name

/-- The `PRIMARY KEY` values of the rows (none if the table has no key column). -/
def keys (tb : Table) (rows : List Record) : List Value :=
  match tb.cols.findIdx? (·.key) with
  | some i => rows.map fun r => r.getD i .null
  | none => []

/-- `NOT NULL` holds of a row. -/
def notNullOk (tb : Table) (r : Record) : Bool :=
  (tb.cols.zip r).all fun p => !p.1.notNull || p.2 != .null

/-- The constraints the table puts on its content. -/
def Allows (tb : Table) (rows : List Record) : Prop :=
  (tb.keys rows).Nodup ∧ ∀ r ∈ rows, tb.notNullOk r = true

instance (tb : Table) (rows : List Record) : Decidable (tb.Allows rows) :=
  inferInstanceAs (Decidable (_ ∧ _))

end Table

/-- The order in which a scan delivers rows: some rearrangement of them. -/
structure Scan where
  order : List Record → List Record
  perm : ∀ l, (order l).Perm l

/-- Scanning in rowid order. -/
def Scan.rowid : Scan := ⟨id, fun l => List.Perm.refl l⟩

/-! ### Statements -/

/-- An operand: a literal or the parameter `?i` (counted from 1). -/
inductive Operand
  | lit (v : Value)
  | param (i : Nat)
  deriving Repr, DecidableEq

/-- The statements, over table names `N`. A condition is `WHERE col = operand`. -/
inductive Sql (N : Type)
  /-- `create table t (cols)` -/
  | create (t : N) (cols : List Column)
  /-- `SELECT name FROM sqlite_master WHERE type='table' AND name=t` -/
  | master (t : N)
  /-- `PRAGMA table_info(t)`: one row per column, name at 1 and declared type at 2 -/
  | tableInfo (t : N)
  /-- `insert into t values(vals)` -/
  | insert (t : N) (vals : List Operand)
  /-- `SELECT cols FROM t WHERE cond LIMIT n` (`cols = none`: `*`) -/
  | select (t : N) (cols : Option (List String)) (cond : Option (String × Operand))
      (limit : Option Nat)
  /-- `DELETE FROM t WHERE cond` -/
  | delete (t : N) (cond : Option (String × Operand))
  /-- `update t set col=val WHERE cond` -/
  | update (t : N) (col : String) (val : Operand) (cond : String × Operand)

def Operand.value (p : Nat → Value) : Operand → Value
  | lit v => v
  | param i => p i

/-- Does the row satisfy the condition? `NULL` equals nothing. -/
def Table.matches (tb : Table) (p : Nat → Value) (r : Record) : Option (String × Operand) → Bool
  | none => true
  | some (col, x) =>
    match tb.colIndex col with
    | some i => r.getD i .null != .null && r.getD i .null == x.value p
    | none => false

/-- Every column the condition names exists. -/
def Table.hasCond (tb : Table) : Option (String × Operand) → Bool
  | none => true
  | some (col, _) => (tb.colIndex col).isSome

/-- The selected columns of a row. -/
def Table.project (tb : Table) (r : Record) : Option (List String) → Record
  | none => r
  | some cols => cols.map fun col =>
    match tb.colIndex col with
    | some i => r.getD i .null
    | none => .null

/-- One `PRAGMA table_info` row. -/
def Column.info (c : Column) : Record :=
  [.null, .text c.name.toList, .text c.type.toList]

namespace Sql

variable {N : Type} [DecidableEq N]

/-- What `sqlite3_prepare_v2` checks against the schema. -/
def compiles (db : Database N) : Sql N → Bool
  | create t _ => (db t).isNone
  | master _ => true
  | tableInfo _ => true
  | insert t vals => (db t).any fun tb => vals.length == tb.cols.length
  | select t cols cond _ => (db t).any fun tb =>
      (cols.getD []).all (fun col => (tb.colIndex col).isSome) && tb.hasCond cond
  | delete t cond => (db t).any fun tb => tb.hasCond cond
  | update t col _ cond => (db t).any fun tb => (tb.colIndex col).isSome && tb.hasCond (some cond)

/-- The meaning of a statement: the rows it delivers and the database after it, `none`
when a constraint rejects it (or the table is missing). -/
def eval (scan : Scan) (p : Nat → Value) (db : Database N) : Sql N →
    Option (List Record × Database N)
  | create t cols =>
    match db t with
    | none => some ([], Function.update db t (some ⟨cols, []⟩))
    | some _ => none
  | master t =>
    match db t with
    | none => some ([], db)
    | some _ => some ([[.null]], db)
  | tableInfo t =>
    match db t with
    | none => some ([], db)
    | some tb => some (tb.cols.map Column.info, db)
  | insert t vals =>
    match db t with
    | none => none
    | some tb =>
      let rows := tb.rows ++ [vals.map (Operand.value p)]
      if tb.Allows rows then some ([], Function.update db t (some { tb with rows := rows }))
      else none
  | select t cols cond limit =>
    match db t with
    | none => none
    | some tb =>
      let found := (scan.order tb.rows).filter fun r => tb.matches p r cond
      let taken := match limit with
        | none => found
        | some n => found.take n
      some (taken.map fun r => tb.project r cols, db)
  | delete t cond =>
    match db t with
    | none => none
    | some tb =>
      some ([], Function.update db t
        (some { tb with rows := tb.rows.filter fun r => !tb.matches p r cond }))
  | update t col val cond =>
    match db t with
    | none => none
    | some tb =>
      let set := fun r => match tb.colIndex col with
        | some i => if tb.matches p r (some cond) then r.set i (val.value p) else r
        | none => r
      if tb.Allows (tb.rows.map set) then
        some ([], Function.update db t (some { tb with rows := tb.rows.map set }))
      else none

/-- Statements that never change the database. -/
def ReadOnly : Sql N → Prop
  | master _ | tableInfo _ | select .. => True
  | _ => False

/-- A query that compiles is never rejected. -/
theorem eval_of_compiles {q : Sql N} (hq : q.ReadOnly) {db : Database N}
    (hc : q.compiles db = true) (scan : Scan) (p : Nat → Value) :
    ∃ rows, q.eval scan p db = some (rows, db) := by
  cases q with
  | master t | tableInfo t =>
      simp only [eval]
      split <;> exact ⟨_, rfl⟩
  | select t cols cond limit =>
      cases hdb : db t with
      | none => simp [compiles, hdb] at hc
      | some tb => simp only [eval, hdb]; exact ⟨_, rfl⟩
  | create | insert | delete | update => exact absurd hq (by simp [ReadOnly])

/-- A statement run for its effect delivers no rows. -/
theorem eval_effect {q : Sql N} (hq : ¬ q.ReadOnly) {scan : Scan} {p : Nat → Value}
    {db db' : Database N} {rows : List Record} (h : q.eval scan p db = some (rows, db')) :
    rows = [] := by
  cases q with
  | master | tableInfo | select => exact absurd trivial hq
  | create t cols | delete t cond | insert t vals | update t col val cond =>
      simp only [eval] at h
      split at h <;> simp_all

end Sql

/-! ### The connection -/

/-- A prepared statement: its serial number, its text, the bound parameters, and the rows
still to be delivered (`none` until the first step). -/
structure Stmt (N : Type) where
  id : Nat
  sql : Sql N
  params : Nat → Value
  cursor : Option (List Record)

/-- The calls of the interface, as the ghost log records them. -/
inductive ApiCall
  | prepare (id : Option Nat)
  | bind
  | step
  | finalize (id : Option Nat)
  deriving Repr, DecidableEq

/-- A connection with the one statement handle the program keeps (`none`: null). -/
structure Conn (N : Type) where
  db : Database N
  stmt : Option (Stmt N)
  scan : Scan
  faults : List Bool
  /-- The number of statements prepared so far. -/
  prepared : Nat
  trace : List (ApiCall × Database N)

/-- A freshly opened connection on a given content. -/
def Conn.open {N : Type} (db : Database N) : Conn N := ⟨db, none, Scan.rowid, [], 0, []⟩

/-- What the library decides in the next use of the connection: which calls fail, and in
which order scans deliver. -/
structure Env where
  faults : List Bool
  scan : Scan

/-- No call fails, and rows come in rowid order. -/
def Env.rowid : Env := ⟨[], Scan.rowid⟩

/-- No call fails. -/
def Env.Reliable (env : Env) : Prop := ∀ b ∈ env.faults, b = false

/-- The connection in a given environment. -/
def Conn.given {N : Type} (c : Conn N) (env : Env) : Conn N :=
  { c with faults := env.faults, scan := env.scan }

/-- Computations on a connection. -/
abbrev SqliteM (N : Type) := StateM (Conn N)

/-- What `sqlite3_step` reports. -/
inductive StepResult
  | row (r : Record)
  | done
  | error
  deriving Repr, DecidableEq

variable {N : Type} [DecidableEq N] {ε τ : Type}

namespace Conn

/-- Does the next failable call fail? -/
def fails (c : Conn N) : Bool := c.faults.headD false

/-- Consume the answer to a failable call and log it. -/
def after (c : Conn N) (call : ApiCall) : Conn N :=
  { c with faults := c.faults.tail, trace := (call, c.db) :: c.trace }

/-- No call on this connection will fail. -/
def Reliable (c : Conn N) : Prop := ∀ b ∈ c.faults, b = false

/-- The number of rows the current statement has still to deliver. -/
def rowsLeft (c : Conn N) : Nat :=
  match c.stmt with
  | none => 0
  | some st =>
    match st.cursor with
    | some rows => rows.length
    | none => ((st.sql.eval c.scan st.params c.db).map fun r => r.1.length).getD 0

end Conn

/-- `sqlite3_prepare_v2`: `true` is an error, and then the handle is null. -/
def prepare (q : Sql N) : SqliteM N Bool := fun c =>
  if c.fails || !q.compiles c.db then
    (true, { c with stmt := none }.after (.prepare none))
  else
    (false, { c with stmt := some ⟨c.prepared, q, fun _ => .null, none⟩,
                     prepared := c.prepared + 1 }.after (.prepare (some c.prepared)))

/-- `sqlite3_bind_*`: `true` is an error. -/
def bind (i : Nat) (v : Value) : SqliteM N Bool := fun c =>
  match c.stmt with
  | none => (true, c.after .bind)
  | some st =>
    if c.fails then (true, c.after .bind)
    else (false, { c with stmt := some { st with params := Function.update st.params i v } }.after
      .bind)

/-- `sqlite3_step`. The first step of a statement evaluates it; its effect is durable at
once. -/
def step : SqliteM N StepResult := fun c =>
  match c.stmt with
  | none => (.error, c.after .step)
  | some st =>
    if c.fails then (.error, c.after .step)
    else
      match st.cursor with
      | some [] => (.done, c.after .step)
      | some (r :: rows) =>
        (.row r, { c with stmt := some { st with cursor := some rows } }.after .step)
      | none =>
        match st.sql.eval c.scan st.params c.db with
        | none => (.error, c.after .step)
        | some ([], db) =>
          (.done, { c with db := db, stmt := some { st with cursor := some [] } }.after .step)
        | some (r :: rows, db) =>
          (.row r, { c with db := db, stmt := some { st with cursor := some rows } }.after .step)

/-- `sqlite3_finalize` on the handle (harmless on null), which is then set to null. -/
def close : SqliteM N Unit := fun c =>
  ((), { c with stmt := none, trace := (.finalize (c.stmt.map (·.id)), c.db) :: c.trace })

/-- Bind the values to the parameters from `i` on; stop at the first error. -/
def bindAll : Nat → List Value → SqliteM N Bool
  | _, [] => pure false
  | i, v :: vs => do
    if ← bind i v then
      pure true
    else
      bindAll (i + 1) vs

/-- Run a statement once for its effect: `early` if it cannot be prepared or bound, `late`
if the step is not `SQLITE_DONE`. The statement is finalized on every path. -/
def execute (q : Sql N) (vals : List Value) (early late ok : ε) : SqliteM N ε := do
  if ← prepare q then
    close
    pure early
  else if ← bindAll 1 vals then
    close
    pure early
  else
    match ← step with
    | .done =>
      close
      pure ok
    | _ =>
      close
      pure late

/-- The loop over the rows of a statement: `f` folds a row into the result and may stop the
loop. The first argument bounds the rounds. -/
def fetch (f : τ → Record → τ × Option ε) (onError : ε) : Nat → τ → SqliteM N (τ × Option ε)
  | 0, s => pure (s, some onError)
  | n + 1, s => do
    match ← step with
    | .row r =>
      match f s r with
      | (s', none) => fetch f onError n s'
      | (s', some e) => pure (s', some e)
    | .done => pure (s, none)
    | .error => pure (s, some onError)

/-- Run a statement and fold all its rows. The second component is the error, if any: that
of a failed call, or the one `f` stopped with. One round more than there are rows reaches
`SQLITE_DONE`. The statement is finalized on every path. -/
def query (q : Sql N) (vals : List Value) (f : τ → Record → τ × Option ε) (s : τ) (onError : ε) :
    SqliteM N (τ × Option ε) := do
  if ← prepare q then
    close
    pure (s, some onError)
  else if ← bindAll 1 vals then
    close
    pure (s, some onError)
  else
    let r ← fetch f onError ((← get).rowsLeft + 1) s
    close
    pure r

end Sqlite
