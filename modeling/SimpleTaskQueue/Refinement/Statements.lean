import Mathlib.Data.List.Perm.Basic
import SimpleTaskQueue.Core.Ledger
import SimpleTaskQueue.Model.Dao.SQLiteQueue.Schema
/-!
# SimpleTaskQueue.Refinement.Statements

The **abstract content** of a queue database is a `Ledger` of rows: the tables `pending`
and `done`, and the one value of `lastID`. `ledgerDB` is the database that holds it.

This module evaluates each SQL statement of `SQLiteQueue` on such a database: what it
delivers and which ledger operation it performs. The operations on top are in
`SimpleTaskQueue.Refinement.Operations`.
-/

namespace SimpleTaskQueue

open Sqlite

/-- A row of `pending` or `done`. -/
structure Row where
  execName : Str
  args : Str
  workDir : Str
  ID : Int
  exitCode : Int
  isSuccess : Bool
  deriving Repr, DecidableEq

namespace Row

def record (r : Row) : Record :=
  [.text r.execName, .text r.args, .text r.workDir, .int r.ID, .int r.exitCode,
    .int (if r.isSuccess then 1 else 0)]

/-- The row `addTaskToTable` writes for a task. -/
def ofTask (t : Task) : Row :=
  ⟨t.execName, concatString t.args, t.workDir, toInt32 t.ID, toInt32 t.exitCode, t.isSuccess⟩

/-- The task read back from a row. -/
def task (r : Row) : Task :=
  ⟨cstr r.execName, splitString (cstr r.args), cstr r.workDir, toInt32 r.ID, toInt32 r.exitCode,
    r.isSuccess⟩

theorem record_injective : Function.Injective record := by
  intro r r' h
  obtain ⟨e, a, w, i, n, b⟩ := r
  obtain ⟨e', a', w', i', n', b'⟩ := r'
  simp only [record, List.cons.injEq, Value.text.injEq, Value.int.injEq, and_true] at h
  obtain ⟨rfl, rfl, rfl, rfl, rfl, hb⟩ := h
  cases b <;> cases b' <;> simp_all

theorem taskOfRecord_record (r : Row) : taskOfRecord r.record = r.task := by
  have h : (toInt32 (if r.isSuccess then 1 else 0) != 0) = r.isSuccess := by
    cases r.isSuccess <;> decide
  show (⟨_, _, _, _, _, toInt32 (if r.isSuccess then 1 else 0) != 0⟩ : Task) = _
  rw [h]
  rfl

end Row

/-- The content of a queue database. -/
abbrev QueueLedger := Ledger Int Row

/-- A table `pending` or `done` with the given rows. -/
def taskTable (rows : List Row) : Table := ⟨taskColumns, rows.map Row.record⟩

/-- The table `lastID` with one value. -/
def lastIDTable (n : Int) : Table := ⟨lastIDColumns, [[.int n]]⟩

/-- The database that holds the ledger. -/
def ledgerDB (L : QueueLedger) : QueueDB
  | .pending => some (taskTable L.pending)
  | .done => some (taskTable L.done)
  | .lastID => some (lastIDTable L.next)

variable {L : QueueLedger} {rows : List Row} {r : Row}

@[simp] theorem ledgerDB_pending (L : QueueLedger) :
    ledgerDB L .pending = some (taskTable L.pending) := rfl

@[simp] theorem ledgerDB_done (L : QueueLedger) : ledgerDB L .done = some (taskTable L.done) := rfl

@[simp] theorem ledgerDB_lastID (L : QueueLedger) :
    ledgerDB L .lastID = some (lastIDTable L.next) := rfl

/-- The rows of a ledger can be read off its database. -/
theorem ledgerDB_injective : Function.Injective ledgerDB := by
  intro L L' h
  have hpending := congrFun h .pending
  have hdone := congrFun h .done
  have hnext := congrFun h .lastID
  simp only [ledgerDB, taskTable, lastIDTable, Option.some.injEq, Table.mk.injEq, true_and,
    List.cons.injEq, Value.int.injEq, and_true] at hpending hdone hnext
  obtain ⟨p, d, n⟩ := L
  obtain ⟨p', d', n'⟩ := L'
  obtain rfl := Row.record_injective.list_map hpending
  obtain rfl := Row.record_injective.list_map hdone
  obtain rfl : n = n' := hnext
  rfl

theorem update_pending (L : QueueLedger) (rows : List Row) :
    Function.update (ledgerDB L) .pending (some (taskTable rows)) =
      ledgerDB { L with pending := rows } := by
  funext t
  cases t <;> rfl

theorem update_done (L : QueueLedger) (rows : List Row) :
    Function.update (ledgerDB L) .done (some (taskTable rows)) =
      ledgerDB { L with done := rows } := by
  funext t
  cases t <;> rfl

theorem update_lastID (L : QueueLedger) (n : Int) :
    Function.update (ledgerDB L) .lastID (some (lastIDTable n)) = ledgerDB (L.skip n) := by
  funext t
  cases t <;> rfl

/-! ### Rows of a task table -/

theorem taskTable_matches (rows : List Row) (p : Nat → Value) (r : Row) (id : Int)
    (hp : p 1 = .int id) :
    (taskTable rows).matches p r.record (some ("ID", .param 1)) = decide (r.ID = id) := by
  have hcol : (taskTable rows).colIndex "ID" = some 3 := rfl
  simp only [Table.matches, hcol, Operand.value, hp]
  show ((Value.int r.ID != .null) && (Value.int r.ID == .int id)) = _
  by_cases h : r.ID = id <;> simp [h]

theorem taskTable_allows (rows rows' : List Row) :
    (taskTable rows).Allows (rows'.map Row.record) ↔ (rows'.map Row.ID).Nodup := by
  have hkeys : (taskTable rows).keys (rows'.map Row.record) =
      (rows'.map Row.ID).map Value.int := by
    show (rows'.map Row.record).map (fun r => r.getD 3 .null) = _
    rw [List.map_map, List.map_map]
    rfl
  have hnull : ∀ r ∈ rows'.map Row.record, (taskTable rows).notNullOk r = true := by
    intro r hr
    obtain ⟨row, -, rfl⟩ := List.mem_map.mp hr
    rfl
  rw [Table.Allows, hkeys, List.nodup_map_iff (fun a b => Value.int.inj)]
  exact and_iff_left hnull

/-! ### The statements -/

variable {db : QueueDB} {t : TableName} (scan : Scan) {p : Nat → Value}

theorem eval_insertTask (hdb : db t = some (taskTable rows)) (task : Task) :
    (Sql.insert t [.param 1, .param 2, .param 3, .param 4, .param 5, .param 6]).eval scan
        (params (taskValues task)) db =
      if ((rows ++ [Row.ofTask task]).map Row.ID).Nodup then
        some ([], Function.update db t (some (taskTable (rows ++ [Row.ofTask task]))))
      else none := by
  have hrow : (taskTable rows).rows ++ [[Operand.param 1, .param 2, .param 3, .param 4, .param 5,
      .param 6].map (Operand.value (params (taskValues task)))] =
      (rows ++ [Row.ofTask task]).map Row.record := by
    rw [List.map_append]
    rfl
  simp only [Sql.eval, hdb, hrow, taskTable_allows]
  rfl

theorem eval_deleteID (hdb : db t = some (taskTable rows)) (id : Int) :
    (Sql.delete t (some ("ID", .param 1))).eval scan (params [.int id]) db =
      some ([], Function.update db t (some (taskTable (rows.filter fun r => r.ID ≠ id)))) := by
  have hfilter : (taskTable rows).rows.filter (fun r =>
      !(taskTable rows).matches (params [.int id]) r (some ("ID", .param 1))) =
      (rows.filter fun r => r.ID ≠ id).map Row.record := by
    rw [taskTable, List.filter_map]
    congr 1
    refine List.filter_congr fun r _ => ?_
    have := taskTable_matches rows (params [.int id]) r id rfl
    simp only [Function.comp, taskTable] at this ⊢
    rw [this]
    by_cases h : r.ID = id <;> simp [h]
  simp only [Sql.eval, hdb, hfilter]
  rfl

theorem eval_deleteAll (hdb : db t = some (taskTable rows)) :
    (Sql.delete t none).eval scan p db =
      some ([], Function.update db t (some (taskTable []))) := by
  have hfilter : (taskTable rows).rows.filter (fun r =>
      !(taskTable rows).matches p r none) = [] :=
    List.filter_eq_nil_iff.mpr fun r _ => by simp [Table.matches]
  simp only [Sql.eval, hdb, hfilter]
  rfl

theorem eval_selectLastID (L : QueueLedger) :
    (Sql.select TableName.lastID none none none).eval scan p (ledgerDB L) =
      some ([[.int L.next]], ledgerDB L) := by
  have horder : scan.order [[.int L.next]] = [[.int L.next]] :=
    List.perm_singleton.mp (scan.perm _)
  simp only [Sql.eval, ledgerDB_lastID, lastIDTable, horder]
  rfl

theorem eval_updateLastID (L : QueueLedger) (n : Int) :
    (Sql.update TableName.lastID "ID" (.param 1) ("ID", .param 2)).eval scan
        (params [.int n, .int L.next]) (ledgerDB L) = some ([], ledgerDB (L.skip n)) := by
  have hset : (lastIDTable L.next).matches (params [.int n, .int L.next]) [.int L.next]
      (some ("ID", .param 2)) = true := by
    show ((Value.int L.next != .null) && (Value.int L.next == .int L.next)) = true
    simp
  have hallow : (lastIDTable L.next).Allows [[Value.int n]] :=
    ⟨List.nodup_singleton _, by simp; rfl⟩
  have hcol : (lastIDTable L.next).colIndex "ID" = some 0 := rfl
  have hrows : (lastIDTable L.next).rows = [[.int L.next]] := rfl
  have hval : (Operand.param 1).value (params [.int n, .int L.next]) = .int n := rfl
  simp only [Sql.eval, ledgerDB_lastID, hcol, hrows, List.map_cons, List.map_nil, hset, if_true,
    hval, List.set_cons_zero, if_pos hallow, ← update_lastID]
  rfl

/-- A scan of a task table delivers some rearrangement of its rows. -/
theorem scan_taskTable (scan : Scan) (rows : List Row) :
    ∃ found : List Row, found.Perm rows ∧ (scan = Scan.rowid → found = rows) ∧
      scan.order (rows.map Row.record) = found.map Row.record := by
  by_cases h : scan = Scan.rowid
  · exact ⟨rows, List.Perm.refl _, fun _ => rfl, by rw [h]; rfl⟩
  · have hperm := scan.perm (rows.map Row.record)
    obtain ⟨found, hfound, hp⟩ :=
      (congrFun₂ (List.eq_map_comp_perm Row.record) (scan.order (rows.map Row.record)) rows).mpr
        hperm
    exact ⟨found, hp, fun h' => absurd h' h, hfound⟩

theorem eval_selectID (hdb : db t = some (taskTable rows)) (id : Int) :
    ∃ found : List Row, found.Perm (rows.filter fun r => r.ID = id) ∧
      (Sql.select t none (some ("ID", .param 1)) none).eval scan (params [.int id]) db =
        some (found.map Row.record, db) := by
  obtain ⟨found, hperm, -, horder⟩ := scan_taskTable scan rows
  refine ⟨found.filter fun r => r.ID = id, hperm.filter _, ?_⟩
  have hfilter : (scan.order (taskTable rows).rows).filter (fun r =>
      (taskTable rows).matches (params [.int id]) r (some ("ID", .param 1))) =
      (found.filter fun r => r.ID = id).map Row.record := by
    show (scan.order (rows.map Row.record)).filter _ = _
    rw [horder, List.filter_map]
    congr 1
    exact List.filter_congr fun r _ => taskTable_matches rows _ r id rfl
  simp only [Sql.eval, hdb, hfilter]
  simp [Table.project]

theorem eval_selectIDs (hdb : db t = some (taskTable rows)) :
    ∃ found : List Row, found.Perm rows ∧
      (Sql.select t (some ["ID"]) none none).eval scan p db =
        some (found.map fun r => [.int r.ID], db) := by
  obtain ⟨found, hperm, -, horder⟩ := scan_taskTable scan rows
  refine ⟨found, hperm, ?_⟩
  have hall : (scan.order (taskTable rows).rows).filter (fun r =>
      (taskTable rows).matches p r none) = found.map Row.record := by
    show (scan.order (rows.map Row.record)).filter _ = _
    rw [horder]
    exact List.filter_eq_self.mpr fun r _ => rfl
  simp only [Sql.eval, hdb, hall, List.map_map]
  rfl

theorem eval_selectFirst (hdb : db t = some (taskTable rows)) :
    ∃ found : List Row, found.Perm rows ∧ (scan = Scan.rowid → found = rows) ∧
      (Sql.select t none none (some 1)).eval scan p db =
        some ((found.take 1).map Row.record, db) := by
  obtain ⟨found, hperm, hrowid, horder⟩ := scan_taskTable scan rows
  refine ⟨found, hperm, hrowid, ?_⟩
  have hfilter : (scan.order (taskTable rows).rows).filter (fun r =>
      (taskTable rows).matches p r none) = found.map Row.record := by
    show (scan.order (rows.map Row.record)).filter _ = _
    rw [horder]
    exact List.filter_eq_self.mpr fun r _ => rfl
  simp only [Sql.eval, hdb, hfilter]
  rw [List.map_take]
  simp [Table.project, Function.comp_def]

end SimpleTaskQueue
