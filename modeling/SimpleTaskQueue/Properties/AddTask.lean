import SimpleTaskQueue.Core.SqliteHandles
import SimpleTaskQueue.Refinement.Operations
/-!
# SimpleTaskQueue.Properties.AddTask

**What a failing `addTask` leaves behind.** `getID` moves the counter on in a statement of its own,
before the row is inserted. So after a failure the counter has moved or not; the tables of the
tasks are as they were, the handle is null, and no statement was leaked, whatever is in the tables
and whichever calls fail.
-/

namespace SimpleTaskQueue

open Sqlite Sqlite.Conn

variable {c : Conn TableName} {col : Column} {v : Int} {db db' : QueueDB}

/-! ### The statements -/

theorem tidy_getID (out : Int) : Tidy (getID out) := by
  refine (tidy_query _ _ _ _ _).bind fun r => ?_
  split
  · exact tidy_pure _
  · split
    · exact tidy_pure _
    · exact (tidy_execute _ _ _ _ _).bind fun _ => tidy_pure _

theorem tidy_addTask (t : Task) : Tidy (addTask t) := by
  refine (tidy_getID t.ID).bind fun r => ?_
  split
  · exact tidy_pure _
  · exact (tidy_execute _ _ _ _ _).bind fun _ => tidy_pure _

/-- A `lastID` with one column and one row. -/
def counterTable (col : Column) (v : Int) : Table := ⟨[col], [[.int v]]⟩

theorem counterTable_allows (col : Column) (v n : Int) :
    (counterTable col v).Allows [[.int n]] := by
  refine ⟨?_, by simp [counterTable, Table.notNullOk]⟩
  unfold Table.keys
  split
  · exact List.nodup_singleton _
  · exact List.nodup_nil

/-- Reading the counter. -/
theorem eval_selectCounter (scan : Scan) {p : Nat → Value}
    (hid : db .lastID = some (counterTable col v)) :
    (Sql.select TableName.lastID none none none).eval scan p db = some ([[.int v]], db) := by
  have horder : scan.order [[.int v]] = [[.int v]] := List.perm_singleton.mp (scan.perm _)
  simp only [Sql.eval, hid, counterTable, horder]
  rfl

/-- Writing it, if the column has the right name. -/
theorem eval_updateCounter (scan : Scan) (hid : db .lastID = some (counterTable col v)) (n : Int)
    (hcomp : (Sql.update TableName.lastID "ID" (.param 1) ("ID", .param 2)).compiles db = true) :
    (Sql.update TableName.lastID "ID" (.param 1) ("ID", .param 2)).eval scan
        (params [.int n, .int v]) db =
      some ([], Function.update db .lastID (some (counterTable col n))) := by
  have hcol : (counterTable col v).colIndex "ID" = some 0 := by
    simp only [Sql.compiles, hid, Option.any_some, Bool.and_eq_true] at hcomp
    obtain ⟨i, hi⟩ := Option.isSome_iff_exists.mp hcomp.1
    have hlt := (List.findIdx?_eq_some_iff_getElem.mp hi).1
    rw [hi]
    simp only [counterTable, List.length_singleton, Nat.lt_one_iff] at hlt
    rw [hlt]
  have hset : (counterTable col v).matches (params [.int n, .int v]) [.int v]
      (some ("ID", .param 2)) = true := by
    simp only [Table.matches, hcol]
    show ((Value.int v != .null) && (Value.int v == .int v)) = true
    simp
  have hrows : (counterTable col v).rows = [[.int v]] := rfl
  have hval : (Operand.param 1).value (params [.int n, .int v]) = .int n := rfl
  simp only [Sql.eval, hid, hcol, hrows, List.map_cons, List.map_nil, hset, if_true, hval,
    List.set_cons_zero, if_pos (counterTable_allows col v n)]
  rfl

/-- `getID` returns the counter and moves it on, or fails and changes nothing. -/
theorem getID_counter (hid : c.db .lastID = some (counterTable col v)) (hv : IsInt32 v)
    (out : Int) :
    let r := getID out c
    r.2.stmt = none ∧ (r.1.1 ≠ .OK ∧ r.2.db = c.db ∨
      r.1 = (.OK, v) ∧
        r.2.db = Function.update c.db .lastID (some (counterTable col (nextID v)))) := by
  intro r
  have hrun : r = getID out c := rfl
  clear_value r
  obtain ⟨hfin, hsame, hres⟩ := query_spec (q := .select TableName.lastID none none none)
    (by trivial) []
    (fun (s : Int × Nat) row => ((columnInt row 0, s.2 + 1), (none : Option ErrCode)))
    (out, 0) .OS_ERROR c
  simp only [getID, run_bind] at hrun
  revert hrun
  generalize query (N := TableName) _ _ _ _ _ c = q at hfin hsame hres
  intro hrun
  rcases hres with ⟨⟨s', hs'⟩, -⟩ | ⟨rows, heval, hfold⟩
  · -- the read failed
    rw [hs'] at hrun
    subst hrun
    exact ⟨hfin.stmt, .inl ⟨by simp [run_pure], hsame⟩⟩
  · -- there is one row; the update decides
    rw [eval_selectCounter c.scan hid] at heval
    obtain rfl := (Prod.mk.inj (Option.some.inj heval)).1
    have hread : q.1 = ((v, 1), none) := by
      rw [hfold]
      show ((toInt32 v, 1), none) = _
      rw [toInt32_of_isInt32 hv]
    rw [hread] at hrun
    simp only [run_bind, run_pure, ne_eq, not_true_eq_false, if_false,
      toInt32_of_isInt32 hv] at hrun
    obtain ⟨hupd, hfin'⟩ := execute_spec
      (q := .update TableName.lastID "ID" (.param 1) ("ID", .param 2)) (by simp [Sql.ReadOnly])
      [.int (toInt32 (v + 1)), .int v] ErrCode.OS_ERROR .OS_ERROR .OK q.2
    rw [hsame] at hupd
    rw [hrun]
    refine ⟨hfin'.stmt, ?_⟩
    rcases hupd with ⟨h, hd, -⟩ | ⟨h, hd, -⟩ | ⟨h, hcomp, hd⟩
    · exact .inl ⟨by simp [h], hd⟩
    · exact .inl ⟨by simp [h], hd⟩
    · rw [eval_updateCounter q.2.scan hid _ hcomp] at hd
      exact .inr ⟨by simp [h], (Prod.mk.inj (Option.some.inj hd)).2.symm⟩

/-- An `insert` that is not rejected puts the row behind the others. -/
theorem eval_insert_inv {name : TableName} {vals : List Operand} {scan : Scan} {p : Nat → Value}
    {rows : List Record} (h : (Sql.insert name vals).eval scan p db = some (rows, db')) :
    ∃ tb, db name = some tb ∧ db' = Function.update db name
      (some { tb with rows := tb.rows ++ [vals.map (Operand.value p)] }) := by
  cases htb : db name with
  | none => simp [Sql.eval, htb] at h
  | some tb =>
      simp only [Sql.eval, htb, Option.ite_none_right_eq_some, Option.some.injEq,
        Prod.mk.injEq] at h
      exact ⟨tb, rfl, h.2.2.symm⟩

/-! ### `addTask` -/

/-- The columns of a task, with `exitCode` as it is given here. -/
def taskRecord (t : Task) (id exitCode : Int) : Record :=
  [.text t.execName, .text (concatString t.args), .text t.workDir, .int id, .int exitCode,
    .int (if t.isSuccess then 1 else 0)]

/-- `addTaskToTable` puts the row behind the others, or changes nothing. -/
theorem addTaskToTable_adds_or_keeps (name : TableName) (t : Task) (c : Conn TableName) :
    let r := addTaskToTable name t c
    r.2.stmt = none ∧ (r.1 ≠ .OK ∧ r.2.db = c.db ∨
      r.1 = .OK ∧ ∃ tb, c.db name = some tb ∧ r.2.db = Function.update c.db name (some
        { tb with rows := tb.rows ++ [taskRecord t (toInt32 t.ID) (toInt32 t.exitCode)] })) := by
  intro r
  obtain ⟨hins, hfin⟩ := execute_spec (q := .insert name
    [.param 1, .param 2, .param 3, .param 4, .param 5, .param 6]) (by simp [Sql.ReadOnly])
    (taskValues t) ErrCode.OS_ERROR .OS_ERROR .OK c
  refine ⟨hfin.stmt, ?_⟩
  rcases hins with ⟨h, hdb, -⟩ | ⟨h, hdb, -⟩ | ⟨h, -, heval⟩
  · exact .inl ⟨by rw [show r.1 = .OS_ERROR from h]; decide, hdb⟩
  · exact .inl ⟨by rw [show r.1 = .OS_ERROR from h]; decide, hdb⟩
  · obtain ⟨tb, htb, hdb⟩ := eval_insert_inv heval
    exact .inr ⟨h, tb, htb, hdb⟩

/-- What `addTask` should do with the counter at `v`: add the row, or leave the tables alone. -/
structure AddsOrKeeps (col : Column) (v : Int) (row : Record) (c c' : Conn TableName)
    (rc : ErrCode) : Prop where
  failed : rc ≠ .OK → c'.db .pending = c.db .pending ∧ c'.db .done = c.db .done ∧
    ∃ n, (n = v ∨ n = v + 1) ∧ c'.db .lastID = some (counterTable col n)
  added : rc = .OK →
    (∃ tb, c.db .pending = some tb ∧
      c'.db .pending = some { tb with rows := tb.rows ++ [row] }) ∧
    c'.db .done = c.db .done ∧ c'.db .lastID = some (counterTable col (v + 1))
  stmt : c'.stmt = none
  /-- Each statement was prepared once, and finalized once. -/
  handles : ∃ new, c'.trace = new ++ c.trace ∧ (preparedIds new).Nodup ∧
    finalizedIds new = preparedIds new

/-- Behind a counter that has moved on, the insertion decides. -/
theorem AddsOrKeeps.of_insert {g c' : Conn TableName} {rc : ErrCode} {row : Record}
    (hothers : ∀ name ≠ .lastID, g.db name = c.db name)
    (hcounter : g.db .lastID = some (counterTable col (v + 1)))
    (hins : rc ≠ .OK ∧ c'.db = g.db ∨ rc = .OK ∧ ∃ tb, g.db .pending = some tb ∧
      c'.db = Function.update g.db .pending (some { tb with rows := tb.rows ++ [row] }))
    (hst : c'.stmt = none)
    (hhandles : ∃ new, c'.trace = new ++ c.trace ∧ (preparedIds new).Nodup ∧
      finalizedIds new = preparedIds new) : AddsOrKeeps col v row c c' rc := by
  rcases hins with ⟨hrc, hsame⟩ | ⟨hrc, tb, htb, hadd⟩
  · -- the counter has moved on all the same
    refine ⟨fun _ => ⟨?_, ?_, v + 1, .inr rfl, ?_⟩, fun hok => absurd hok hrc, hst, hhandles⟩
    · exact (congrFun hsame .pending).trans (hothers .pending (by decide))
    · exact (congrFun hsame .done).trans (hothers .done (by decide))
    · exact (congrFun hsame .lastID).trans hcounter
  · refine ⟨fun hno => absurd hrc hno, fun _ => ⟨⟨tb, ?_, ?_⟩, ?_, ?_⟩, hst, hhandles⟩
    · rw [← hothers .pending (by decide), htb]
    · rw [hadd, Function.update_self]
    · rw [hadd, Function.update_of_ne (by decide)]
      exact hothers .done (by decide)
    · rw [hadd, Function.update_of_ne (by decide)]
      exact hcounter

/-- **`addTask` adds the task or leaves the tables intact**, whatever they hold and whichever calls
fail; the exit code is cut to 32 bits. -/
theorem addTask_adds_or_keeps (hid : c.db .lastID = some (counterTable col v))
    (hv : -2 ^ 31 ≤ v ∧ v < 2 ^ 31 - 1) (t : Task) :
    AddsOrKeeps col v (taskRecord t v (toInt32 t.exitCode)) c (addTask t c).2
      (addTask t c).1.1 := by
  have hint : IsInt32 v := ⟨hv.1, by omega⟩
  have hnext : nextID v = v + 1 := toInt32_of_isInt32 ⟨by omega, by omega⟩
  obtain ⟨n, htidy⟩ := tidy_addTask t c
  have hhandles := htidy.once
  obtain ⟨hst, hget⟩ := getID_counter hid hint t.ID
  generalize hrun : addTask t c = r at hhandles ⊢
  simp only [addTask, run_bind] at hrun
  revert hrun
  generalize getID t.ID c = g at hst hget
  intro hrun
  rcases hget with ⟨h, hdb⟩ | ⟨h, hdb⟩
  · have hfailed : ErrCode.OS_ERROR ≠ .OK := by decide
    rw [if_pos h] at hrun
    subst hrun
    refine ⟨fun _ => ⟨congrFun hdb .pending, congrFun hdb .done, v, .inl rfl, ?_⟩,
      fun hok => absurd hok hfailed, hst, hhandles⟩
    exact (congrFun hdb .lastID).trans hid
  · rw [h] at hrun
    simp only [ne_eq, not_true_eq_false, if_false, run_bind, run_pure] at hrun
    obtain ⟨hst', hins⟩ := addTaskToTable_adds_or_keeps .pending { t with ID := v } g.2
    simp only [toInt32_of_isInt32 hint] at hins
    subst hrun
    refine .of_insert (fun name hname => ?_) ?_ hins hst' hhandles
    · rw [hdb, Function.update_of_ne hname]
    · rw [hdb, Function.update_self, hnext]

/-- The column of `lastID`, as `verifyID` creates it. -/
def idColumn : Column := ⟨"ID", "INT", true, true⟩

theorem addTask_adds_or_keeps_first :
    AddsOrKeeps idColumn 0 (taskRecord listing 0 (toInt32 listing.exitCode)) (Conn.open freshDB)
      (addTask listing (Conn.open freshDB)).2 (addTask listing (Conn.open freshDB)).1.1 :=
  addTask_adds_or_keeps rfl (by decide) listing

/-- A file whose counter is below the range of an `int`. -/
def lowCounter : Conn TableName := Conn.open (ledgerDB ⟨[], [], -2 ^ 31 - 1⟩)

/-- A task whose exit code is above that range. -/
def wideTask : Task := { listing with exitCode := 2 ^ 32 }

theorem wideTask_stored :
    ((addTask wideTask (Conn.open freshDB)).2.db .pending).map (fun tb => tb.rows.getLast?) =
      some (some (taskRecord wideTask 0 0)) := by
  decide +kernel

/-- **Values that do not fit an `int`**: the counter stays where it was, and the exit code is not
the one of the task. -/
theorem addTask_cuts :
    ¬ AddsOrKeeps idColumn (-2 ^ 31 - 1) (taskRecord listing (-2 ^ 31 - 1) listing.exitCode)
        lowCounter (addTask listing lowCounter).2 (addTask listing lowCounter).1.1 ∧
      ¬ AddsOrKeeps idColumn 0 (taskRecord wideTask 0 wideTask.exitCode) (Conn.open freshDB)
        (addTask wideTask (Conn.open freshDB)).2 (addTask wideTask (Conn.open freshDB)).1.1 := by
  refine ⟨fun h => ?_, fun h => ?_⟩
  · exact absurd (h.added (by decide +kernel)).2.2 (by decide +kernel)
  · obtain ⟨⟨tb, -, hrow⟩, -⟩ := h.added (by decide +kernel)
    have hlast := wideTask_stored
    rw [hrow, Option.map_some, List.getLast?_concat] at hlast
    exact absurd hlast (by decide)

end SimpleTaskQueue
