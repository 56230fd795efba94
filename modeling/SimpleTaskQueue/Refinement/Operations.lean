import Mathlib.Data.Int.Order.Basic
import SimpleTaskQueue.Refinement.Statements
/-!
# SimpleTaskQueue.Refinement.Operations

Every operation of `SQLiteQueue` on a database that holds a ledger, for **every pattern of
failing SQLite calls**: which ledger the database holds afterwards, and what the operation
reports. These are the only facts later modules use about the operations.

A failed operation is blamed either on a failed call (`¬ c.Reliable`) or on the one
constraint the tables have, a key that is already present.
-/

namespace SimpleTaskQueue

open Sqlite Sqlite.Conn

variable {L : QueueLedger} {c : Conn TableName}

/-- The ledger without the waiting row of an ID. -/
abbrev dropID (L : QueueLedger) (id : Int) : QueueLedger := L.drop Row.ID id

/-! ### Statements run once -/

section Execute

variable {L' : QueueLedger}

/-- A statement that compiles and performs a ledger operation. -/
theorem execute_ledger (q : Sql TableName) (vals : List Value) (early late ok : ErrCode)
    (hdb : c.db = ledgerDB L) (hq : ¬ q.ReadOnly)
    (hcomp : q.compiles (ledgerDB L) = true)
    (heval : q.eval c.scan (params vals) (ledgerDB L) = some ([], ledgerDB L')) :
    let r := execute q vals early late ok c
    ((r.1 = early ∧ r.2.db = ledgerDB L ∧ ¬ c.Reliable) ∨
      (r.1 = late ∧ r.2.db = ledgerDB L ∧ c.faults.getD (vals.length + 1) false = true) ∨
      (r.1 = ok ∧ r.2.db = ledgerDB L')) ∧
    Finished (fun d => d = ledgerDB L ∨ d = r.2.db) c r.2 := by
  intro r
  obtain ⟨hres, hfin⟩ := execute_spec hq vals early late ok c
  rw [hdb] at hres hfin
  refine ⟨?_, hfin⟩
  rcases hres with ⟨h, hsame, hrel⟩ | ⟨h, hsame, -, hf⟩ | ⟨h, -, heval'⟩
  · exact .inl ⟨h, hsame, fun hc => by simp [hrel hc] at hcomp⟩
  · refine .inr (.inl ⟨h, hsame, ?_⟩)
    rcases hf with hf | hf
    · exact hf
    · simp [heval] at hf
  · rw [heval] at heval'
    simp only [Option.some.injEq, Prod.mk.injEq, true_and] at heval'
    exact .inr (.inr ⟨h, heval'.symm⟩)

end Execute

/-- `addTaskToTable` appends the row of the task, unless its ID is present. -/
theorem addTaskToTable_spec {name : TableName} {rows : List Row} {L' : QueueLedger} (t : Task)
    (hdb : c.db = ledgerDB L) (hrows : ledgerDB L name = some (taskTable rows))
    (hL' : Function.update (ledgerDB L) name (some (taskTable (rows ++ [Row.ofTask t]))) =
      ledgerDB L') :
    let r := addTaskToTable name t c
    ((r.1 = .OS_ERROR ∧ r.2.db = ledgerDB L ∧
        (c.Reliable → ¬ ((rows ++ [Row.ofTask t]).map Row.ID).Nodup)) ∨
      (r.1 = .OK ∧ r.2.db = ledgerDB L' ∧ ((rows ++ [Row.ofTask t]).map Row.ID).Nodup)) ∧
    Finished (fun d => d = ledgerDB L ∨ d = r.2.db) c r.2 := by
  intro r
  have heval := eval_insertTask c.scan hrows t
  rw [hL'] at heval
  have hcomp : (Sql.insert name [.param 1, .param 2, .param 3, .param 4, .param 5,
      .param 6]).compiles (ledgerDB L) = true := by
    simp only [Sql.compiles, hrows]; rfl
  have hro : ¬ (Sql.insert name [.param 1, .param 2, .param 3, .param 4, .param 5,
      .param 6]).ReadOnly := id
  obtain ⟨hres, hfin⟩ := execute_spec hro (taskValues t) ErrCode.OS_ERROR .OS_ERROR .OK c
  rw [hdb] at hres hfin
  refine ⟨?_, hfin⟩
  rw [heval] at hres
  rcases hres with ⟨h, hsame, hrel⟩ | ⟨h, hsame, -, hf⟩ | ⟨h, -, heval'⟩
  · exact .inl ⟨h, hsame, fun hc => by simp [hrel hc] at hcomp⟩
  · refine .inl ⟨h, hsame, fun hc hnd => ?_⟩
    rcases hf with hf | hf
    · exact not_reliable_of_getD hf hc
    · rw [if_pos hnd] at hf
      simp at hf
  · split at heval'
    · next hnd =>
      simp only [Option.some.injEq, Prod.mk.injEq, true_and] at heval'
      exact .inr ⟨h, heval'.symm, hnd⟩
    · simp at heval'

/-- `removeTaskFromPending` without the guard drops the row of the ID. Only a failing step,
the third failable call, is reported as `NOT_FOUND`. -/
theorem removeTaskFromPending_spec (hdb : c.db = ledgerDB L) (cur : Task) (id : Int) :
    let r := removeTaskFromPending cur id false c
    ((r.1 = .OS_ERROR ∧ r.2.db = ledgerDB L ∧ ¬ c.Reliable) ∨
      (r.1 = .NOT_FOUND ∧ r.2.db = ledgerDB L ∧ c.faults.getD 2 false = true) ∨
      (r.1 = .OK ∧ r.2.db = ledgerDB (dropID L (toInt32 id)))) ∧
    Finished (fun d => d = ledgerDB L ∨ d = r.2.db) c r.2 :=
  execute_ledger _ _ _ _ _ hdb (by simp [Sql.ReadOnly]) rfl
    (by rw [eval_deleteID c.scan (ledgerDB_pending L), update_pending]; rfl)

/-- `clearTable`, whatever it makes of the ledger. -/
theorem clearTable_spec {name : TableName} (hdb : c.db = ledgerDB L)
    (hcomp : (Sql.delete name none).compiles (ledgerDB L) = true)
    (heval : (Sql.delete name none).eval c.scan (params []) (ledgerDB L) = some ([], ledgerDB L')) :
    let r := clearTable name c
    ((r.1 = .OS_ERROR ∧ r.2.db = ledgerDB L ∧ ¬ c.Reliable) ∨
      (r.1 = .OK ∧ r.2.db = ledgerDB L')) ∧
    Finished (fun d => d = ledgerDB L ∨ d = r.2.db) c r.2 := by
  intro r
  obtain ⟨hres, hfin⟩ := execute_ledger (.delete name none) [] .OS_ERROR .OS_ERROR .OK hdb
    (by simp [Sql.ReadOnly]) hcomp heval
  refine ⟨?_, hfin⟩
  rcases hres with h | ⟨h, hsame, hf⟩ | h
  · exact .inl h
  · exact .inl ⟨h, hsame, not_reliable_of_getD hf⟩
  · exact .inr h

theorem clearPending_spec (hdb : c.db = ledgerDB L) :
    let r := clearPending c
    ((r.1 = .OS_ERROR ∧ r.2.db = ledgerDB L ∧ ¬ c.Reliable) ∨
      (r.1 = .OK ∧ r.2.db = ledgerDB L.clearPending)) ∧
    Finished (fun d => d = ledgerDB L ∨ d = r.2.db) c r.2 := by
  refine clearTable_spec hdb rfl ?_
  rw [eval_deleteAll c.scan (ledgerDB_pending L), update_pending]
  rfl

theorem clearFinished_spec (hdb : c.db = ledgerDB L) :
    let r := clearFinished c
    ((r.1 = .OS_ERROR ∧ r.2.db = ledgerDB L ∧ ¬ c.Reliable) ∨
      (r.1 = .OK ∧ r.2.db = ledgerDB L.clearDone)) ∧
    Finished (fun d => d = ledgerDB L ∨ d = r.2.db) c r.2 := by
  refine clearTable_spec hdb rfl ?_
  rw [eval_deleteAll c.scan (ledgerDB_done L), update_done]
  rfl

/-- `removeTask` refuses the ID of `m_currentTask` and otherwise drops the row. -/
theorem removeTask_spec (hdb : c.db = ledgerDB L) (hst : c.stmt = none) (cur : Task) (id : Int) :
    let r := removeTask cur id c
    ((r.1 ≠ .OK ∧ r.2.db = ledgerDB L ∧ (c.Reliable → r.1 = .INVALID_ARGUMENT ∧ id = cur.ID)) ∨
      (r.1 = .OK ∧ id ≠ cur.ID ∧ r.2.db = ledgerDB (dropID L (toInt32 id)))) ∧
    Finished (fun d => d = ledgerDB L ∨ d = r.2.db) c r.2 := by
  intro r
  by_cases hid : id = cur.ID
  · have hr : r = (.INVALID_ARGUMENT, c) := by
      show removeTaskFromPending cur id true c = _
      rw [removeTaskFromPending, if_pos ⟨rfl, hid⟩]
      rfl
    rw [hr]
    exact ⟨.inl ⟨by simp, hdb, fun _ => ⟨rfl, hid⟩⟩, Finished.refl _ hst⟩
  · have hr : r = removeTaskFromPending cur id false c := by
      show removeTaskFromPending cur id true c = _
      rw [removeTaskFromPending, if_neg (by simp [hid]), removeTaskFromPending,
        if_neg (by simp)]
    rw [hr]
    obtain ⟨hres, hfin⟩ := removeTaskFromPending_spec hdb cur id
    refine ⟨?_, hfin⟩
    rcases hres with ⟨h, hsame, hrel⟩ | ⟨h, hsame, hf⟩ | ⟨h, hd⟩
    · exact .inl ⟨by simp [h], hsame, fun hc => absurd hc hrel⟩
    · exact .inl ⟨by simp [h], hsame, fun hc => absurd hc (not_reliable_of_getD hf)⟩
    · exact .inr ⟨h, hid, hd⟩

/-- A query whose loop takes all rows, on a database that holds a ledger. -/
theorem query_ledger {τ : Type} {q : Sql TableName} {vals : List Value} {rows : List Record}
    (hdb : c.db = ledgerDB L) (hq : q.ReadOnly) (hcomp : q.compiles (ledgerDB L) = true)
    (heval : q.eval c.scan (params vals) (ledgerDB L) = some (rows, ledgerDB L))
    (f : τ → Record → τ) (s : τ) (e : ErrCode) :
    let r := query q vals (fun s row => (f s row, none)) s e c
    r.2.db = ledgerDB L ∧ Finished (· = ledgerDB L) c r.2 ∧
      ((∃ s', r.1 = (s', some e)) ∧ ¬ c.Reliable ∨ r.1 = (rows.foldl f s, none)) := by
  intro r
  obtain ⟨hfin, hsame, hres⟩ := query_total hq (by rw [hdb, hcomp]) (by rw [hdb, heval])
    (fun s row => (f s row, (none : Option ErrCode))) s e
  rw [foldRows_total] at hres
  rw [hdb] at hsame hfin
  exact ⟨hsame, hfin, hres⟩

/-! ### Handing out an ID and adding a task -/

/-- The value `lastID` gets after the ID `n` was handed out: `n + 1` as a 32-bit `int`. -/
def nextID (n : Int) : Int := toInt32 (n + 1)

/-- `getID` returns the stored value and moves the counter on, or fails and changes
nothing. -/
theorem getID_spec (hdb : c.db = ledgerDB L) (hn : IsInt32 L.next) (out : Int) :
    let r := getID out c
    ((r.1.1 ≠ .OK ∧ r.2.db = ledgerDB L ∧ ¬ c.Reliable) ∨
      (r.1 = (.OK, L.next) ∧ r.2.db = ledgerDB (L.skip (nextID L.next)))) ∧
    Finished (fun d => d = ledgerDB L ∨ d = r.2.db) c r.2 := by
  intro r
  have hrun : r = getID out c := rfl
  clear_value r
  have heval : (Sql.select TableName.lastID none none none).eval c.scan (params [])
      (ledgerDB L) = some ([[.int L.next]], ledgerDB L) := eval_selectLastID c.scan L
  obtain ⟨hsame, hfin, hres⟩ := query_ledger hdb (by trivial) rfl heval
    (fun (s : Int × Nat) row => (columnInt row 0, s.2 + 1)) (out, 0) .OS_ERROR
  simp only [getID, run_bind] at hrun
  revert hrun
  generalize query (N := TableName) _ _ _ _ _ c = q at hfin hsame hres
  intro hrun
  rcases hres with ⟨⟨s', hs'⟩, hrel⟩ | hfold
  · -- the read failed
    rw [hs'] at hrun
    subst hrun
    exact ⟨.inl ⟨by simp [run_pure], hsame, hrel⟩, hfin.mono fun d => Or.inl⟩
  · -- there is one row, and the update finds it
    have hread : q.1 = ((L.next, 1), none) := by
      rw [hfold]
      show ((toInt32 L.next, 1), none) = _
      rw [toInt32_of_isInt32 hn]
    rw [hread] at hrun
    simp only [run_bind, run_pure, ne_eq, not_true_eq_false, if_false,
      toInt32_of_isInt32 hn] at hrun
    obtain ⟨hupd, hfin'⟩ := execute_ledger
      (.update TableName.lastID "ID" (.param 1) ("ID", .param 2))
      [.int (toInt32 (L.next + 1)), .int L.next] .OS_ERROR .OS_ERROR .OK hsame
      (by simp [Sql.ReadOnly]) rfl (eval_updateLastID q.2.scan L (nextID L.next))
    have hfin'' := (hfin.mono (Q := fun d => d = ledgerDB L ∨ d = r.2.db) fun d => Or.inl).trans
      (by rw [hrun]; exact hfin')
    refine ⟨?_, by rw [hrun] at hfin'' ⊢; exact hfin''⟩
    rw [hrun]
    rcases hupd with ⟨h, hd, hrel⟩ | ⟨h, hd, hf⟩ | ⟨h, hd⟩
    · exact .inl ⟨by simp [h], hd, fun hc => hrel (hfin.reliable hc)⟩
    · exact .inl ⟨by simp [h], hd, fun hc => not_reliable_of_getD hf (hfin.reliable hc)⟩
    · exact .inr ⟨by simp [h], hd⟩

/-- The row `addTask` writes for a task when the counter stands at `n`. -/
def addedRow (t : Task) (n : Int) : Row := Row.ofTask { t with ID := n }

/-- **`addTask`**: the task gets the value of the counter as its ID and is appended, or it
is not added; then the counter may have moved on all the same. -/
theorem addTask_spec (hdb : c.db = ledgerDB L) (hn : IsInt32 L.next) (t : Task) :
    let r := addTask t c
    let row := addedRow t L.next
    ((r.1.1 ≠ .OK ∧ r.2.db = ledgerDB L ∧ ¬ c.Reliable) ∨
      (r.1.1 ≠ .OK ∧ r.2.db = ledgerDB (L.skip (nextID L.next)) ∧
        (c.Reliable → ¬ ((L.pending ++ [row]).map Row.ID).Nodup)) ∨
      (r.1 = (.OK, { t with ID := L.next }) ∧ r.2.db = ledgerDB (L.add row (nextID L.next)) ∧
        ((L.pending ++ [row]).map Row.ID).Nodup)) ∧
    Finished (fun d => d = ledgerDB L ∨ d = ledgerDB (L.skip (nextID L.next)) ∨
      d = r.2.db) c r.2 := by
  intro r row
  have hrun : r = addTask t c := rfl
  clear_value r
  obtain ⟨hid, hfin⟩ := getID_spec hdb hn t.ID
  simp only [addTask, run_bind] at hrun
  revert hrun
  generalize getID t.ID c = g at hid hfin
  intro hrun
  rcases hid with ⟨h, hd, hrel⟩ | ⟨h, hd⟩
  · rw [if_pos h] at hrun
    subst hrun
    exact ⟨.inl ⟨by simp [run_pure], hd, hrel⟩,
      hfin.mono fun d h => h.elim Or.inl fun h => .inr (.inr h)⟩
  · rw [h] at hrun
    simp only [ne_eq, not_true_eq_false, if_false, run_bind, run_pure] at hrun
    -- the counter has moved on, whatever becomes of the row
    obtain ⟨hins, hfin'⟩ := addTaskToTable_spec { t with ID := L.next } hd
      (ledgerDB_pending (L.skip (nextID L.next))) (update_pending (L.skip (nextID L.next)) _)
    have hP : Finished (fun d => d = ledgerDB L ∨ d = ledgerDB (L.skip (nextID L.next)) ∨
        d = r.2.db) c r.2 := by
      rw [hrun]
      refine (hfin.mono fun d h => ?_).trans (hfin'.mono fun d h => Or.inr h)
      exact h.imp_right fun h => .inl (h.trans hd)
    refine ⟨?_, hP⟩
    rw [hrun]
    rcases hins with ⟨h', hd', hrel⟩ | ⟨h', hd', hnd⟩
    · exact .inr (.inl ⟨by simp [h'], hd', fun hc => hrel (hfin.reliable hc)⟩)
    · exact .inr (.inr ⟨by simp [h'], hd', hnd⟩)

/-! ### Reading -/

/-- The loop of `listIDInTable`. -/
theorem foldl_ids (rows : List Row) (out : List Int) :
    (rows.map fun r => [Value.int r.ID]).foldl (fun out row => out ++ [columnInt row 0]) out =
      out ++ rows.map fun row => toInt32 row.ID := by
  induction rows generalizing out with
  | nil => simp
  | cons r rows ih =>
      rw [List.map_cons, List.foldl_cons, ih, List.map_cons, List.append_assoc]
      rfl

/-- `listIDInTable` changes nothing; an OK result lists the IDs of the table. -/
theorem listIDInTable_spec {name : TableName} {rows : List Row} (hdb : c.db = ledgerDB L)
    (hrows : ledgerDB L name = some (taskTable rows)) :
    let r := listIDInTable name c
    r.2.db = ledgerDB L ∧ Finished (· = ledgerDB L) c r.2 ∧ (c.Reliable → r.1.1 = .OK) ∧
      (r.1.1 = .OK → r.1.2.Perm (rows.map fun row => toInt32 row.ID)) := by
  intro r
  have hrun : r = listIDInTable name c := rfl
  clear_value r
  obtain ⟨found, hperm, heval⟩ := eval_selectIDs c.scan (p := params []) hrows
  have hcomp : (Sql.select name (some ["ID"]) none none).compiles (ledgerDB L) = true := by
    simp only [Sql.compiles, hrows]
    rfl
  obtain ⟨hsame, hfin, hres⟩ := query_ledger hdb (by trivial) hcomp heval
    (fun out row => out ++ [columnInt row 0]) [] .OS_ERROR
  simp only [listIDInTable, run_bind] at hrun
  revert hrun
  generalize query (N := TableName) _ _ _ _ _ c = q at hfin hsame hres
  intro hrun
  rcases hres with ⟨⟨s', hs'⟩, hrel⟩ | hfold
  · rw [hs'] at hrun
    subst hrun
    exact ⟨hsame, hfin, fun hc => absurd hc hrel, by simp [run_pure]⟩
  · rw [foldl_ids] at hfold
    rw [hfold] at hrun
    subst hrun
    exact ⟨hsame, hfin, fun _ => rfl, fun _ => hperm.map _⟩

/-- The loop of `taskDetails`: the last row wins, and the rows are counted. -/
theorem foldl_details (rows : List Row) (out : Task) (n : Nat) :
    (rows.map Row.record).foldl (fun (s : Task × Nat) row => (taskOfRecord row, s.2 + 1)) (out, n) =
      ((rows.getLast?.map Row.task).getD out, n + rows.length) := by
  induction rows generalizing out n with
  | nil => rfl
  | cons r rows ih =>
      rw [List.map_cons, List.foldl_cons, ih, Row.taskOfRecord_record, List.getLast?_cons,
        List.length_cons]
      have hlen : n + 1 + rows.length = n + (rows.length + 1) := by omega
      rw [hlen]
      cases rows.getLast? with
      | none => rfl
      | some r' => rfl

/-- **`taskDetails`** changes nothing; the task of an OK result is a row of the table with the
ID. Without failing calls the result says whether there is such a row. -/
theorem taskDetails_spec {name : TableName} {rows : List Row} (hdb : c.db = ledgerDB L)
    (hrows : ledgerDB L name = some (taskTable rows)) (id : Int) (out : Task) :
    let r := taskDetails name id out c
    r.2.db = ledgerDB L ∧ Finished (· = ledgerDB L) c r.2 ∧
      (r.1.1 = .OK → ∃ row ∈ rows, row.ID = toInt32 id ∧ r.1.2 = row.task) ∧
      (c.Reliable → r.1.1 = if ∃ row ∈ rows, row.ID = toInt32 id then .OK else .NOT_FOUND) := by
  intro r
  have hrun : r = taskDetails name id out c := rfl
  clear_value r
  obtain ⟨found, hperm, heval⟩ := eval_selectID c.scan hrows (toInt32 id)
  have hmem : ∀ row, row ∈ found ↔ row ∈ rows ∧ row.ID = toInt32 id := by
    intro row
    rw [hperm.mem_iff, List.mem_filter, decide_eq_true_eq]
  have hcomp : (Sql.select name none (some ("ID", .param 1)) none).compiles (ledgerDB L) =
      true := by
    simp only [Sql.compiles, hrows]
    rfl
  obtain ⟨hsame, hfin, hres⟩ := query_ledger hdb (by trivial) hcomp heval
    (fun (s : Task × Nat) row => (taskOfRecord row, s.2 + 1)) (out, 0) .OS_ERROR
  simp only [taskDetails, run_bind] at hrun
  revert hrun
  generalize query (N := TableName) _ _ _ _ _ c = q at hfin hsame hres
  intro hrun
  rcases hres with ⟨⟨s', hs'⟩, hrel⟩ | hfold
  · rw [hs'] at hrun
    subst hrun
    exact ⟨hsame, hfin, by simp [run_pure], fun hc => absurd hc hrel⟩
  · rw [foldl_details] at hfold
    rw [hfold] at hrun
    cases hlast : found.getLast? with
    | none =>
        -- no row was counted
        obtain rfl : found = [] := by simpa using hlast
        simp only [List.length_nil, Nat.add_zero, if_true, run_pure] at hrun
        subst hrun
        refine ⟨hsame, hfin, by simp, fun _ => (if_neg ?_).symm⟩
        intro hex
        obtain ⟨row, hrow, hid⟩ := hex
        simpa using (hmem row).mpr ⟨hrow, hid⟩
    | some row =>
        have hrow := (hmem row).mp (List.mem_of_getLast? hlast)
        have hpos : 0 + found.length ≠ 0 := by
          intro h0
          rw [Nat.zero_add, List.length_eq_zero_iff] at h0
          simp [h0] at hlast
        simp only [hlast, Option.map_some, Option.getD_some, if_neg hpos, run_pure] at hrun
        subst hrun
        exact ⟨hsame, hfin, fun _ => ⟨row, hrow.1, hrow.2, rfl⟩,
          fun _ => (if_pos ⟨row, hrow.1, hrow.2⟩).symm⟩

/-! ### The worker's two operations -/

/-- **`mainLoopInit`** changes nothing and picks a waiting row, the first one when the table
is scanned in rowid order. -/
theorem mainLoopInit_spec (hdb : c.db = ledgerDB L) :
    let r := mainLoopInit c
    r.2.db = ledgerDB L ∧ Finished (· = ledgerDB L) c r.2 ∧
      (∀ t, r.1 = .picked t → ∃ row ∈ L.pending, t = row.task ∧
        (c.scan = Scan.rowid → L.pending.head? = some row)) ∧
      (c.Reliable → (r.1 = .stopped ∧ L.pending = [] ∨ ∃ t, r.1 = .picked t)) := by
  intro r
  have hrun : r = mainLoopInit c := rfl
  clear_value r
  obtain ⟨found, hperm, hrowid, heval⟩ := eval_selectFirst c.scan
    (p := fun _ => .null) (ledgerDB_pending L)
  obtain ⟨hprep, hw⟩ := prepare_spec (.select TableName.pending none none (some 1)) c
  simp only [mainLoopInit, run_bind, run_ite, run_pure] at hrun
  rcases hprep with ⟨hp, hbad⟩ | ⟨hp, -, -, hst⟩
  · rw [if_pos hp] at hrun
    subst hrun
    refine ⟨hw.db.trans hdb, hdb ▸ close_finished hw, by simp, fun hc => ?_⟩
    rcases hbad with hbad | hbad
    · simp [hc.fails] at hbad
    · rw [hdb] at hbad
      exact absurd hbad (by simp [Sql.compiles, Table.hasCond])
  · rw [if_neg (by simp [hp])] at hrun
    have hpend : (prepare (.select TableName.pending none none (some 1)) c).2.Pending
        ((found.take 1).map Row.record) :=
      ⟨_, hst, .inr ⟨rfl, by rw [hw.scan, hw.db, hdb]; exact heval⟩⟩
    revert hrun hpend hw
    generalize (prepare (.select TableName.pending none none (some 1)) c).2 = c₁
    intro hw hrun hpend
    obtain ⟨hw', hstep⟩ := step_spec hpend
    have hfin := close_finished (hw.trans hw')
    have hsame := (hw'.db.trans hw.db).trans hdb
    rw [hdb] at hfin
    rcases hstep with ⟨hs, hf⟩ | ⟨-, ⟨h0, hs⟩ | ⟨rec, recs, h0, hs, -⟩⟩
    · rw [hs] at hrun
      subst hrun
      exact ⟨hsame, hfin, by simp [run_bind, run_pure],
        fun hc => absurd (hc.drop hw.faults) (not_reliable_of_fails hf)⟩
    · rw [hs] at hrun
      subst hrun
      refine ⟨hsame, hfin, by simp [run_bind, run_pure], fun _ => .inl ⟨rfl, ?_⟩⟩
      have : found = [] := by
        cases found with
        | nil => rfl
        | cons => simp at h0
      rw [this] at hperm
      exact List.nil_perm.mp hperm
    · rw [hs] at hrun
      subst hrun
      cases found with
      | nil => simp at h0
      | cons row found =>
          obtain ⟨rfl, -⟩ : row.record = rec ∧ _ := by simpa using h0
          refine ⟨hsame, hfin, ?_, fun _ => .inr ⟨_, rfl⟩⟩
          intro t ht
          have hrow : row ∈ L.pending := hperm.mem_iff.mp List.mem_cons_self
          refine ⟨row, hrow, ?_, fun hscan => ?_⟩
          · rw [← Row.taskOfRecord_record]
            exact (InitResult.picked.inj ht).symm
          · rw [← hrowid hscan]
            rfl

/-- The row `mainLoopFin` writes. -/
def finishedRow (cur : Task) (n : Int) : Row := Row.ofTask { cur with exitCode := n }

/-- The second half of `mainLoopFin`, on whatever the first half left. -/
theorem recordDone_spec (hdb : c.db = ledgerDB L) (t : Task) {r : FinResult × Conn TableName}
    (hr : r = (addTaskToTable .done t >>= fun code =>
      if code ≠ .OK then pure .notAdded else pure .moved : QueueM FinResult) c) :
    ((r.1 = .notAdded ∧ r.2.db = ledgerDB L ∧
        (c.Reliable → ¬ ((L.done ++ [Row.ofTask t]).map Row.ID).Nodup)) ∨
      (r.1 = .moved ∧ r.2.db = ledgerDB (L.finish (Row.ofTask t)) ∧
        ((L.done ++ [Row.ofTask t]).map Row.ID).Nodup)) ∧
    Finished (fun d => d = ledgerDB L ∨ d = r.2.db) c r.2 := by
  obtain ⟨hins, hfin⟩ := addTaskToTable_spec t hdb (ledgerDB_done L) (update_done L _)
  rw [run_bind] at hr
  rcases hins with ⟨h, hd, hrel⟩ | ⟨h, hd, hnd⟩
  · rw [h] at hr
    simp only [ne_eq, reduceCtorEq, not_false_eq_true, if_true, run_pure] at hr
    subst hr
    exact ⟨.inl ⟨rfl, hd, hrel⟩, hfin⟩
  · rw [h] at hr
    simp only [ne_eq, not_true_eq_false, if_false, run_pure] at hr
    subst hr
    exact ⟨.inr ⟨rfl, hd, hnd⟩, hfin⟩

/-- **`mainLoopFin`** for every pattern of failures. The row is moved; or it is copied only,
when the step of the `DELETE` (the third failable call) failed; or it is only removed; or
nothing happens. -/
theorem mainLoopFin_spec (hdb : c.db = ledgerDB L) (cur : Task) (n : Int) :
    let r := mainLoopFin cur (some n) c
    let row := finishedRow cur n
    let L₁ := dropID L (toInt32 cur.ID)
    ((r.1 = .notRemoved ∧ r.2.db = ledgerDB L ∧ ¬ c.Reliable) ∨
      (r.1 = .notAdded ∧ r.2.db = ledgerDB L ∧ c.faults.getD 2 false = true) ∨
      (r.1 = .moved ∧ r.2.db = ledgerDB (L.finish row) ∧ c.faults.getD 2 false = true ∧
        ((L.done ++ [row]).map Row.ID).Nodup) ∨
      (r.1 = .notAdded ∧ r.2.db = ledgerDB L₁ ∧
        (c.Reliable → ¬ ((L.done ++ [row]).map Row.ID).Nodup)) ∨
      (r.1 = .moved ∧ r.2.db = ledgerDB (L₁.finish row) ∧
        ((L.done ++ [row]).map Row.ID).Nodup)) ∧
    Finished (fun d => d = ledgerDB L ∨ d = ledgerDB L₁ ∨ d = r.2.db) c r.2 := by
  intro r row L₁
  have hrun : r = mainLoopFin cur (some n) c := rfl
  clear_value r
  obtain ⟨hdel, hfin⟩ := removeTaskFromPending_spec hdb cur cur.ID
  rw [mainLoopFin, run_bind] at hrun
  revert hrun
  generalize removeTaskFromPending cur cur.ID false c = d at hdel hfin
  intro hrun
  rcases hdel with ⟨h, hd, hrel⟩ | ⟨h, hd, hf⟩ | ⟨h, hd⟩
  · -- the delete did not start
    rw [h] at hrun
    simp only [reduceCtorEq, or_true, if_true, run_pure] at hrun
    subst hrun
    exact ⟨.inl ⟨rfl, hd, hrel⟩, hfin.mono fun d h => h.elim Or.inl fun h => .inr (.inr h)⟩
  · -- the step of the delete failed: the row is still there when it is added to `done`
    rw [h] at hrun
    simp only [reduceCtorEq, or_self, if_false] at hrun
    obtain ⟨hins, hfin'⟩ := recordDone_spec hd _ hrun
    refine ⟨?_, (hfin.mono ?_).trans (hfin'.mono fun d h => h.imp_right Or.inr)⟩
    · rcases hins with ⟨h', hd', -⟩ | ⟨h', hd', hnd⟩
      · exact .inr (.inl ⟨h', hd', hf⟩)
      · exact .inr (.inr (.inl ⟨h', hd', hf, hnd⟩))
    · exact fun d' h' => .inl (h'.elim id fun h' => h'.trans hd)
  · rw [h] at hrun
    simp only [reduceCtorEq, or_self, if_false] at hrun
    obtain ⟨hins, hfin'⟩ := recordDone_spec hd _ hrun
    refine ⟨?_, (hfin.mono ?_).trans (hfin'.mono fun d => Or.inr)⟩
    · rcases hins with ⟨h', hd', hrel⟩ | ⟨h', hd', hnd⟩
      · exact .inr (.inr (.inr (.inl ⟨h', hd', fun hc => hrel (hfin.reliable hc)⟩)))
      · exact .inr (.inr (.inr (.inr ⟨h', hd', hnd⟩)))
    · exact fun d' h' => h'.imp_right fun h' => .inl (h'.trans hd)

end SimpleTaskQueue
