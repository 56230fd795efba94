import SimpleTaskQueue.Core.SqliteCounts
import SimpleTaskQueue.Refinement.Opening
/-!
# SimpleTaskQueue.Refinement.OpeningCalls

**What an opening leaves behind**, depending on which of its SQLite calls fail. The checks create
a missing table on the way; whether they do is decided by the calls counted here.
-/

namespace SimpleTaskQueue

open Sqlite Sqlite.Conn

variable {db : QueueDB} {c : Conn TableName} {name : TableName}

/-! ### Tables that are there -/

/-- `verifyTable` only looks at a table that is there. -/
theorem keeps_verifyTable {name : TableName} (hname : (db name).isSome = true) :
    Keeps (· = db) (verifyTable name) := by
  obtain ⟨tb, htb⟩ := Option.isSome_iff_exists.mp hname
  refine (keeps_query (by trivial) _ _ _).bind fun c _ => ?_
  split
  · exact keeps_pure _
  · split
    · -- the `create` would be rejected
      refine keeps_execute (by simp [Sql.ReadOnly]) _ _ _ fun scan db₁ db₂ h he => ?_
      subst h
      simp [Sql.eval, htb] at he
    · split
      · exact keeps_pure _
      · refine (keeps_query (by trivial) _ _ _).bind fun _ _ => ?_
        split
        · exact keeps_pure _
        · split <;> exact keeps_pure _

/-- `verifyID` only looks at `lastID` if it is there. -/
theorem keeps_verifyID (hname : (db .lastID).isSome = true) : Keeps (· = db) verifyID := by
  refine (keeps_query (by trivial) _ _ _).bind fun c hc => ?_
  -- the query of `sqlite_master` fails or finds the table
  obtain ⟨-, -, hres⟩ := queryMaster_spec .lastID [] c
  have hfound : ∀ k, query (.master TableName.lastID) [] (fun k _ => (k + 1, none)) 0 (1 : Nat) c =
      k → k.1.2 = none → k.1.1 ≠ 0 := by
    rintro k rfl hnone hzero
    rcases hres with ⟨h, -⟩ | ⟨-, h⟩ | ⟨h, -⟩
    · rw [h] at hnone
      cases hnone
    · rw [hc, ← Option.not_isSome_iff_eq_none] at h
      exact h hname
    · rw [h] at hzero
      cases hzero
  have hne := hfound _ rfl
  split
  · exact keeps_pure _
  · next hnone =>
    rw [if_neg (hne hnone)]
    split
    · exact keeps_pure _
    · refine (keeps_query (by trivial) _ _ _).bind fun _ _ => ?_
      split
      · exact keeps_pure _
      · split
        · exact keeps_pure _
        · refine (keeps_query (by trivial) _ _ _).bind fun _ _ => ?_
          split
          · exact keeps_pure _
          · split <;> exact keeps_pure _

/-- `connectToDB` only looks at a file in which all three tables are present. -/
theorem keeps_connectToDB (hdb : ∀ name, (db name).isSome = true) (opens : Bool) :
    Keeps (· = db) (connectToDB opens) := by
  unfold connectToDB
  split
  · exact keeps_pure _
  · refine (keeps_verifyTable (hdb .pending)).bind fun _ _ => ?_
    split
    · exact keeps_pure _
    · refine (keeps_verifyTable (hdb .done)).bind fun _ _ => ?_
      refine (keeps_verifyID (hdb .lastID)).bind fun _ _ => ?_
      split <;> exact keeps_pure _

/-! ### `verifyTable` -/

/-- What `verifyTable` says if no call fails. -/
def verdict : Option Table → Nat
  | none => 2
  | some tb => if TaskTable tb then 0 else 1

theorem verdict_eq_two {o : Option Table} : verdict o = 2 ↔ o = none := by
  cases o with
  | none => simp [verdict]
  | some tb => by_cases h : TaskTable tb <;> simp [verdict, h]

theorem verdict_eq_one {o : Option Table} : verdict o = 1 ↔ ∃ tb, o = some tb ∧ ¬ TaskTable tb := by
  cases o with
  | none => simp [verdict]
  | some tb => by_cases h : TaskTable tb <;> simp [verdict, h]

/-- A column with the type that `verifyTable` expects. -/
def GoodColumn (col : Column) : Prop :=
  dbColumnName (cstr col.name.toList) = cstr col.type.toList

instance (col : Column) : Decidable (GoodColumn col) := inferInstanceAs (Decidable (_ = _))

/-- The calls `verifyTable` makes if none fails. -/
def verifyCalls : Option Table → Nat
  | none => 5
  | some tb => 6 + (tb.cols.takeWhile GoodColumn).length

theorem verifyCalls_taskTable {tb : Table} (h : TaskTable tb) : verifyCalls (some tb) = 12 := by
  have hall : tb.cols.takeWhile GoodColumn = tb.cols :=
    List.takeWhile_eq_self_iff.mpr fun col hcol => decide_eq_true (h.2 col hcol)
  rw [verifyCalls, hall, h.1]

/-- The database with the table `name`, if it was missing. -/
def withTable (name : TableName) (db : QueueDB) : QueueDB :=
  if db name = none then Function.update db name (some ⟨taskColumns, []⟩) else db

/-- The query of `sqlite_master`. -/
theorem counted_queryMaster (name : TableName) (vals : List Value) (c : Conn TableName) :
    Counted c (vals.length + (c.db name).isSome.toNat + 2)
      (fun r => r.1 = ((c.db name).isSome.toNat, none) ∧ r.2.db = c.db)
      (fun r => r.1.2 = some 1 ∧ r.2.db = c.db)
      (query (.master name) vals (fun n _ => (n + 1, none)) 0 (1 : Nat) c) := by
  have hdb := (queryMaster_spec name vals c).2.1
  have heval : (Sql.master name).eval c.scan (params vals) c.db =
      some (List.replicate (c.db name).isSome.toNat [.null], c.db) := by
    cases htb : c.db name <;> simp [Sql.eval, htb]
  have hquery := counted_query (by rfl) heval (fun n _ => (n + 1, (none : Option Nat))) 0 1
  rw [rounds_total, foldRows_total, List.length_replicate,
    show ∀ k, 1 + (vals.length + (k + 1)) = vals.length + k + 2 by omega] at hquery
  exact hquery.mono (fun h => ⟨by simpa using h, hdb⟩) fun h => ⟨h, hdb⟩

/-- Creating a table that is not there. -/
theorem counted_create {ε : Type} (cols : List Column) (early late ok : ε)
    (hnone : c.db name = none) :
    Counted c 2 (fun r => r.1 = ok ∧ r.2.db = Function.update c.db name (some ⟨cols, []⟩))
      (fun r => (r.1 = early ∨ r.1 = late) ∧ r.2.db = c.db)
      (execute (.create name cols) [] early late ok c) := by
  have heval : (Sql.create name cols).eval c.scan (params []) c.db =
      some ([], Function.update c.db name (some ⟨cols, []⟩)) := by
    simp only [Sql.eval, hnone]
  exact counted_execute (by simp [Sql.compiles, hnone]) heval early late ok

/-- The loop over `PRAGMA table_info` that stops at the first column without a property. -/
theorem counted_queryTableInfo {tb : Table} (htb : c.db name = some tb) {p : Record → Prop}
    [DecidablePred p] {f : Nat → Record → Nat × Option Nat}
    (hyes : ∀ n r, p r → f n r = (n + 1, none)) (hno : ∀ n r, ¬ p r → f n r = (n, some 1)) :
    Counted c (2 + (tb.cols.takeWhile fun col => p col.info).length)
      (fun r => ((∀ col ∈ tb.cols, p col.info) ∧ r.1 = (tb.cols.length, none) ∨
        ¬ (∀ col ∈ tb.cols, p col.info) ∧ r.1.2 = some 1) ∧ r.2.db = c.db)
      (fun r => r.1.2 = some 1 ∧ r.2.db = c.db)
      (query (.tableInfo name) [] f 0 (1 : Nat) c) := by
  have hdb := (queryTableInfo_spec htb hyes hno).2.1
  have heval : (Sql.tableInfo name).eval c.scan (params []) c.db =
      some (tb.cols.map Column.info, c.db) := by
    simp [Sql.eval, htb]
  have hquery := counted_query (by rfl) heval f 0 1
  have hgood : ((tb.cols.map Column.info).takeWhile fun row => decide (p row)).length =
      (tb.cols.takeWhile fun col => p col.info).length := by
    rw [List.takeWhile_map, List.length_map]
    rfl
  rw [rounds_check hyes hno, hgood, List.length_nil,
    show ∀ k, 1 + (0 + (k + 1)) = 2 + k by omega] at hquery
  refine hquery.mono (fun h => ⟨?_, hdb⟩) fun h => ⟨h, hdb⟩
  rw [h]
  rcases foldRows_check hyes hno (tb.cols.map Column.info) 0 with ⟨hall, hf⟩ | ⟨hnot, hf⟩
  · rw [List.forall_mem_map] at hall
    rw [hf, List.length_map, Nat.zero_add]
    exact .inl ⟨hall, rfl⟩
  · rw [List.forall_mem_map] at hnot
    exact .inr ⟨hnot, hf⟩

/-- The loop in `verifyTable`. -/
theorem counted_tableInfo {tb : Table} (htb : c.db name = some tb) :
    Counted c (2 + (tb.cols.takeWhile GoodColumn).length)
      (fun r => ((∀ col ∈ tb.cols, GoodColumn col) ∧ r.1 = (tb.cols.length, none) ∨
        ¬ (∀ col ∈ tb.cols, GoodColumn col) ∧ r.1.2 = some 1) ∧ r.2.db = c.db)
      (fun r => r.1.2 = some 1 ∧ r.2.db = c.db)
      (query (.tableInfo name) [] (fun n row =>
        if dbColumnName (columnText row 1) ≠ columnText row 2 then (n, some 1)
        else (n + 1, none)) 0 (1 : Nat) c) :=
  counted_queryTableInfo htb (p := fun row => dbColumnName (columnText row 1) = columnText row 2)
    (fun _ _ hp => if_neg (not_not.mpr hp)) fun _ _ hp => if_pos hp

/-- What `verifyTable` makes of it. -/
theorem tableInfo_verdict {tb : Table} {r : (Nat × Option Nat) × Conn TableName}
    (h : (∀ col ∈ tb.cols, GoodColumn col) ∧ r.1 = (tb.cols.length, none) ∨
      ¬ (∀ col ∈ tb.cols, GoodColumn col) ∧ r.1.2 = some 1) :
    (match r.1.2 with
      | some e => pure e
      | none => if r.1.1 ≠ 6 then pure 1 else pure 0 : QueueM Nat) r.2 =
      (verdict (some tb), r.2) := by
  rcases h with ⟨hall, hr⟩ | ⟨hnot, hr⟩
  · simp only [hr, run_ite, run_pure]
    by_cases hlen : tb.cols.length = 6
    · rw [if_neg (not_not.mpr hlen), verdict, if_pos ⟨hlen, hall⟩]
    · rw [if_pos hlen, verdict, if_neg fun h => hlen h.1]
  · simp only [hr, run_pure]
    rw [verdict, if_neg fun h => hnot h.2]

/-- **`verifyTable`**: what it says and creates if no call fails. Otherwise it says 1. -/
theorem counted_verifyTable (name : TableName) (c : Conn TableName) :
    Counted c (verifyCalls (c.db name))
      (fun r => r.1 = verdict (c.db name) ∧ r.2.db = withTable name c.db)
      (fun r => r.1 = 1 ∧ r.2.db = c.db) (verifyTable name c) := by
  have hmaster := counted_queryMaster name [.text name.text] c
  cases htb : c.db name with
  | none =>
      rw [htb] at hmaster
      refine hmaster.bind (k := 2) (fun r ⟨hr, hdb⟩ => ?_) fun r ⟨hr, hdb⟩ => ?_
      · -- the table is missing
        have hnone : r.2.db name = none := hdb ▸ htb
        rw [hr]
        refine (counted_create taskColumns 1 1 2 hnone).mono (fun h => ⟨h.1, ?_⟩) fun h =>
          ⟨h.1.elim id id, h.2.trans hdb⟩
        rw [h.2, hdb, withTable, if_pos htb]
      · simp only [hr]
        exact ⟨⟨rfl, hdb⟩, rfl⟩
  | some tb =>
      rw [htb] at hmaster
      have hwith : withTable name c.db = c.db := if_neg (by simp [htb])
      rw [show verifyCalls (some tb) =
        1 + 1 + 2 + (2 + (tb.cols.takeWhile GoodColumn).length + 0) by simp [verifyCalls]; omega]
      refine hmaster.bind (fun r ⟨hr, hdb⟩ => ?_) fun r ⟨hr, hdb⟩ => ?_
      · -- the table is there
        rw [hr]
        refine (counted_tableInfo (hdb ▸ htb)).bind (fun r' ⟨hres, hdb'⟩ => ?_)
          fun r' ⟨hr', hdb'⟩ => ?_
        · refine (congrArg (Counted r'.2 0 _ _) (tableInfo_verdict hres)).mpr ?_
          exact counted_zero ⟨rfl, (hdb'.trans hdb).trans hwith.symm⟩ rfl
        · simp only [hr']
          exact ⟨⟨rfl, hdb'.trans hdb⟩, rfl⟩
      · simp only [hr]
        exact ⟨⟨rfl, hdb⟩, rfl⟩

/-! ### `verifyID` -/

/-- `lastID` as `verifyID` creates it, with the default value or still without. -/
def withID (rows : List Record) (db : QueueDB) : QueueDB :=
  Function.update db .lastID (some ⟨lastIDColumns, rows⟩)

theorem counted_insertZero (h : c.db .lastID = some ⟨lastIDColumns, []⟩) :
    Counted c 2 (fun r => r.1 = 2 ∧ r.2.db = withID [[.int 0]] c.db)
      (fun r => r.1 = 1 ∧ r.2.db = c.db)
      (execute (.insert .lastID [.lit (.int 0)]) [] (1 : Nat) 1 2 c) := by
  have hallows : (⟨lastIDColumns, []⟩ : Table).Allows [[.int 0]] := by decide
  have heval : (Sql.insert TableName.lastID [.lit (.int 0)]).eval c.scan (params []) c.db =
      some ([], withID [[.int 0]] c.db) := by
    simp only [Sql.eval, h, List.map_cons, List.map_nil, Operand.value, List.nil_append]
    rw [if_pos hallows]
    rfl
  have hcomp : (Sql.insert TableName.lastID [.lit (.int 0)]).compiles c.db = true := by
    simp only [Sql.compiles, h]
    rfl
  exact (counted_execute hcomp heval 1 1 2).mono id fun h => ⟨h.1.elim id id, h.2⟩

/-- The branch of `verifyID` for a missing table: two calls create it, two more fill it. -/
theorem createID_calls (hnone : c.db .lastID = none) {r : Nat × Conn TableName}
    (hrun : r = (do
      let stop ← execute (.create .lastID lastIDColumns) [] true false false
      if stop then pure 1 else execute (.insert .lastID [.lit (.int 0)]) [] 1 1 2 : QueueM Nat) c) :
    ¬ Lasts 2 c.faults ∧ r.1 = 1 ∧ r.2.db = c.db ∨
      Lasts 2 c.faults ∧ ¬ Lasts 2 (rest 2 c.faults) ∧ r.1 = 1 ∧ r.2.db = withID [] c.db ∨
      Lasts 2 c.faults ∧ Lasts 2 (rest 2 c.faults) ∧ r.1 = 2 ∧
        r.2.db = withID [[.int 0]] c.db := by
  rw [run_bind] at hrun
  have hcreate := counted_create lastIDColumns true false false hnone
  revert hrun
  generalize execute (N := TableName) _ _ true false false c = q at hcreate
  intro hrun
  by_cases h₂ : Lasts 2 c.faults
  · obtain ⟨hq, hdb⟩ := hcreate.ok h₂
    simp only [hq, Bool.false_eq_true, if_false] at hrun
    have hinsert := counted_insertZero (c := q.2) (by rw [hdb, Function.update_self])
    have hfaults : q.2.faults = rest 2 c.faults := hcreate.faults
    rw [hrun]
    by_cases h₂' : Lasts 2 (rest 2 c.faults)
    · obtain ⟨h2, hd⟩ := hinsert.ok (hfaults ▸ h₂')
      refine .inr (.inr ⟨h₂, h₂', h2, ?_⟩)
      -- the table with its row replaces the empty one
      rw [hd, hdb, withID, withID, Function.update_idem]
    · obtain ⟨h1, hd⟩ := hinsert.err (hfaults ▸ h₂')
      exact .inr (.inl ⟨h₂, h₂', h1, hd.trans hdb⟩)
  · obtain ⟨hq, hdb⟩ := hcreate.err h₂
    refine .inl ⟨h₂, ?_⟩
    rcases hq with hq | hq
    · simp only [hq, if_true, run_pure] at hrun
      subst hrun
      exact ⟨rfl, hdb⟩
    · -- the step failed: there is nothing to insert into
      simp only [hq, Bool.false_eq_true, if_false] at hrun
      obtain ⟨h1, hsame⟩ := (insertZero_spec q.2).2.1 (hdb ▸ hnone)
      rw [hrun]
      exact ⟨h1, hsame.trans hdb⟩

/-- **`verifyID` without the table**: four calls create it, two more fill it. -/
theorem verifyID_missing (hnone : c.db .lastID = none) :
    let r := verifyID c
    ¬ Lasts 4 c.faults ∧ r.1 = 1 ∧ r.2.db = c.db ∨
      Lasts 4 c.faults ∧ ¬ Lasts 6 c.faults ∧ r.1 = 1 ∧ r.2.db = withID [] c.db ∨
      Lasts 6 c.faults ∧ r.1 = 2 ∧ r.2.db = withID [[.int 0]] c.db := by
  intro r
  have hrun : r = verifyID c := rfl
  clear_value r
  have hmaster := counted_queryMaster .lastID [] c
  rw [hnone] at hmaster
  simp only [verifyID, run_bind] at hrun
  revert hrun
  generalize query (N := TableName) _ _ _ _ _ c = q at hmaster
  intro hrun
  have h₄ : Lasts 4 c.faults ↔ Lasts 2 c.faults ∧ Lasts 2 (rest 2 c.faults) :=
    lasts_add (n := 2) (m := 2)
  have h₆ : Lasts 6 c.faults ↔
      Lasts 2 c.faults ∧ Lasts 2 (rest 2 c.faults) ∧ Lasts 2 (rest 2 (rest 2 c.faults)) :=
    (lasts_add (n := 2) (m := 4)).trans (and_congr_right fun _ => lasts_add (n := 2) (m := 2))
  by_cases h₂ : Lasts 2 c.faults
  · obtain ⟨hq, hdb⟩ := hmaster.ok h₂
    have hfaults : q.2.faults = rest 2 c.faults := hmaster.faults
    simp only [hq] at hrun
    have hres := createID_calls (c := q.2) (hdb ▸ hnone) hrun
    rw [hfaults, hdb] at hres
    rw [h₄, h₆]
    grind
  · obtain ⟨hq, hdb⟩ := hmaster.err h₂
    simp only [hq, run_pure] at hrun
    subst hrun
    exact .inl ⟨fun h => h₂ (h₄.mp h).1, rfl, hdb⟩

/-! ### What the checks create -/

theorem withTable_eq_iff : withTable name db = db ↔ db name ≠ none := by
  unfold withTable
  split
  · next hnone =>
    refine ⟨fun h => ?_, fun h => absurd hnone h⟩
    have hself := congrFun h name
    rw [Function.update_self, hnone] at hself
    cases hself
  · next hsome => exact ⟨fun _ => hsome, fun _ => rfl⟩

/-- `verifyTable` leaves the file alone, unless the table is missing and no call fails. -/
theorem verifyTable_db_iff (name : TableName) (c : Conn TableName) :
    (verifyTable name c).2.db = c.db ↔ (c.db name = none → ¬ Lasts 5 c.faults) := by
  have h := counted_verifyTable name c
  by_cases hn : Lasts (verifyCalls (c.db name)) c.faults
  · rw [(h.ok hn).2, withTable_eq_iff]
    refine ⟨fun hsome hnone => absurd hnone hsome, fun hfails hnone => ?_⟩
    rw [hnone] at hn
    exact hfails hnone hn
  · refine ⟨fun _ hnone => ?_, fun _ => (h.err hn).2⟩
    rwa [hnone] at hn

/-- It says that it created the table exactly if it did. -/
theorem verifyTable_two_iff (name : TableName) (c : Conn TableName) :
    (verifyTable name c).1 = 2 ↔ c.db name = none ∧ Lasts 5 c.faults := by
  have h := counted_verifyTable name c
  by_cases hn : Lasts (verifyCalls (c.db name)) c.faults
  · rw [(h.ok hn).1, verdict_eq_two]
    refine ⟨fun hnone => ⟨hnone, ?_⟩, fun h => h.1⟩
    rwa [hnone] at hn
  · rw [(h.err hn).1]
    refine ⟨fun h => (by cases h), fun ⟨hnone, hlast⟩ => ?_⟩
    rw [hnone] at hn
    exact absurd hlast hn

theorem verdict_eq_zero {o : Option Table} : verdict o = 0 ↔ ∃ tb, o = some tb ∧ TaskTable tb := by
  cases o with
  | none => simp [verdict]
  | some tb => by_cases h : TaskTable tb <;> simp [verdict, h]

/-- It accepts the tables with the right columns, if no call fails. -/
theorem verifyTable_zero_iff (name : TableName) (c : Conn TableName) :
    (verifyTable name c).1 = 0 ↔ ∃ tb, c.db name = some tb ∧ TaskTable tb ∧ Lasts 12 c.faults := by
  have h := counted_verifyTable name c
  by_cases hn : Lasts (verifyCalls (c.db name)) c.faults
  · rw [(h.ok hn).1, verdict_eq_zero]
    constructor
    · rintro ⟨tb, htb, ht⟩
      rw [htb, verifyCalls_taskTable ht] at hn
      exact ⟨tb, htb, ht, hn⟩
    · rintro ⟨tb, htb, ht, -⟩
      exact ⟨tb, htb, ht⟩
  · rw [(h.err hn).1]
    refine ⟨fun h => (by cases h), fun ⟨tb, htb, ht, hlast⟩ => ?_⟩
    rw [htb, verifyCalls_taskTable ht] at hn
    exact absurd hlast hn

theorem withID_ne {rows : List Record} (hnone : db .lastID = none) : withID rows db ≠ db := by
  intro h
  have hself := congrFun h .lastID
  rw [withID, Function.update_self, hnone] at hself
  cases hself

/-- `verifyID` leaves the file alone, unless the table is missing and the calls that create it do
not fail. -/
theorem verifyID_db_iff (c : Conn TableName) :
    (verifyID c).2.db = c.db ↔ (c.db .lastID = none → ¬ Lasts 4 c.faults) := by
  cases htb : c.db .lastID with
  | some tb =>
      have hthere : (c.db .lastID).isSome = true := by
        rw [htb]
        rfl
      have hkeeps := (keeps_verifyID hthere c rfl).1
      exact ⟨fun _ h => (by cases h), fun _ => hkeeps⟩
  | none =>
      rcases verifyID_missing htb with ⟨h₄, -, hdb⟩ | ⟨h₄, -, -, hdb⟩ | ⟨h₆, -, hdb⟩
      · exact ⟨fun _ _ => h₄, fun _ => hdb⟩
      · rw [hdb]
        exact ⟨fun h => absurd h (withID_ne htb), fun h => absurd h₄ (h rfl)⟩
      · rw [hdb]
        exact ⟨fun h => absurd h (withID_ne htb),
          fun h => absurd (lasts_add (n := 4) (m := 2) |>.mp h₆).1 (h rfl)⟩

theorem verifyID_two_iff (c : Conn TableName) :
    (verifyID c).1 = 2 ↔ c.db .lastID = none ∧ Lasts 6 c.faults := by
  cases htb : c.db .lastID with
  | some tb =>
      refine ⟨fun h => ?_, fun h => (by cases h.1)⟩
      obtain ⟨-, hcheck⟩ := verifyID_spec c
      rw [h] at hcheck
      cases hcheck with
      | created hnone =>
          rw [htb] at hnone
          cases hnone
  | none =>
      rcases verifyID_missing htb with ⟨h₄, h1, -⟩ | ⟨-, h₆, h1, -⟩ | ⟨h₆, h2, -⟩
      · rw [h1]
        exact ⟨fun h => (by cases h),
          fun h => absurd (lasts_add (n := 4) (m := 2) |>.mp h.2).1 h₄⟩
      · rw [h1]
        exact ⟨fun h => (by cases h), fun h => absurd h.2 h₆⟩
      · exact ⟨fun _ => ⟨rfl, h₆⟩, fun _ => h2⟩

/-- Counting the rows of a table. -/
theorem counted_queryRows {tb : Table} (htb : c.db name = some tb) :
    Counted c (2 + tb.rows.length) (fun r => r.1 = (tb.rows.length, none)) (fun r => r.1.2 = some 1)
      (query (.select name none none none) [] (fun n _ => (n + 1, none)) 0 (1 : Nat) c) := by
  have heval : (Sql.select name none none none).eval c.scan (params []) c.db =
      some (c.scan.order tb.rows, c.db) := by
    simp [Sql.eval, htb, Table.matches, Table.project]
  have hcomp : (Sql.select name none none none).compiles c.db = true := by
    simp [Sql.compiles, htb, Table.hasCond]
  have hlen := (c.scan.perm tb.rows).length_eq
  have hquery := counted_query hcomp heval (fun n _ => (n + 1, (none : Option Nat))) 0 1
  rw [rounds_total, foldRows_total, hlen, List.length_nil,
    show ∀ k, 1 + (0 + (k + 1)) = 2 + k by omega] at hquery
  refine hquery.mono (fun h => ?_) id
  rw [h]
  simp [hlen]

/-- **`verifyID` on a table it accepts**: three calls for each of its three statements. -/
theorem counted_verifyID {tb : Table} (htb : c.db .lastID = some tb) (hok : IDTable tb) :
    Counted c 9 (fun r => r.1 = 0) (fun r => r.1 = 1) (verifyID c) := by
  obtain ⟨hlen, hall, hrows⟩ := hok
  have hmaster := counted_queryMaster .lastID [] c
  rw [htb] at hmaster
  refine hmaster.bind (k := 3 + 3) (fun r ⟨hr, hdb⟩ => ?_) fun r ⟨hr, _⟩ => ?_
  · rw [hr]
    have hinfo := counted_queryTableInfo (c := r.2) (hdb ▸ htb)
      (p := fun row => columnText row 1 = "ID".toList ∧ columnText row 2 = "INT".toList)
      (f := fun n row =>
        if columnText row 1 ≠ "ID".toList then (n, some 1)
        else if columnText row 2 ≠ "INT".toList then (n, some 1)
        else (n + 1, none))
      (fun n row hp => by simp [hp]) (fun n row hp => by grind)
    have hself : tb.cols.takeWhile (fun col =>
        columnText col.info 1 = "ID".toList ∧ columnText col.info 2 = "INT".toList) = tb.cols :=
      List.takeWhile_eq_self_iff.mpr fun col hcol => decide_eq_true (hall col hcol)
    rw [hself, hlen] at hinfo
    refine hinfo.bind (fun r' ⟨hres, hdb'⟩ => ?_) fun r' ⟨hr', _⟩ => ?_
    · rcases hres with ⟨-, hr'⟩ | ⟨hno, -⟩
      · rw [hr']
        have hcount := counted_queryRows (c := r'.2) (hdb'.trans hdb ▸ htb)
        rw [hrows] at hcount
        refine hcount.bind (k := 0) (fun r'' hr'' => ?_) fun r'' hr'' => ?_
        · rw [hr'']
          exact counted_zero rfl rfl
        · simp only [hr'']
          exact ⟨rfl, rfl⟩
      · exact absurd hall hno
    · simp only [hr']
      exact ⟨rfl, rfl⟩
  · simp only [hr]
    exact ⟨rfl, rfl⟩

/-- It accepts a table with the right column and one row, if no call fails. -/
theorem verifyID_zero_iff (c : Conn TableName) :
    (verifyID c).1 = 0 ↔ ∃ tb, c.db .lastID = some tb ∧ IDTable tb ∧ Lasts 9 c.faults := by
  constructor
  · intro h
    obtain ⟨-, hcheck⟩ := verifyID_spec c
    rw [h] at hcheck
    cases hcheck with
    | @accepted tb htb hok =>
        refine ⟨tb, htb, hok, ?_⟩
        by_contra hn
        rw [(counted_verifyID htb hok).err hn] at h
        cases h
  · rintro ⟨tb, htb, hok, hlast⟩
    exact (counted_verifyID htb hok).ok hlast

/-- A check touches no other table than its own. -/
theorem verifyTable_frame {t : TableName} (h : t ≠ name) :
    (verifyTable name c).2.db t = c.db t := by
  have hcount := counted_verifyTable name c
  by_cases hn : Lasts (verifyCalls (c.db name)) c.faults
  · rw [(hcount.ok hn).2, withTable]
    split
    · rw [Function.update_of_ne h]
    · rfl
  · rw [(hcount.err hn).2]

theorem verifyID_frame {t : TableName} (h : t ≠ .lastID) : (verifyID c).2.db t = c.db t := by
  by_cases hnone : c.db .lastID = none
  · rcases verifyID_missing hnone with ⟨-, -, hdb⟩ | ⟨-, -, -, hdb⟩ | ⟨-, -, hdb⟩
    · rw [hdb]
    · rw [hdb, withID, Function.update_of_ne h]
    · rw [hdb, withID, Function.update_of_ne h]
  · rw [(verifyID_db_iff c).mpr fun h => absurd h hnone]

/-! ### `connectToDB` -/

/-- Behind a created `pending` the file is accepted if the other two tables are created as well. -/
theorem checks_two_iff (c : Conn TableName) :
    (verifyTable .done c).1 = 2 ∧ (verifyID (verifyTable .done c).2).1 = 2 ↔
      c.db .done = none ∧ c.db .lastID = none ∧ Lasts 11 c.faults := by
  have hfaults := (counted_verifyTable .done c).faults
  have hlast : (verifyTable .done c).2.db .lastID = c.db .lastID := verifyTable_frame (by decide)
  have hsplit : Lasts 11 c.faults ↔ Lasts 5 c.faults ∧ Lasts 6 (rest 5 c.faults) :=
    lasts_add (n := 5) (m := 6)
  rw [verifyID_two_iff, verifyTable_two_iff, hlast, hfaults, hsplit]
  constructor
  · rintro ⟨⟨hD, h₅⟩, hI, h₆⟩
    rw [hD] at h₆
    exact ⟨hD, hI, h₅, h₆⟩
  · rintro ⟨hD, hI, h₅, h₆⟩
    rw [hD]
    exact ⟨⟨rfl, h₅⟩, hI, h₆⟩

/-- Behind an accepted `pending` it is accepted if the other two tables are accepted as well. -/
theorem checks_zero_iff (c : Conn TableName) :
    (verifyTable .done c).1 = 0 ∧ (verifyID (verifyTable .done c).2).1 = 0 ↔
      (∃ tb, c.db .done = some tb ∧ TaskTable tb) ∧ (∃ tb, c.db .lastID = some tb ∧ IDTable tb) ∧
        Lasts 21 c.faults := by
  have hfaults := (counted_verifyTable .done c).faults
  have hlast : (verifyTable .done c).2.db .lastID = c.db .lastID := verifyTable_frame (by decide)
  have hsplit : Lasts 21 c.faults ↔ Lasts 12 c.faults ∧ Lasts 9 (rest 12 c.faults) :=
    lasts_add (n := 12) (m := 9)
  rw [verifyID_zero_iff, verifyTable_zero_iff, hlast, hfaults, hsplit]
  constructor
  · rintro ⟨⟨tD, htD, hokD, h₁₂⟩, tI, htI, hokI, h₉⟩
    rw [htD, verifyCalls_taskTable hokD] at h₉
    exact ⟨⟨tD, htD, hokD⟩, ⟨tI, htI, hokI⟩, h₁₂, h₉⟩
  · rintro ⟨⟨tD, htD, hokD⟩, ⟨tI, htI, hokI⟩, h₁₂, h₉⟩
    rw [htD, verifyCalls_taskTable hokD]
    exact ⟨⟨tD, rfl, hokD, h₁₂⟩, tI, htI, hokI, h₉⟩

/-- `connectToDB` succeeds if the three checks agree on one of the two good answers. -/
theorem connectToDB_agree (c : Conn TableName) :
    let rP := verifyTable .pending c
    let rD := verifyTable .done rP.2
    let rI := verifyID rD.2
    (connectToDB true c).1 = 0 ↔
      rP.1 = 0 ∧ rD.1 = 0 ∧ rI.1 = 0 ∨ rP.1 = 2 ∧ rD.1 = 2 ∧ rI.1 = 2 := by
  intro rP rD rI
  have hP : rP.1 = 0 ∨ rP.1 = 1 ∨ rP.1 = 2 := by
    obtain ⟨-, hcheck⟩ := verifyTable_spec .pending c
    change Check TaskTable ⟨taskColumns, []⟩ .pending c rP.2 rP.1 at hcheck
    generalize rP.1 = n at hcheck
    cases hcheck <;> simp
  rw [connectToDB_run]
  change (if rP.1 = 1 then (1, rP.2)
    else if rP.1 ≠ rD.1 ∨ rP.1 ≠ rI.1 ∨ rD.1 ≠ rI.1 then (1, rI.2)
    else (0, rI.2)).1 = 0 ↔ _
  split_ifs with h₁ h₂
  · simp [h₁]
  · simp only [false_iff]
    omega
  · simp only [true_iff]
    omega

/-- The contents `connectToDB` opens: one that it accepts as it is, in 33 calls, or an empty one, in
which it creates the tables in 16. -/
def Openable (db : QueueDB) (faults : List Bool) : Prop :=
  Accepted db ∧ Lasts 33 faults ∨ db = emptyDB ∧ Lasts 16 faults

/-- **Which files `connectToDB` opens.** -/
theorem connectToDB_zero_iff (c : Conn TableName) :
    (connectToDB true c).1 = 0 ↔ Openable c.db c.faults := by
  have hframe : ∀ t ≠ .pending, (verifyTable .pending c).2.db t = c.db t :=
    fun t ht => verifyTable_frame ht
  have hfaults := (counted_verifyTable .pending c).faults
  have h₃₃ : Lasts 33 c.faults ↔ Lasts 12 c.faults ∧ Lasts 21 (rest 12 c.faults) :=
    lasts_add (n := 12) (m := 21)
  have h₁₆ : Lasts 16 c.faults ↔ Lasts 5 c.faults ∧ Lasts 11 (rest 5 c.faults) :=
    lasts_add (n := 5) (m := 11)
  refine (connectToDB_agree c).trans ?_
  rw [checks_zero_iff, checks_two_iff, verifyTable_zero_iff, verifyTable_two_iff,
    hframe .done (by decide), hframe .lastID (by decide), hfaults, Openable, h₃₃, h₁₆]
  refine or_congr ⟨?_, ?_⟩ ⟨?_, ?_⟩
  · rintro ⟨⟨tP, htP, hokP, h₁₂⟩, hD, hI, h₂₁⟩
    rw [htP, verifyCalls_taskTable hokP] at h₂₁
    exact ⟨⟨⟨tP, htP, hokP⟩, hD, hI⟩, h₁₂, h₂₁⟩
  · rintro ⟨⟨⟨tP, htP, hokP⟩, hD, hI⟩, h₁₂, h₂₁⟩
    rw [htP, verifyCalls_taskTable hokP]
    exact ⟨⟨tP, rfl, hokP, h₁₂⟩, hD, hI, h₂₁⟩
  · rintro ⟨⟨hP, h₅⟩, hD, hI, h₁₁⟩
    rw [hP] at h₁₁
    refine ⟨?_, h₅, h₁₁⟩
    funext t
    cases t
    · exact hP
    · exact hD
    · exact hI
  · rintro ⟨hempty, h₅, h₁₁⟩
    rw [hempty]
    exact ⟨⟨rfl, h₅⟩, rfl, rfl, h₁₁⟩

end SimpleTaskQueue
