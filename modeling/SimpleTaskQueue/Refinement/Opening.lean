import SimpleTaskQueue.Model.Dao.SQLiteQueue.Queue
/-!
# SimpleTaskQueue.Refinement.Opening

**Which files `connectToDB` accepts**, for every pattern of failing SQLite calls: it accepts a
file whose three tables have the right columns, and one row in `lastID`, and leaves it alone
(`Accepted`); or it creates all three tables in an empty one.

The calls of a client change rows only. So a file that was accepted once is accepted ever after
(`Accepted.call`).
-/

namespace SimpleTaskQueue

open Sqlite Sqlite.Conn

/-- The columns `verifyTable` accepts. -/
def TaskTable (tb : Table) : Prop :=
  tb.cols.length = 6 ∧ ∀ col ∈ tb.cols, dbColumnName (cstr col.name.toList) = cstr col.type.toList

instance (tb : Table) : Decidable (TaskTable tb) := inferInstanceAs (Decidable (_ ∧ _))

/-- The table `verifyID` accepts. -/
def IDTable (tb : Table) : Prop :=
  tb.cols.length = 1 ∧
    (∀ col ∈ tb.cols, cstr col.name.toList = "ID".toList ∧ cstr col.type.toList = "INT".toList) ∧
    tb.rows.length = 1

instance (tb : Table) : Decidable (IDTable tb) := inferInstanceAs (Decidable (_ ∧ _ ∧ _))

/-- The content of a file that `connectToDB` accepts. -/
structure Accepted (db : QueueDB) : Prop where
  pending : ∃ tb, db .pending = some tb ∧ TaskTable tb
  done : ∃ tb, db .done = some tb ∧ TaskTable tb
  lastID : ∃ tb, db .lastID = some tb ∧ IDTable tb

/-! ### The checks -/

/-- What a check of the table `name` comes to: `ok` says which tables it accepts, `new` is the
one it creates. Without failing calls an error means that a table is there and not accepted. -/
inductive Check (ok : Table → Prop) (new : Table) (name : TableName) (c c' : Conn TableName) :
    Nat → Prop
  | accepted {tb : Table} (htb : c.db name = some tb) (hok : ok tb) (hdb : c'.db = c.db) :
      Check ok new name c c' 0
  | error (hbad : c.Reliable → ∃ tb, c.db name = some tb ∧ ¬ ok tb) : Check ok new name c c' 1
  | created (hnone : c.db name = none) (hdb : c'.db = Function.update c.db name (some new)) :
      Check ok new name c c' 2

section Check

variable {ok : Table → Prop} {new tb : Table} {name : TableName} {c c' : Conn TableName} {n : Nat}

theorem Check.of_accepted (h : Check ok new name c c' n) (hc : c.Reliable)
    (htb : c.db name = some tb) (hok : ok tb) : n = 0 ∧ c'.db = c.db := by
  cases h with
  | accepted _ _ hdb => exact ⟨rfl, hdb⟩
  | error hbad =>
      obtain ⟨tb', htb', hno⟩ := hbad hc
      obtain rfl : tb = tb' := Option.some.inj (htb.symm.trans htb')
      exact absurd hok hno
  | created hnone =>
      rw [htb] at hnone
      cases hnone

theorem Check.of_missing (h : Check ok new name c c' n) (hc : c.Reliable)
    (hnone : c.db name = none) : n = 2 ∧ c'.db = Function.update c.db name (some new) := by
  cases h with
  | accepted htb =>
      rw [hnone] at htb
      cases htb
  | error hbad =>
      obtain ⟨tb, htb, -⟩ := hbad hc
      rw [hnone] at htb
      cases htb
  | created _ hdb => exact ⟨rfl, hdb⟩

/-- The connection after complete calls. -/
abbrev Called (c c' : Conn TableName) : Prop := Finished (fun _ => True) c c'

/-- A check after calls that left the database alone. -/
theorem Check.after {c₀ : Conn TableName} (h : Check ok new name c c' n) (hfin : Called c₀ c)
    (hdb : c.db = c₀.db) : Check ok new name c₀ c' n := by
  cases h with
  | accepted htb hok hdb' => exact .accepted (hdb ▸ htb) hok (hdb'.trans hdb)
  | error hbad => exact .error fun hc => hdb ▸ hbad (hfin.reliable hc)
  | created hnone hdb' => exact .created (hdb ▸ hnone) (hdb ▸ hdb')

end Check

variable {c : Conn TableName} {name : TableName}

theorem called_of {P : QueueDB → Prop} {c' : Conn TableName} (h : Finished P c c') :
    Called c c' :=
  h.mono fun _ _ => trivial

/-- The query of `sqlite_master`: is the table there? -/
theorem queryMaster_spec (name : TableName) (vals : List Value) (c : Conn TableName) :
    let r := query (.master name) vals (fun n _ => (n + 1, none)) 0 (1 : Nat) c
    Called c r.2 ∧ r.2.db = c.db ∧ (r.1.2 = some 1 ∧ ¬ c.Reliable ∨
      r.1 = (0, none) ∧ c.db name = none ∨ r.1 = (1, none) ∧ (c.db name).isSome = true) := by
  intro r
  have heval : (Sql.master name).eval c.scan (params vals) c.db =
      some (if (c.db name).isSome then [[.null]] else [], c.db) := by
    cases htb : c.db name <;> simp [Sql.eval, htb]
  obtain ⟨hfin, hdb, hres⟩ := query_total (by trivial) (by rfl) heval
    (fun n _ => (n + 1, (none : Option Nat))) 0 1
  refine ⟨called_of hfin, hdb, ?_⟩
  rcases hres with ⟨⟨s', hs'⟩, hrel⟩ | hfold
  · exact .inl ⟨by rw [hs'], hrel⟩
  · rw [hfold, foldRows_total]
    cases htb : c.db name with
    | none => exact .inr (.inl ⟨rfl, rfl⟩)
    | some tb => exact .inr (.inr ⟨rfl, rfl⟩)

/-- The loop over `PRAGMA table_info` that stops at the first column without a property. -/
theorem queryTableInfo_spec {tb : Table} (htb : c.db name = some tb) {p : Record → Prop}
    {f : Nat → Record → Nat × Option Nat} (hyes : ∀ n r, p r → f n r = (n + 1, none))
    (hno : ∀ n r, ¬ p r → f n r = (n, some 1)) :
    let r := query (.tableInfo name) [] f 0 1 c
    Called c r.2 ∧ r.2.db = c.db ∧
      (r.1.2 = some 1 ∧ (c.Reliable → ¬ ∀ col ∈ tb.cols, p col.info) ∨
        r.1 = (tb.cols.length, none) ∧ ∀ col ∈ tb.cols, p col.info) := by
  intro r
  have heval : (Sql.tableInfo name).eval c.scan (params []) c.db =
      some (tb.cols.map Column.info, c.db) := by
    simp [Sql.eval, htb]
  obtain ⟨hfin, hdb, hres⟩ := query_total (by trivial) (by rfl) heval f 0 1
  refine ⟨called_of hfin, hdb, ?_⟩
  rcases hres with ⟨⟨s', hs'⟩, hrel⟩ | hfold
  · exact .inl ⟨by rw [hs'], fun hc => absurd hc hrel⟩
  · rw [hfold]
    rcases foldRows_check hyes hno (tb.cols.map Column.info) 0 with ⟨hall, hf⟩ | ⟨hnot, hf⟩
    · rw [List.forall_mem_map] at hall
      rw [hf, List.length_map, Nat.zero_add]
      exact .inr ⟨rfl, hall⟩
    · rw [List.forall_mem_map] at hnot
      exact .inl ⟨hf, fun _ => hnot⟩

/-- Creating a table that is not there. -/
theorem execute_create_spec (cols : List Column) {ε : Type} (early late ok : ε)
    (hnone : c.db name = none) :
    let r := execute (.create name cols) [] early late ok c
    Called c r.2 ∧ (r.1 = early ∧ r.2.db = c.db ∧ ¬ c.Reliable ∨
      r.1 = late ∧ r.2.db = c.db ∧ ¬ c.Reliable ∨
      r.1 = ok ∧ r.2.db = Function.update c.db name (some ⟨cols, []⟩)) := by
  intro r
  have hro : ¬ (Sql.create name cols).ReadOnly := id
  refine ⟨called_of (execute_spec hro [] early late ok c).2, execute_total hro ?_ ?_ early late ok⟩
  · simp [Sql.compiles, hnone]
  · simp [Sql.eval, hnone]

/-- `createTable`. -/
theorem createTable_spec (hnone : c.db name = none) :
    let r := createTable name c
    Called c r.2 ∧ Check TaskTable ⟨taskColumns, []⟩ name c r.2 r.1 := by
  intro r
  obtain ⟨hfin, hcreate⟩ := execute_create_spec taskColumns 1 1 2 hnone
  refine ⟨hfin, ?_⟩
  rcases hcreate with ⟨h1, -, hrel⟩ | ⟨h1, -, hrel⟩ | ⟨h2, hdb⟩
  · exact h1 ▸ .error fun hc => absurd hc hrel
  · exact h1 ▸ .error fun hc => absurd hc hrel
  · exact h2 ▸ .created hnone hdb

/-- `verifyTable`. -/
theorem verifyTable_spec (name : TableName) (c : Conn TableName) :
    let r := verifyTable name c
    Called c r.2 ∧ Check TaskTable ⟨taskColumns, []⟩ name c r.2 r.1 := by
  intro r
  have hrun : r = verifyTable name c := rfl
  clear_value r
  obtain ⟨hfin, hdb, hres⟩ := queryMaster_spec name [.text name.text] c
  simp only [verifyTable, run_bind] at hrun
  revert hrun
  generalize query (N := TableName) _ _ _ _ _ c = q at hfin hdb hres
  intro hrun
  rcases hres with ⟨hq, hrel⟩ | ⟨hq, hnone⟩ | ⟨hq, hsome⟩
  · simp only [hq, run_pure] at hrun
    subst hrun
    exact ⟨hfin, .error fun hc => absurd hc hrel⟩
  · -- the table is missing
    simp only [hq, if_true] at hrun
    obtain ⟨hfin', hcheck⟩ := createTable_spec (c := q.2) (hdb ▸ hnone)
    rw [← hrun] at hfin' hcheck
    exact ⟨hfin.trans hfin', hcheck.after hfin hdb⟩
  · -- the table is there
    obtain ⟨tb, htb⟩ := Option.isSome_iff_exists.mp hsome
    simp only [hq, Nat.one_ne_zero, if_false, gt_iff_lt, Nat.lt_irrefl, run_bind] at hrun
    obtain ⟨hfin', hdb', hres'⟩ := queryTableInfo_spec (c := q.2) (hdb ▸ htb)
      (p := fun row => dbColumnName (columnText row 1) = columnText row 2)
      (f := fun n row =>
          if dbColumnName (columnText row 1) ≠ columnText row 2 then (n, some 1)
          else (n + 1, none))
      (fun n row hp => by simp [hp]) (fun n row hp => by simp [hp])
    revert hrun
    generalize query (N := TableName) _ _ _ _ _ q.2 = q' at hfin' hdb' hres'
    intro hrun
    rcases hres' with ⟨hq', hbad⟩ | ⟨hq', hall⟩
    · simp only [hq', run_pure] at hrun
      subst hrun
      exact ⟨hfin.trans hfin', .error fun hc => ⟨tb, htb, fun ht => hbad (hfin.reliable hc) ht.2⟩⟩
    · simp only [hq', run_ite, run_pure] at hrun
      split at hrun <;> subst hrun
      · next hlen => exact ⟨hfin.trans hfin', .error fun _ => ⟨tb, htb, fun ht => hlen ht.1⟩⟩
      · next hlen =>
        exact ⟨hfin.trans hfin', .accepted htb ⟨not_not.mp hlen, hall⟩ (hdb'.trans hdb)⟩

/-- Counting the rows of a table. -/
theorem queryRows_spec {tb : Table} (htb : c.db name = some tb) :
    let r := query (.select name none none none) [] (fun n _ => (n + 1, none)) 0 (1 : Nat) c
    Called c r.2 ∧ r.2.db = c.db ∧
      (r.1.2 = some 1 ∧ ¬ c.Reliable ∨ r.1 = (tb.rows.length, none)) := by
  intro r
  have heval : (Sql.select name none none none).eval c.scan (params []) c.db =
      some (c.scan.order tb.rows, c.db) := by
    simp [Sql.eval, htb, Table.matches, Table.project]
  have hcomp : (Sql.select name none none none).compiles c.db = true := by
    simp [Sql.compiles, htb, Table.hasCond]
  obtain ⟨hfin, hdb, hres⟩ := query_total (by trivial) hcomp heval
    (fun n _ => (n + 1, (none : Option Nat))) 0 1
  refine ⟨called_of hfin, hdb, ?_⟩
  rcases hres with ⟨⟨s', hs'⟩, hrel⟩ | hfold
  · exact .inl ⟨by rw [hs'], hrel⟩
  · have hlen := (c.scan.perm tb.rows).length_eq
    refine .inr ?_
    rw [hfold, foldRows_total]
    simp [hlen]

/-- Inserting the default value of `lastID`, into a table that is not there or is empty. -/
theorem insertZero_spec (c : Conn TableName) :
    let r := execute (.insert .lastID [.lit (.int 0)]) [] 1 1 2 c
    Called c r.2 ∧ (c.db .lastID = none → r.1 = 1 ∧ r.2.db = c.db) ∧
      (c.db .lastID = some ⟨lastIDColumns, []⟩ → r.1 = 1 ∧ ¬ c.Reliable ∨
        r.1 = 2 ∧ r.2.db = Function.update c.db .lastID (some ⟨lastIDColumns, [[.int 0]]⟩)) := by
  intro r
  have hro : ¬ (Sql.insert TableName.lastID [.lit (.int 0)]).ReadOnly := id
  obtain ⟨hexec, hfin⟩ := execute_spec hro [] 1 1 2 c
  refine ⟨called_of hfin, fun hnone => ?_, fun hempty => ?_⟩
  · rcases hexec with ⟨h1, hsame, -⟩ | ⟨h1, hsame, -⟩ | ⟨-, hcomp, -⟩
    · exact ⟨h1, hsame⟩
    · exact ⟨h1, hsame⟩
    · simp [Sql.compiles, hnone] at hcomp
  · have hallows : (⟨lastIDColumns, []⟩ : Table).Allows [[.int 0]] := by decide
    have heval : (Sql.insert TableName.lastID [.lit (.int 0)]).eval c.scan (params []) c.db =
        some ([], Function.update c.db .lastID (some ⟨lastIDColumns, [[.int 0]]⟩)) := by
      simp only [Sql.eval, hempty, List.map_cons, List.map_nil, Operand.value, List.nil_append]
      rw [if_pos hallows]
    have hcomp : (Sql.insert TableName.lastID [.lit (.int 0)]).compiles c.db = true := by
      simp only [Sql.compiles, hempty]
      rfl
    rcases execute_total hro hcomp heval 1 1 2 with ⟨h1, -, hrel⟩ | ⟨h1, -, hrel⟩ | h2
    · exact .inl ⟨h1, hrel⟩
    · exact .inl ⟨h1, hrel⟩
    · exact .inr h2

/-- The branch of `verifyID` for a missing table. A step of the `create` that fails does not end
it, but leaves nothing to insert into. -/
theorem createID_spec (hnone : c.db .lastID = none) {r : Nat × Conn TableName}
    (hrun : r = (do
      let stop ← execute (.create .lastID lastIDColumns) [] true false false
      if stop then pure 1 else execute (.insert .lastID [.lit (.int 0)]) [] 1 1 2 : QueueM Nat) c) :
    Called c r.2 ∧ Check IDTable ⟨lastIDColumns, [[.int 0]]⟩ .lastID c r.2 r.1 := by
  rw [run_bind] at hrun
  obtain ⟨hfin, hcreate⟩ := execute_create_spec lastIDColumns true false false hnone
  revert hrun
  generalize execute (N := TableName) _ _ true false false c = q at hfin hcreate
  intro hrun
  obtain ⟨hfin', hmissing, hempty⟩ := insertZero_spec q.2
  rcases hcreate with ⟨hq, -, hrel⟩ | ⟨hq, hsame, hrel⟩ | ⟨hq, hdb⟩
  · simp only [hq, if_true, run_pure] at hrun
    subst hrun
    exact ⟨hfin, .error fun hc => absurd hc hrel⟩
  · simp only [hq, Bool.false_eq_true, if_false] at hrun
    have h1 := (hmissing (hsame ▸ hnone)).1
    rw [← hrun] at h1 hfin'
    exact ⟨hfin.trans hfin', h1 ▸ .error fun hc => absurd hc hrel⟩
  · simp only [hq, Bool.false_eq_true, if_false] at hrun
    have hres := hempty (by rw [hdb, Function.update_self])
    rw [← hrun] at hfin' hres
    refine ⟨hfin.trans hfin', ?_⟩
    rcases hres with ⟨h1, hrel⟩ | ⟨h2, hd⟩
    · exact h1 ▸ .error fun hc => absurd (hfin.reliable hc) hrel
    · -- the table with its row replaces the empty one
      rw [hdb, Function.update_idem] at hd
      exact h2 ▸ .created hnone hd

/-- `verifyID`. -/
theorem verifyID_spec (c : Conn TableName) :
    let r := verifyID c
    Called c r.2 ∧ Check IDTable ⟨lastIDColumns, [[.int 0]]⟩ .lastID c r.2 r.1 := by
  intro r
  have hrun : r = verifyID c := rfl
  clear_value r
  obtain ⟨hfin, hdb, hres⟩ := queryMaster_spec .lastID [] c
  simp only [verifyID, run_bind] at hrun
  revert hrun
  generalize query (N := TableName) _ _ _ _ _ c = q at hfin hdb hres
  intro hrun
  rcases hres with ⟨hq, hrel⟩ | ⟨hq, hnone⟩ | ⟨hq, hsome⟩
  · simp only [hq, run_pure] at hrun
    subst hrun
    exact ⟨hfin, .error fun hc => absurd hc hrel⟩
  · -- the table is missing
    simp only [hq, if_true] at hrun
    obtain ⟨hfin', hcheck⟩ := createID_spec (c := q.2) (hdb ▸ hnone) hrun
    exact ⟨hfin.trans hfin', hcheck.after hfin hdb⟩
  · -- the table is there
    obtain ⟨tb, htb⟩ := Option.isSome_iff_exists.mp hsome
    simp only [hq, Nat.one_ne_zero, if_false, gt_iff_lt, Nat.lt_irrefl, run_bind] at hrun
    obtain ⟨hfin', hdb', hres'⟩ := queryTableInfo_spec (c := q.2) (hdb ▸ htb)
      (p := fun row => columnText row 1 = "ID".toList ∧ columnText row 2 = "INT".toList)
      (f := fun n row =>
          if columnText row 1 ≠ "ID".toList then (n, some 1)
          else if columnText row 2 ≠ "INT".toList then (n, some 1)
          else (n + 1, none))
      (fun n row hp => by simp [hp]) (fun n row hp => by grind)
    revert hrun
    generalize query (N := TableName) (.tableInfo _) _ _ _ _ q.2 = q' at hfin' hdb' hres'
    intro hrun
    have hfin₁ := hfin.trans hfin'
    rcases hres' with ⟨hq', hbad⟩ | ⟨hq', hall⟩
    · simp only [hq', run_pure] at hrun
      subst hrun
      exact ⟨hfin₁, .error fun hc => ⟨tb, htb, fun ht => hbad (hfin.reliable hc) ht.2.1⟩⟩
    · simp only [hq', run_ite, run_bind, run_pure] at hrun
      split at hrun
      · next hlen =>
        subst hrun
        exact ⟨hfin₁, .error fun _ => ⟨tb, htb, fun ht => hlen ht.1⟩⟩
      · next hlen =>
        obtain ⟨hfin₂, hdb₂, hres₂⟩ := queryRows_spec (c := q'.2) (hdb'.trans hdb ▸ htb)
        revert hrun
        generalize query (N := TableName) _ _ _ _ _ q'.2 = q'' at hfin₂ hdb₂ hres₂
        intro hrun
        have hfin₃ := hfin₁.trans hfin₂
        rcases hres₂ with ⟨hq'', hrel⟩ | hq''
        · simp only [hq'', run_pure] at hrun
          subst hrun
          exact ⟨hfin₃, .error fun hc => absurd (hfin₁.reliable hc) hrel⟩
        · simp only [hq'', run_ite, run_pure] at hrun
          split at hrun <;> subst hrun
          · next hrows => exact ⟨hfin₃, .error fun _ => ⟨tb, htb, fun ht => hrows ht.2.2⟩⟩
          · next hrows =>
            exact ⟨hfin₃, .accepted htb ⟨not_not.mp hlen, hall, not_not.mp hrows⟩
              (hdb₂.trans (hdb'.trans hdb))⟩

/-! ### `connectToDB` -/

theorem Accepted.ne_emptyDB {db : QueueDB} (h : Accepted db) : db ≠ emptyDB := by
  intro h
  subst h
  obtain ⟨tb, htb, -⟩ := h.pending
  cases htb

theorem accepted_freshDB : Accepted freshDB where
  pending := ⟨_, rfl, by decide⟩
  done := ⟨_, rfl, by decide⟩
  lastID := ⟨_, rfl, by decide⟩

theorem connectToDB_run (c : Conn TableName) :
    let rP := verifyTable .pending c
    let rD := verifyTable .done rP.2
    let rI := verifyID rD.2
    connectToDB true c =
      if rP.1 = 1 then (1, rP.2)
      else if rP.1 ≠ rD.1 ∨ rP.1 ≠ rI.1 ∨ rD.1 ≠ rI.1 then (1, rI.2)
      else (0, rI.2) := by
  intro rP rD rI
  simp only [connectToDB, Bool.not_true, Bool.false_eq_true, if_false, run_bind, run_ite, run_pure]
  by_cases h : rP.1 = 1
  · rw [if_pos h, if_pos h]
  · rw [if_neg h, if_neg h, if_neg h, if_neg h]

/-- **`connectToDB`** returns 0 for a file it accepts as it is, or in which it creates all
tables. -/
theorem connectToDB_spec (c : Conn TableName) (h : (connectToDB true c).1 = 0) :
    Accepted (connectToDB true c).2.db ∧
      ((connectToDB true c).2.db = c.db ∨
        c.db = emptyDB ∧ (connectToDB true c).2.db = freshDB) := by
  rw [connectToDB_run] at h ⊢
  obtain ⟨-, hP⟩ := verifyTable_spec .pending c
  generalize verifyTable .pending c = rP at h hP ⊢
  obtain ⟨nP, cP⟩ := rP
  obtain ⟨-, hD⟩ := verifyTable_spec .done cP
  generalize verifyTable .done cP = rD at h hD ⊢
  obtain ⟨nD, cD⟩ := rD
  obtain ⟨-, hI⟩ := verifyID_spec cD
  generalize verifyID cD = rI at h hI ⊢
  obtain ⟨nI, cI⟩ := rI
  dsimp only at hP hD hI h ⊢
  split at h
  · cases h
  · next hne =>
    split at h
    · cases h
    · next heq =>
      rw [if_neg hne, if_neg heq]
      simp only [ne_eq, not_or, not_not] at heq
      obtain ⟨rfl, rfl, -⟩ := heq
      cases hP with
      | error => exact absurd rfl hne
      | accepted htP hokP hdbP =>
          -- the other two checks agree with 0: nothing was created
          cases hD with
          | accepted htD hokD hdbD =>
              cases hI with
              | accepted htI hokI hdbI =>
                  rw [hdbD, hdbP] at htI
                  rw [hdbP] at htD
                  rw [hdbI, hdbD, hdbP]
                  exact ⟨⟨⟨_, htP, hokP⟩, ⟨_, htD, hokD⟩, ⟨_, htI, hokI⟩⟩, .inl rfl⟩
      | created hnP hdbP =>
          -- they agree with 2: all three tables were missing
          cases hD with
          | created hnD hdbD =>
              cases hI with
              | created hnI hdbI =>
                  rw [hdbD, Function.update_of_ne (by decide), hdbP,
                    Function.update_of_ne (by decide)] at hnI
                  rw [hdbP, Function.update_of_ne (by decide)] at hnD
                  have hempty : c.db = emptyDB := by
                    funext t
                    cases t
                    · exact hnP
                    · exact hnD
                    · exact hnI
                  have hfresh : cI.db = freshDB := by
                    rw [hdbI, hdbD, hdbP]
                    funext t
                    cases t <;> rfl
                  rw [hfresh]
                  exact ⟨accepted_freshDB, .inr ⟨hempty, rfl⟩⟩

/-- Without failures `connectToDB` returns 0 for an accepted file and for an empty one. -/
theorem connectToDB_reliable {c : Conn TableName} (hc : c.Reliable)
    (h : Accepted c.db ∨ c.db = emptyDB) : (connectToDB true c).1 = 0 := by
  rw [connectToDB_run]
  obtain ⟨hfP, hP⟩ := verifyTable_spec .pending c
  generalize verifyTable .pending c = rP at hfP hP ⊢
  obtain ⟨nP, cP⟩ := rP
  obtain ⟨hfD, hD⟩ := verifyTable_spec .done cP
  generalize verifyTable .done cP = rD at hfD hD ⊢
  obtain ⟨nD, cD⟩ := rD
  obtain ⟨-, hI⟩ := verifyID_spec cD
  generalize verifyID cD = rI at hI ⊢
  obtain ⟨nI, cI⟩ := rI
  dsimp only at hfP hP hfD hD hI ⊢
  have hcP := hfP.reliable hc
  have hcD := hfD.reliable hcP
  rcases h with ⟨⟨tP, htP, hokP⟩, ⟨tD, htD, hokD⟩, ⟨tI, htI, hokI⟩⟩ | h
  · obtain ⟨rfl, hdbP⟩ := hP.of_accepted hc htP hokP
    obtain ⟨rfl, hdbD⟩ := hD.of_accepted hcP (hdbP ▸ htD) hokD
    obtain ⟨rfl, -⟩ := hI.of_accepted hcD (by rw [hdbD, hdbP, htI]) hokI
    rfl
  · obtain ⟨rfl, hdbP⟩ := hP.of_missing hc (by rw [h]; rfl)
    obtain ⟨rfl, hdbD⟩ := hD.of_missing hcP (by rw [hdbP, h]; rfl)
    obtain ⟨rfl, -⟩ := hI.of_missing hcD (by rw [hdbD, hdbP, h]; rfl)
    rfl

/-! ### The calls of a client -/

/-- The tables keep their columns, and `lastID` the number of its rows. -/
structure SameShape (db db' : QueueDB) : Prop where
  cols : ∀ t, (db' t).map Table.cols = (db t).map Table.cols
  count : (db' .lastID).map (fun tb => tb.rows.length) = (db .lastID).map fun tb => tb.rows.length

instance : Std.Refl SameShape := ⟨fun _ => ⟨fun _ => rfl, rfl⟩⟩

instance : IsTrans QueueDB SameShape :=
  ⟨fun _ _ _ h h' => ⟨fun t => (h'.cols t).trans (h.cols t), h'.count.trans h.count⟩⟩

/-- New rows in a table; in `lastID` as many as there were. -/
theorem SameShape.update {db : QueueDB} {name : TableName} {tb : Table} (htb : db name = some tb)
    {rows : List Record} (hrows : name = .lastID → rows.length = tb.rows.length) :
    SameShape db (Function.update db name (some { tb with rows := rows })) := by
  refine ⟨fun t => ?_, ?_⟩
  · by_cases ht : t = name
    · subst ht
      rw [Function.update_self, htb]
      rfl
    · rw [Function.update_of_ne ht]
  · by_cases ht : .lastID = name
    · subst ht
      rw [Function.update_self, htb]
      exact congrArg some (hrows rfl)
    · rw [Function.update_of_ne ht]

theorem Accepted.sameShape {db db' : QueueDB} (h : Accepted db) (hs : SameShape db db') :
    Accepted db' := by
  have hcols : ∀ {t tb}, db t = some tb → ∃ tb', db' t = some tb' ∧ tb'.cols = tb.cols := by
    intro t tb htb
    have ht := hs.cols t
    rw [htb, Option.map_some, Option.map_eq_some_iff] at ht
    exact ht
  obtain ⟨⟨tP, htP, hokP⟩, ⟨tD, htD, hokD⟩, ⟨tI, htI, hokI⟩⟩ := h
  obtain ⟨tP', htP', hP⟩ := hcols htP
  obtain ⟨tD', htD', hD⟩ := hcols htD
  obtain ⟨tI', htI', hI⟩ := hcols htI
  have hcount : tI'.rows.length = tI.rows.length := by
    have hc := hs.count
    rw [htI, htI'] at hc
    exact Option.some.inj hc
  refine ⟨⟨tP', htP', ?_⟩, ⟨tD', htD', ?_⟩, ⟨tI', htI', ?_⟩⟩
  · rw [TaskTable, hP]
    exact hokP
  · rw [TaskTable, hD]
    exact hokD
  · rw [IDTable, hI, hcount]
    exact hokI

section Calls

variable {name : TableName} {scan : Scan} {p : Nat → Value} {db db' : QueueDB} {rows : List Record}

theorem sameShape_delete {cond : Option (String × Operand)} (hname : name ≠ .lastID)
    (h : (Sql.delete name cond).eval scan p db = some (rows, db')) : SameShape db db' := by
  cases htb : db name with
  | none => simp [Sql.eval, htb] at h
  | some tb =>
      simp only [Sql.eval, htb, Option.some.injEq, Prod.mk.injEq] at h
      obtain ⟨-, rfl⟩ := h
      exact .update htb fun hn => absurd hn hname

theorem sameShape_insert {vals : List Operand} (hname : name ≠ .lastID)
    (h : (Sql.insert name vals).eval scan p db = some (rows, db')) : SameShape db db' := by
  cases htb : db name with
  | none => simp [Sql.eval, htb] at h
  | some tb =>
      simp only [Sql.eval, htb] at h
      split at h
      · simp only [Option.some.injEq, Prod.mk.injEq] at h
        obtain ⟨-, rfl⟩ := h
        exact .update htb fun hn => absurd hn hname
      · cases h

theorem sameShape_update {col : String} {val : Operand} {cond : String × Operand}
    (h : (Sql.update name col val cond).eval scan p db = some (rows, db')) : SameShape db db' := by
  cases htb : db name with
  | none => simp [Sql.eval, htb] at h
  | some tb =>
      simp only [Sql.eval, htb] at h
      generalize hrows : tb.rows.map _ = rows' at h
      split at h
      · simp only [Option.some.injEq, Prod.mk.injEq] at h
        obtain ⟨-, rfl⟩ := h
        exact .update htb fun _ => hrows ▸ List.length_map _
      · cases h

theorem preserves_clearTable (hname : name ≠ .lastID) : Preserves SameShape (clearTable name) :=
  preserves_execute (by simp [Sql.ReadOnly]) _ _ _ fun _ _ _ => sameShape_delete hname

theorem preserves_listIDInTable (name : TableName) : Preserves SameShape (listIDInTable name) :=
  (preserves_query (by trivial) _ _ _).bind fun _ => preserves_pure _

theorem preserves_taskDetails (name : TableName) (id : Int) (out : Task) :
    Preserves SameShape (taskDetails name id out) := by
  refine (preserves_query (by trivial) _ _ _).bind fun r => ?_
  split
  · exact preserves_pure _
  · split <;> exact preserves_pure _

theorem preserves_addTaskToTable (hname : name ≠ .lastID) (t : Task) :
    Preserves SameShape (addTaskToTable name t) :=
  preserves_execute (by simp [Sql.ReadOnly]) _ _ _ fun _ _ _ => sameShape_insert hname

theorem preserves_removeTask (cur : Task) (id : Int) : Preserves SameShape (removeTask cur id) := by
  unfold removeTask removeTaskFromPending
  split
  · exact preserves_pure _
  · exact preserves_execute (by simp [Sql.ReadOnly]) _ _ _ fun _ _ _ => sameShape_delete (by decide)

theorem preserves_getID (out : Int) : Preserves SameShape (getID out) := by
  refine (preserves_query (by trivial) _ _ _).bind fun r => ?_
  split
  · exact preserves_pure _
  · split
    · exact preserves_pure _
    · exact (preserves_execute (by simp [Sql.ReadOnly]) _ _ _ fun _ _ _ => sameShape_update).bind
        fun _ => preserves_pure _

theorem preserves_addTask (t : Task) : Preserves SameShape (addTask t) := by
  refine (preserves_getID t.ID).bind fun r => ?_
  split
  · exact preserves_pure _
  · exact (preserves_addTaskToTable (by decide) _).bind fun _ => preserves_pure _

end Calls

end SimpleTaskQueue
