import SimpleTaskQueue.Refinement.OpeningCalls
/-!
# SimpleTaskQueue.Properties.SchemaCheck

**Which tables `verifyTable` accepts.** It compares the type of each column with the entry of its
name in `dbColumnName`, and counts the columns. So the order of the columns is free, and a name that
is not in the map passes with the empty type, which is what `operator[]` makes up for it: six
columns of any names pass if they have no type.
-/

namespace SimpleTaskQueue

open Sqlite Sqlite.Conn

/-- The names and types that `PRAGMA table_info` reports. -/
def reported (tb : Table) : List (Str × Str) :=
  tb.cols.map fun col => (cstr col.name.toList, cstr col.type.toList)

/-- The columns that the positional `INSERT` and the column indices of the reads rely on. -/
def reliedOn : List (Str × Str) :=
  [("execName".toList, "TEXT".toList), ("args".toList, "TEXT".toList),
    ("workDir".toList, "TEXT".toList), ("ID".toList, "INT".toList),
    ("exitCode".toList, "INT".toList), ("isSuccess".toList, "INT".toList)]

/-- A column that passes: one of the six, or one with another name and without a type. -/
def Passes (col : Str × Str) : Prop :=
  col ∈ reliedOn ∨ col.1 ∉ reliedOn.map Prod.fst ∧ col.2 = []

instance (col : Str × Str) : Decidable (Passes col) := inferInstanceAs (Decidable (_ ∨ _))

/-! ### Lookups with a default value -/

section Lookup

variable {α β : Type} [DecidableEq α] [BEq α] [LawfulBEq α] {l : List (α × β)}

theorem lookup_cons_getD (a k : α) (b d : β) (l : List (α × β)) :
    (((k, b) :: l).lookup a).getD d = if a = k then b else (l.lookup a).getD d := by
  rw [List.lookup_cons]
  by_cases h : a = k
  · rw [if_pos h, h, beq_self_eq_true]
    rfl
  · rw [if_neg h, beq_false_of_ne h]

/-- The answer is the entry of the key, or the default for a key that is not there. -/
theorem lookup_getD_eq_iff (h : (l.map Prod.fst).Nodup) (a : α) (b d : β) :
    (l.lookup a).getD d = b ↔ (a, b) ∈ l ∨ a ∉ l.map Prod.fst ∧ b = d := by
  induction l with
  | nil => simp [eq_comm]
  | cons p l ih =>
      obtain ⟨k, v⟩ := p
      obtain ⟨hk, hl⟩ := List.nodup_cons.mp h
      rw [lookup_cons_getD]
      by_cases ha : a = k
      · subst ha
        have hb : (a, b) ∉ l := fun hmem => hk (List.mem_map.mpr ⟨(a, b), hmem, rfl⟩)
        simp [hb, eq_comm]
      · simp only [ha, if_false, ih hl, List.mem_cons, List.map_cons, Prod.mk.injEq, false_and,
          false_or]

end Lookup

/-! ### The check -/

theorem dbColumnName_eq_lookup (colName : Str) :
    dbColumnName colName = (reliedOn.lookup colName).getD [] := by
  simp only [reliedOn, lookup_cons_getD]
  rfl

theorem dbColumnName_eq_iff (colName colType : Str) :
    dbColumnName colName = colType ↔ Passes (colName, colType) := by
  rw [dbColumnName_eq_lookup, lookup_getD_eq_iff (by decide)]
  rfl

theorem taskTable_iff (tb : Table) :
    TaskTable tb ↔ (reported tb).length = 6 ∧ ∀ col ∈ reported tb, Passes col := by
  simp only [TaskTable, reported, List.length_map, List.forall_mem_map, dbColumnName_eq_iff]

variable {c : Conn TableName} {tb : Table}

/-- The tables that `createTable` makes are the ones the code relies on. -/
theorem reported_taskColumns (rows : List Record) : reported ⟨taskColumns, rows⟩ = reliedOn := by
  change reported ⟨taskColumns, []⟩ = reliedOn
  decide

/-- **Which tables `verifyTable` accepts**: those it relies on, and every other table with six
columns that pass. -/
theorem schema_iff (name : TableName) (htb : c.db name = some tb) :
    ((verifyTable name c).1 = 0 → reported tb = reliedOn) ↔
      reported tb = reliedOn ∨ (reported tb).length ≠ 6 ∨ (∃ col ∈ reported tb, ¬ Passes col) ∨
        ¬ Lasts 12 c.faults := by
  have hzero : (verifyTable name c).1 = 0 ↔ TaskTable tb ∧ Lasts 12 c.faults := by
    rw [verifyTable_zero_iff]
    constructor
    · rintro ⟨tb', htb', h⟩
      obtain rfl : tb = tb' := Option.some.inj (htb.symm.trans htb')
      exact h
    · exact fun h => ⟨tb, htb, h⟩
  rw [hzero, taskTable_iff]
  grind

theorem schema_iff_created :
    (verifyTable .pending (Conn.open freshDB)).1 = 0 ∧
      ((verifyTable .pending (Conn.open freshDB)).1 = 0 →
        reported ⟨taskColumns, []⟩ = reliedOn) :=
  ⟨by decide +kernel, (schema_iff .pending rfl).mpr (.inl (reported_taskColumns []))⟩

/-- `pending` with its columns in another order. -/
def swappedTable : Table := ⟨taskColumns.reverse, []⟩

/-- Six columns without types. -/
def untypedTable : Table :=
  ⟨["a", "b", "c", "d", "e", "f"].map fun name => ⟨name, "", false, false⟩, []⟩

/-- The check accepts both. -/
theorem schema_not_pinned :
    (verifyTable .pending (Conn.open fun _ => some swappedTable)).1 = 0 ∧
      reported swappedTable ≠ reliedOn ∧
      (verifyTable .pending (Conn.open fun _ => some untypedTable)).1 = 0 ∧
      reported untypedTable ≠ reliedOn := by
  decide +kernel

end SimpleTaskQueue
