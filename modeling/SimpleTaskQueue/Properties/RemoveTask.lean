import SimpleTaskQueue.Properties.CurrentTask
/-!
# SimpleTaskQueue.Properties.RemoveTask

**What `removeTask` refuses and what it reports.** The guard compares the ID with that of
`m_currentTask`, which is 0 while no task is executed; and 0 is the first ID that `getID` hands out.
Behind the guard the `DELETE` succeeds whether or not a row has the ID, so that a missing task is
reported as removed.
-/

namespace SimpleTaskQueue

open Sqlite Sqlite.Conn Runs SQLiteQueue

/-! ### The guard -/

section Guard

variable {q : SQLiteQueue} {es : List Event}

/-- What `removeTaskFromPending` answers comes from the statement, or from the guard. -/
theorem removeTask_refused (cur : Task) (id : Int) (c : Conn TableName) :
    (removeTask cur id c).1 = .INVALID_ARGUMENT ↔ id = cur.ID := by
  unfold removeTask removeTaskFromPending
  by_cases hid : id = cur.ID
  · simp only [hid, and_self, if_true, run_pure]
  · simp only [hid, and_false, if_false, iff_false]
    have hspec := (execute_spec (q := Sql.delete TableName.pending (some ("ID", .param 1)))
      (by simp [Sql.ReadOnly]) [.int (toInt32 id)] ErrCode.OS_ERROR .NOT_FOUND .OK c).1
    rcases hspec with ⟨h, -⟩ | ⟨h, -⟩ | ⟨h, -⟩ <;> rw [h] <;> decide

/-- The call is refused with "Cannot remove current task". -/
def Refused (q : SQLiteQueue) (env : Env) (id : Int) : Prop :=
  (q.step (.removeTask env id)).map Prod.fst = some (.code .INVALID_ARGUMENT)

theorem refused_iff (env : Env) (id : Int) : Refused q env id ↔ id = q.mCurrentTask.ID := by
  rw [← removeTask_refused q.mCurrentTask id (q.mToken.given env)]
  simp [Refused, SQLiteQueue.step, SQLiteQueue.call]

/-- **`removeTask` refuses exactly the task that is executed**, with one exception: while no task is
executed, the ID 0. -/
theorem refused_inFlight_iff (h : Run SQLiteQueue.step OneWorker fresh es q) (env : Env)
    (id : Int) :
    (Refused q env id ↔ ∃ t, inFlight es = some t ∧ t.ID = id) ↔ (id = 0 → inFlight es ≠ none) := by
  have hcur := run_currentTask (h.mono fun _ _ _ => trivial)
  rw [refused_iff, hcur]
  cases inFlight es with
  | none =>
      have hblank : Task.blank.ID = 0 := rfl
      simp [hblank]
  | some t => simp [eq_comm]

/-- A task is added, the queue started, and the task picked: the first one has the ID 0. -/
theorem pickFirst_runs : (script SQLiteQueue.step OneWorker fresh pickOne).isSome = true := by
  decide +kernel

theorem refused_inFlight_pickFirst :
    ∃ es q, Run SQLiteQueue.step OneWorker fresh es q ∧
      ((Refused q Env.rowid 0 ↔ ∃ t, inFlight es = some t ∧ t.ID = 0) ↔
        ((0 : Int) = 0 → inFlight es ≠ none)) ∧ inFlight es ≠ none :=
  ⟨_, _, Run.of_script pickFirst_runs,
    refused_inFlight_iff (Run.of_script pickFirst_runs) Env.rowid 0, by decide +kernel⟩

theorem addFirst_runs :
    (script SQLiteQueue.step OneWorker fresh [.addTask Env.rowid listing]).isSome = true := by
  decide +kernel

/-- **The first task cannot be removed** while the queue is idle. -/
theorem first_refused :
    ∃ es q, Run SQLiteQueue.step OneWorker fresh es q ∧ inFlight es = none ∧
      q.mToken.db .pending = some (taskTable [addedRow listing 0]) ∧ Refused q Env.rowid 0 :=
  ⟨_, _, Run.of_script addFirst_runs, by decide +kernel, by decide +kernel,
    (refused_iff Env.rowid 0).mpr (by decide +kernel)⟩

end Guard

/-! ### The answer -/

section Answer

variable {c : Conn TableName} {tb : Table}

/-- The row has the ID. -/
def hasID (tb : Table) (id : Int) (r : Record) : Bool :=
  (tb.colIndex "ID").any fun i => r.getD i .null == .int id

theorem matches_eq_hasID (tb : Table) (id : Int) (r : Record) :
    tb.matches (params [.int id]) r (some ("ID", .param 1)) = hasID tb id r := by
  have hparam : Operand.value (params [.int id]) (.param 1) = .int id := rfl
  simp only [Table.matches, hasID, hparam]
  cases tb.colIndex "ID" with
  | none => rfl
  | some i =>
      simp only [Option.any_some]
      cases r.getD i .null <;> rfl

/-- A row has one ID at most. -/
theorem hasID_unique {id id' : Int} {r : Record} (h : hasID tb id r = true)
    (h' : hasID tb id' r = true) : id = id' := by
  unfold hasID at h h'
  cases htb : tb.colIndex "ID" with
  | none => simp [htb] at h
  | some i =>
      simp only [htb, Option.any_some, beq_iff_eq] at h h'
      exact Value.int.inj (h.symm.trans h')

/-- What `removeTask` should say and do, for a table `tb` of pending tasks. -/
structure TruthfulRemoval (tb : Table) (id : Int) (c c' : Conn TableName) (rc : ErrCode) :
    Prop where
  ok_iff : rc = .OK ↔ ∃ r ∈ tb.rows, hasID tb id r = true
  /-- The table loses exactly that row. -/
  removed : rc = .OK → ∃ before r behind, tb.rows = before ++ r :: behind ∧
    hasID tb id r = true ∧ c'.db .pending = some { tb with rows := before ++ behind }
  notFound : (∀ r ∈ tb.rows, hasID tb id r = false) →
    rc = .NOT_FOUND ∧ c'.db .pending = some tb
  frame : ∀ t ≠ .pending, c'.db t = c.db t

/-- What it says and does: it answers `OK` whatever is in the table. -/
theorem removeTask_reliable {cur : Task} {id : Int} (hc : c.Reliable)
    (htb : c.db .pending = some tb) (hcol : (tb.colIndex "ID").isSome = true) (hid : id ≠ cur.ID) :
    (removeTask cur id c).1 = .OK ∧
      (removeTask cur id c).2.db = Function.update c.db .pending
        (some { tb with rows := tb.rows.filter fun r => !hasID tb (toInt32 id) r }) := by
  have hcomp : (Sql.delete TableName.pending (some ("ID", .param 1))).compiles c.db = true := by
    simp [Sql.compiles, htb, Table.hasCond, hcol]
  have heval : (Sql.delete TableName.pending (some ("ID", .param 1))).eval c.scan
      (params [.int (toInt32 id)]) c.db = some ([], Function.update c.db .pending
        (some { tb with rows := tb.rows.filter fun r => !hasID tb (toInt32 id) r })) := by
    simp only [Sql.eval, htb, matches_eq_hasID]
  rw [removeTask, removeTaskFromPending, if_neg fun h => hid h.2]
  rcases execute_total (by simp [Sql.ReadOnly]) hcomp heval ErrCode.OS_ERROR .NOT_FOUND .OK with
    ⟨-, -, h⟩ | ⟨-, -, h⟩ | h
  · exact absurd hc h
  · exact absurd hc h
  · exact h

/-- A filter that removes one element removes no other that fails the test. -/
theorem filter_drops_iff {α : Type} {p : α → Bool} {a : α} {before behind : List α} :
    (before ++ a :: behind).filter p = before ++ behind ↔
      p a = false ∧ ∀ b ∈ before ++ behind, p b = true := by
  constructor
  · intro h
    have hall : ∀ b ∈ before ++ behind, p b = true := fun b hb => (List.mem_filter.mp (h ▸ hb)).2
    refine ⟨?_, hall⟩
    by_contra ha
    have hself : (before ++ a :: behind).filter p = before ++ a :: behind := by
      refine List.filter_eq_self.mpr fun b hb => ?_
      rcases List.mem_append.mp hb with hb | hb
      · exact hall b (List.mem_append_left _ hb)
      · rcases List.mem_cons.mp hb with rfl | hb
        · simpa using ha
        · exact hall b (List.mem_append_right _ hb)
    have hlen := congrArg List.length (hself.symm.trans h)
    simp at hlen
  · rintro ⟨ha, hall⟩
    rw [List.filter_append, List.filter_cons_of_neg (by simp [ha]), ← List.filter_append]
    exact List.filter_eq_self.mpr hall

/-- The only element that has a property. -/
theorem eq_append_of_countP {α : Type} {p : α → Bool} {l : List α} (h : l.countP p = 1) :
    ∃ before a behind, l = before ++ a :: behind ∧ p a = true ∧
      ∀ b ∈ before ++ behind, p b = false := by
  obtain ⟨a, ha, hp⟩ := List.countP_pos_iff.mp (h ▸ Nat.one_pos)
  obtain ⟨before, behind, rfl⟩ := List.append_of_mem ha
  rw [List.countP_append, List.countP_cons_of_pos hp, ← Nat.add_assoc, ← List.countP_append] at h
  have hothers := List.countP_eq_zero.mp (Nat.succ.inj h)
  exact ⟨before, a, behind, rfl, hp, fun b hb => by simpa using hothers b hb⟩

/-- **The answer of `removeTask` is right** exactly if one row has the ID, and the ID fits 32 bits.
For a missing row it should be `NOT_FOUND`, and is `OK`. -/
theorem removeTask_truthful_iff {cur : Task} {id : Int} (hc : c.Reliable)
    (htb : c.db .pending = some tb) (hcol : (tb.colIndex "ID").isSome = true) (hid : id ≠ cur.ID) :
    TruthfulRemoval tb id c (removeTask cur id c).2 (removeTask cur id c).1 ↔
      tb.rows.countP (hasID tb id) = 1 ∧ IsInt32 id := by
  obtain ⟨hok, hdb⟩ := removeTask_reliable hc htb hcol hid
  have hpending := congrFun hdb .pending
  rw [Function.update_self] at hpending
  constructor
  · intro h
    obtain ⟨before, r, behind, hrows, hr, hdb'⟩ := h.removed hok
    rw [hpending, hrows] at hdb'
    have hleft : (before ++ r :: behind).filter (fun r => !hasID tb (toInt32 id) r) =
        before ++ behind := congrArg Table.rows (Option.some.inj hdb')
    -- the row that is gone has the ID that was deleted, and no other row has it
    obtain ⟨hgone, hothers⟩ := filter_drops_iff.mp hleft
    have heq : toInt32 id = id := hasID_unique (by simpa using hgone) hr
    rw [heq] at hothers
    refine ⟨?_, heq ▸ toInt32_isInt32 id⟩
    rw [hrows, List.countP_append, List.countP_cons_of_pos hr, ← Nat.add_assoc,
      ← List.countP_append, List.countP_eq_zero.mpr fun b hb => by simpa using hothers b hb]
  · rintro ⟨hone, hint⟩
    obtain ⟨before, r, behind, hrows, hr, hothers⟩ := eq_append_of_countP hone
    rw [toInt32_of_isInt32 hint, hrows,
      filter_drops_iff.mpr ⟨by simp [hr], fun b hb => by simp [hothers b hb]⟩] at hpending
    have hmem : r ∈ tb.rows := hrows ▸ List.mem_append_right _ List.mem_cons_self
    refine ⟨iff_of_true hok ⟨r, hmem, hr⟩, fun _ => ⟨before, r, behind, hrows, hr, hpending⟩,
      fun hno => ?_, fun t ht => ?_⟩
    · rw [hno r hmem] at hr
      cases hr
    · rw [hdb, Function.update_of_ne ht]

/-- A queue in which one task waits, with the ID 3. -/
def waitingThree : Conn TableName := Conn.open (ledgerDB ⟨[addedRow listing 3], [], 4⟩)

theorem removeTask_truthful_waitingThree :
    TruthfulRemoval (taskTable [addedRow listing 3]) 3 waitingThree
      (removeTask Task.blank 3 waitingThree).2 (removeTask Task.blank 3 waitingThree).1 :=
  (removeTask_truthful_iff (by simp [Conn.Reliable, waitingThree, Conn.open]) rfl (by decide)
    (by decide)).mpr (by decide)

theorem remove_missing : (removeTask Task.blank 7 waitingThree).1 = .OK ∧
    ∀ r ∈ (taskTable [addedRow listing 3]).rows,
      hasID (taskTable [addedRow listing 3]) 7 r = false := by
  decide +kernel

/-- **A task that is not there is removed** with success; and with an ID 2^32 above one that is
there, a row goes that was not meant. -/
theorem missing_removed :
    ¬ TruthfulRemoval (taskTable [addedRow listing 3]) 7 waitingThree
        (removeTask Task.blank 7 waitingThree).2 (removeTask Task.blank 7 waitingThree).1 ∧
      (removeTask Task.blank (3 + 2 ^ 32) waitingThree).1 = .OK ∧
      (removeTask Task.blank (3 + 2 ^ 32) waitingThree).2.db .pending = some (taskTable []) := by
  refine ⟨fun h => ?_, by decide +kernel⟩
  obtain ⟨hok, hno⟩ := remove_missing
  obtain ⟨r, hr, hid⟩ := h.ok_iff.mp hok
  rw [hno r hr] at hid
  cases hid

end Answer

end SimpleTaskQueue
