import SimpleTaskQueue.Model.Dao.SQLiteQueue.File
import SimpleTaskQueue.Refinement.OpeningCalls
import SimpleTaskQueue.Refinement.Tracking
/-!
# SimpleTaskQueue.Refinement.File

A database file that `connectToDB` created **holds a ledger ever after**, wherever the program
stops. Only `addTask` touches the counter: it hands out the stored value and moves it on, or it
fails, and then the counter may have moved on all the same (`CounterStep`).

A run of the machine of `SQLiteQueue` is a run of its file (`run_file`), so what is shown here
holds of every interleaving of clients and workers.
-/

namespace SimpleTaskQueue

open Sqlite Sqlite.Conn Runs

/-- The content is a ledger whose counter stands at `n`. -/
def Stored (n : Int) (db : QueueDB) : Prop := ∃ L : QueueLedger, db = ledgerDB L ∧ L.next = n

/-- The value in `lastID`, if there is exactly one. -/
def storedID (db : QueueDB) : Option Int :=
  match db .lastID with
  | some ⟨_, [[.int n]]⟩ => some n
  | _ => none

variable {n m : Int} {db : QueueDB} {c : Conn TableName}

theorem Stored.storedID (h : Stored n db) : storedID db = some n := by
  obtain ⟨L, rfl, rfl⟩ := h
  rfl

theorem accepted_ledgerDB (L : QueueLedger) : Accepted (ledgerDB L) := by
  have htask : TaskTable ⟨taskColumns, []⟩ := by decide
  have hid : IDTable ⟨lastIDColumns, [[.int 0]]⟩ := by decide
  -- the checks look at the columns, and at the number of rows of `lastID`
  exact ⟨⟨_, rfl, htask⟩, ⟨_, rfl, htask⟩, ⟨_, rfl, hid⟩⟩

/-! ### Operations that leave the counter alone -/

theorem keeps_clearTable {name : TableName} (hname : name ≠ .lastID) :
    Keeps (Stored n) (clearTable name) := by
  refine keeps_execute (by simp [Sql.ReadOnly]) _ _ _ fun scan db db' hs he => ?_
  obtain ⟨L, rfl, hn⟩ := hs
  cases name with
  | pending =>
      rw [eval_deleteAll scan (ledgerDB_pending L), update_pending] at he
      cases he
      exact ⟨_, rfl, hn⟩
  | done =>
      rw [eval_deleteAll scan (ledgerDB_done L), update_done] at he
      cases he
      exact ⟨_, rfl, hn⟩
  | lastID => exact absurd rfl hname

theorem keeps_listIDInTable (name : TableName) : Keeps (Stored n) (listIDInTable name) :=
  (keeps_query (by trivial) _ _ _).bind fun _ _ => keeps_pure _

theorem keeps_taskDetails (name : TableName) (id : Int) (out : Task) :
    Keeps (Stored n) (taskDetails name id out) := by
  refine (keeps_query (by trivial) _ _ _).bind fun _ _ => ?_
  split
  · exact keeps_pure _
  · split <;> exact keeps_pure _

theorem keeps_addTaskToTable {name : TableName} (hname : name ≠ .lastID) (t : Task) :
    Keeps (Stored n) (addTaskToTable name t) := by
  refine keeps_execute (by simp [Sql.ReadOnly]) _ _ _ fun scan db db' hs he => ?_
  obtain ⟨L, rfl, hn⟩ := hs
  cases name with
  | pending =>
      rw [eval_insertTask scan (ledgerDB_pending L), update_pending] at he
      split at he
      · cases he
        exact ⟨_, rfl, hn⟩
      · cases he
  | done =>
      rw [eval_insertTask scan (ledgerDB_done L), update_done] at he
      split at he
      · cases he
        exact ⟨_, rfl, hn⟩
      · cases he
  | lastID => exact absurd rfl hname

theorem keeps_removeTaskFromPending (cur : Task) (id : Int) (check : Bool) :
    Keeps (Stored n) (removeTaskFromPending cur id check) := by
  unfold removeTaskFromPending
  split
  · exact keeps_pure _
  · refine keeps_execute (by simp [Sql.ReadOnly]) _ _ _ fun scan db db' hs he => ?_
    obtain ⟨L, rfl, hn⟩ := hs
    rw [eval_deleteID scan (ledgerDB_pending L), update_pending] at he
    cases he
    exact ⟨_, rfl, hn⟩

theorem keeps_mainLoopInit : Keeps (Stored n) mainLoopInit := by
  intro c hs
  obtain ⟨L, hdb, hn⟩ := hs
  obtain ⟨hdb', hfin, -⟩ := mainLoopInit_spec hdb
  exact ⟨⟨L, hdb', hn⟩, hfin.since.mono fun d hd => ⟨L, hd, hn⟩⟩

theorem keeps_mainLoopFin (cur : Task) (exitCode : Option Int) :
    Keeps (Stored n) (mainLoopFin cur exitCode) := by
  cases exitCode with
  | none => exact keeps_pure _
  | some k =>
      refine (keeps_removeTaskFromPending cur cur.ID false).bind fun _ _ => ?_
      split
      · exact keeps_pure _
      · refine (keeps_addTaskToTable (by decide) _).bind fun _ _ => ?_
        split <;> exact keeps_pure _

/-- Every operation but `addTask` keeps the counter, at each of its SQLite calls. -/
theorem keeps_operation {op : Operation} (hop : op.isAddTask = false) :
    Keeps (Stored n) op.run := by
  cases op with
  | addTask t => cases hop
  | listPending | listFinished => exact (keeps_listIDInTable _).bind fun _ _ => keeps_pure _
  | pendingDetails id out | finishedDetails id out =>
      exact (keeps_taskDetails _ id out).bind fun _ _ => keeps_pure _
  | clearPending | clearFinished =>
      exact (keeps_clearTable (by decide)).bind fun _ _ => keeps_pure _
  | removeTask cur id =>
      exact (keeps_removeTaskFromPending cur id true).bind fun _ _ => keeps_pure _
  | mainLoopInit => exact keeps_mainLoopInit.bind fun _ _ => keeps_pure _
  | mainLoopFin cur exitCode =>
      exact (keeps_mainLoopFin cur exitCode).bind fun _ _ => keeps_pure _

/-! ### `addTask` -/

/-- **`addTask`** on a stored counter: the counter stays or moves on, at every SQLite call, and a
task that was added got the stored value. -/
theorem addTask_stored (hs : Stored n c.db) (hn : IsInt32 n) (t : Task) :
    let r := addTask t c
    Since (fun d => Stored n d ∨ Stored (nextID n) d) c r.2 ∧
      (r.1.1 ≠ .OK ∧ (Stored n r.2.db ∨ Stored (nextID n) r.2.db) ∨
        r.1 = (.OK, { t with ID := n }) ∧ Stored (nextID n) r.2.db) := by
  intro r
  obtain ⟨L, hdb, rfl⟩ := hs
  obtain ⟨hres, hfin⟩ := addTask_spec hdb hn t
  have hL : Stored L.next (ledgerDB L) := ⟨L, rfl, rfl⟩
  have hskip : Stored (nextID L.next) (ledgerDB (L.skip (nextID L.next))) := ⟨_, rfl, rfl⟩
  have hcase : r.1.1 ≠ .OK ∧ (Stored L.next r.2.db ∨ Stored (nextID L.next) r.2.db) ∨
      r.1 = (.OK, { t with ID := L.next }) ∧ Stored (nextID L.next) r.2.db := by
    rcases hres with ⟨h, hd, -⟩ | ⟨h, hd, -⟩ | ⟨h, hd, -⟩
    · exact .inl ⟨h, .inl ⟨L, hd, rfl⟩⟩
    · exact .inl ⟨h, .inr ⟨_, hd, rfl⟩⟩
    · exact .inr ⟨h, _, hd, rfl⟩
  have hlast : Stored L.next r.2.db ∨ Stored (nextID L.next) r.2.db :=
    hcase.elim (fun h => h.2) fun h => .inr h.2
  refine ⟨hfin.since.mono fun d hd => ?_, hcase⟩
  rcases hd with rfl | rfl | rfl
  · exact .inl hL
  · exact .inr hskip
  · exact hlast

/-! ### Steps and runs of the file -/

/-- What holds at every SQLite call of a computation holds wherever it is cut off. -/
theorem forall_contents {β : Type} {m : QueueM β} {P : QueueDB → Prop} (hc : P c.db)
    (h : Since P { c with trace := [] } (m { c with trace := [] }).2) :
    ∀ d ∈ contents m c, P d := by
  obtain ⟨new, htrace, hnew⟩ := h
  intro d hd
  rw [contents, htrace] at hd
  simp only [List.append_nil, List.mem_cons, List.mem_reverse, List.mem_map] at hd
  obtain rfl | ⟨e, he, rfl⟩ := hd
  · exact hc
  · exact hnew e he

/-- The ID a step handed out. -/
def issuedID : FileAction × FileOutput → Option Int
  | (.call _ (.addTask _), .returned (.task .OK t)) => some t.ID
  | _ => none

/-- What a step can do to the counter. -/
inductive CounterStep (n : Int) : FileAction → FileOutput → Int → Prop
  | same {a : FileAction} {o : FileOutput} (h : issuedID (a, o) = none) : CounterStep n a o n
  | skipped {a : FileAction} {o : FileOutput} (ha : a.isAddTask = true)
      (h : issuedID (a, o) = none) : CounterStep n a o (nextID n)
  | issued {env : Env} {t : Task} : CounterStep n (.call env (.addTask t))
      (.returned (.task .OK { t with ID := n })) (nextID n)

/-- The counter after a step is a 32-bit `int` again. -/
theorem CounterStep.isInt32 {a : FileAction} {o : FileOutput} (h : CounterStep n a o m)
    (hn : IsInt32 n) : IsInt32 m := by
  cases h with
  | same => exact hn
  | skipped | issued => exact toInt32_isInt32 _

theorem Operation.eq_addTask {op : Operation} (h : op.isAddTask = true) :
    ∃ t, op = .addTask t := by
  cases op with
  | addTask t => exact ⟨t, rfl⟩
  | listPending | listFinished | pendingDetails | finishedDetails | clearPending | clearFinished
  | removeTask | mainLoopInit | mainLoopFin => cases h

namespace QueueFile

variable {f f₀ u : QueueFile} {a : FileAction} {o : FileOutput}
  {es : List (FileAction × FileOutput)}

/-- An operation, perhaps cut off. -/
theorem operation_stored (hs : Stored n c.db) (hn : IsInt32 n) (op : Operation) :
    ∀ d ∈ contents op.run c, Stored n d ∨ op.isAddTask = true ∧ Stored (nextID n) d := by
  cases hop : op.isAddTask with
  | false =>
      intro d hd
      refine .inl (forall_contents hs ?_ d hd)
      exact (keeps_operation hop { c with trace := [] } hs).2
  | true =>
      obtain ⟨t, rfl⟩ := Operation.eq_addTask hop
      refine forall_contents (.inl hs) ?_
      refine (addTask_stored (c := { c with trace := [] }) hs hn t).1.mono fun d hd => ?_
      exact hd.imp_right fun h => ⟨rfl, h⟩

/-- An operation that comes to its end. -/
theorem call_stored (hs : Stored n c.db) (hn : IsInt32 n) (op : Operation) (env : Env) :
    ∃ m, Stored m (op.run c).2.db ∧ CounterStep n (.call env op) (.returned (op.run c).1) m := by
  cases hop : op.isAddTask with
  | false =>
      refine ⟨n, (keeps_operation hop c hs).1, .same ?_⟩
      cases op <;> first | rfl | cases hop
  | true =>
      obtain ⟨t, rfl⟩ := Operation.eq_addTask hop
      obtain ⟨-, ⟨hrc, hst⟩ | ⟨hres, hst⟩⟩ := addTask_stored hs hn t
      · have hnone : issuedID (.call env (.addTask t),
            .returned ((Operation.addTask t).run c).1) = none := by
          simp only [Operation.run, run_bind, run_pure]
          generalize addTask t c = r at hrc
          obtain ⟨⟨rc, t'⟩, c'⟩ := r
          cases rc <;> first | rfl | exact absurd rfl hrc
        rcases hst with hst | hst
        · exact ⟨n, hst, .same hnone⟩
        · exact ⟨_, hst, .skipped rfl hnone⟩
      · refine ⟨_, hst, ?_⟩
        simp only [Operation.run, run_bind, run_pure, hres]
        exact .issued

/-- Opening a file that holds a ledger, perhaps cut off. -/
theorem open_stored (hs : Stored n db) (opens : Bool) (env : Env) :
    Stored n (connectToDB opens ((Conn.open db).given env)).2.db ∧
      ∀ d ∈ contents (connectToDB opens) ((Conn.open db).given env), Stored n d := by
  have hsome : ∀ name, (db name).isSome = true := by
    obtain ⟨L, rfl, -⟩ := hs
    intro name
    cases name <;> rfl
  constructor
  · rw [(keeps_connectToDB hsome opens ((Conn.open db).given env) rfl).1]
    exact hs
  · intro d hd
    have hsame := forall_contents (c := (Conn.open db).given env) (P := (· = db)) rfl
      (keeps_connectToDB hsome opens _ rfl).2 d hd
    exact hsame ▸ hs

/-- **Step lemma.** The file goes on holding a ledger. -/
theorem step_stored (hs : Stored n f.content) (hn : IsInt32 n) (h : f.step a = some (o, u)) :
    ∃ m, Stored m u.content ∧ CounterStep n a o m := by
  cases f with
  | closed db =>
      cases a with
      | connectToDB env opens =>
          simp only [step, Option.some.injEq, Prod.mk.injEq] at h
          obtain ⟨rfl, rfl⟩ := h
          have hst := (open_stored hs opens env).1
          refine ⟨n, ?_, .same rfl⟩
          split <;> exact hst
      | dieOpening env k =>
          simp only [step, Option.map_eq_some_iff, Prod.mk.injEq] at h
          obtain ⟨d, hd, rfl, rfl⟩ := h
          exact ⟨n, (open_stored hs true env).2 d (List.mem_of_getElem? hd), .same rfl⟩
      | call | close | die => cases h
  | opened token =>
      cases a with
      | call env op =>
          simp only [step, Option.some.injEq, Prod.mk.injEq] at h
          obtain ⟨rfl, rfl⟩ := h
          exact call_stored (c := token.given env) hs hn op env
      | close =>
          cases h
          exact ⟨n, hs, .same rfl⟩
      | die env op k =>
          simp only [step, Option.map_eq_some_iff, Prod.mk.injEq] at h
          obtain ⟨d, hd, rfl, rfl⟩ := h
          rcases operation_stored (c := token.given env) hs hn op d (List.mem_of_getElem? hd) with
            hst | ⟨hadd, hst⟩
          · exact ⟨n, hst, .same rfl⟩
          · exact ⟨_, hst, .skipped hadd rfl⟩
      | connectToDB | dieOpening => cases h

theorem step_connectToDB {env : Env} {opens : Bool} {rc : Nat}
    (hrc : (connectToDB opens ((Conn.open db).given env)).1 = rc)
    (hc : (connectToDB opens ((Conn.open db).given env)).2 = c) :
    step (closed db) (.connectToDB env opens) =
      some (.connected rc, if rc = 0 then opened c else closed c.db) := by
  subst hrc hc
  rfl

theorem Created.stored (h : Created f) : Stored 0 f.content := by
  obtain ⟨env, hstep⟩ := h
  simp only [step_connectToDB rfl rfl, Option.some.injEq, Prod.mk.injEq,
    FileOutput.connected.injEq] at hstep
  obtain ⟨hrc, rfl⟩ := hstep
  rw [if_pos hrc]
  obtain ⟨hacc, hsame | ⟨-, hfresh⟩⟩ := connectToDB_spec _ hrc
  · exact absurd hsame hacc.ne_emptyDB
  · refine ⟨emptyLedger, hfresh.trans ?_, rfl⟩
    funext t
    cases t <;> rfl

/-- **Run lemma.** Whatever happens to a file that holds a ledger, it goes on holding one. -/
theorem run_stored (hs : Stored n f₀.content) (hn : IsInt32 n) (h : Run step anyAction f₀ es f) :
    ∃ m, Stored m f.content ∧ IsInt32 m :=
  h.invariant (I := fun f => ∃ m, Stored m f.content ∧ IsInt32 m) ⟨n, hs, hn⟩
    fun _ _ _ _ hI _ hstep => by
      obtain ⟨m, hst, hm⟩ := hI
      obtain ⟨k, hk, hc⟩ := step_stored hst hm hstep
      exact ⟨k, hk, hc.isInt32 hm⟩

theorem Created.run_stored (h₀ : Created f₀) (h : Run step anyAction f₀ es f) :
    ∃ n, Stored n f.content ∧ IsInt32 n :=
  QueueFile.run_stored h₀.stored (by decide) h

/-- A run without `addTask` keeps the counter. -/
theorem run_stored_same (hs : Stored n f₀.content) (hn : IsInt32 n)
    (h : Run step (fun _ a => a.isAddTask = false) f₀ es f) : Stored n f.content :=
  h.invariant (I := fun f => Stored n f.content) hs fun _ _ _ _ hI ha hstep => by
    obtain ⟨m, hm, hc⟩ := step_stored hI hn hstep
    cases hc with
    | same => exact hm
    | skipped hadd =>
        rw [ha] at hadd
        cases hadd
    | issued => cases ha

end QueueFile

/-! ### The file of a queue -/

namespace SQLiteQueue

variable {q u : SQLiteQueue} {a : Action} {o : Output} {es : List (Action × Output)}

/-- What a step of the machine runs on the file. -/
def fileEvents (q : SQLiteQueue) : Action × Output → List (FileAction × FileOutput)
  | (.listPending env, o) => [(.call env .listPending, .returned o)]
  | (.listFinished env, o) => [(.call env .listFinished, .returned o)]
  | (.pendingDetails env id out, o) => [(.call env (.pendingDetails id out), .returned o)]
  | (.finishedDetails env id out, o) => [(.call env (.finishedDetails id out), .returned o)]
  | (.clearPending env, o) => [(.call env .clearPending, .returned o)]
  | (.clearFinished env, o) => [(.call env .clearFinished, .returned o)]
  | (.addTask env t, o) => [(.call env (.addTask t), .returned o)]
  | (.removeTask env id, o) => [(.call env (.removeTask q.mCurrentTask id), .returned o)]
  | (.worker _ (.init env), o) => [(.call env .mainLoopInit, .returned o)]
  | (.worker _ (.fin env exitCode), o) =>
    [(.call env (.mainLoopFin q.mCurrentTask exitCode), .returned o)]
  | _ => []

theorem step_file (h : q.step a = some (o, u)) :
    Run QueueFile.step anyAction (.opened q.mToken) (q.fileEvents (a, o)) (.opened u.mToken) := by
  cases a with
  | worker i w =>
      obtain ⟨pc, pc', q', hpc, hl, rfl⟩ := step_worker h
      cases hl with
      | init env =>
          rcases q.runInit_cases env with ⟨-, hr⟩ | ⟨t, -, hr⟩ | ⟨-, hr⟩ <;> rw [hr] <;>
            exact .single trivial rfl
      | fin env exitCode | finFailed env exitCode => exact .single trivial rfl
      | test | startProcess | poll | clearStart | clearRunning => exact .nil
  | start | stop =>
      simp only [step, Option.some.injEq, Prod.mk.injEq] at h
      obtain ⟨-, rfl⟩ := h
      simp only [SQLiteQueue.start, stopImpl]
      split <;> exact .nil
  | currentTask =>
      simp only [step, Option.some.injEq, Prod.mk.injEq] at h
      obtain ⟨-, rfl⟩ := h
      exact .nil
  | listPending | listFinished | pendingDetails | finishedDetails | clearPending | clearFinished
  | addTask | removeTask =>
      simp only [step, Option.some.injEq, Prod.mk.injEq] at h
      obtain ⟨rfl, rfl⟩ := h
      exact .single trivial rfl

/-- **Refinement.** A run of a queue is a run of its file. -/
theorem run_file (h : Run step anyAction q es u) :
    ∃ es', Run QueueFile.step anyAction (.opened q.mToken) es' (.opened u.mToken) := by
  induction h with
  | nil => exact ⟨[], .nil⟩
  | snoc _ _ hs ih =>
      obtain ⟨es', hrun⟩ := ih
      exact ⟨_, hrun.append (step_file hs)⟩

theorem created_fresh : QueueFile.Created (.opened fresh.mToken) := by
  have hrc : (connectToDB true (Conn.open emptyDB)).1 = 0 := by decide +kernel
  have htoken : (connectToDB true (Conn.open emptyDB)).2 = newToken := rfl
  simp only [fresh]
  exact ⟨Env.rowid, QueueFile.step_connectToDB hrc htoken⟩

/-- **Run lemma.** In every interleaving, with any number of workers, the database holds a
ledger. -/
theorem run_ledger (h : Run step anyAction fresh es u) :
    ∃ L, u.mToken.db = ledgerDB L ∧ IsInt32 L.next := by
  obtain ⟨es', hrun⟩ := run_file h
  obtain ⟨n, ⟨L, hL, rfl⟩, hn⟩ := created_fresh.run_stored hrun
  exact ⟨L, hL, hn⟩

end SQLiteQueue

end SimpleTaskQueue
