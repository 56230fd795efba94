import SimpleTaskQueue.Refinement.Remote
import SimpleTaskQueue.Refinement.Scan
/-!
# SimpleTaskQueue.Properties.Remote

**Is a remote queue as good as a local one?** The codes agree for every operation but the two
lists: these return `ErrCode_OK` whatever the server says, so that a missing queue looks like an
empty one. The data of a task agree except for `isSuccess`, which stays what it was at the caller.
-/

namespace SimpleTaskQueue

open Sqlite Protos Runs SQLiteQueueList

variable {g : GRPCQueue} {s : SQLiteQueueList} {a : Action} {r : Remote Output}

/-! ### Codes -/

/-- The queue is on the server, and the call that the handler makes on it returns `ErrCode_OK`. -/
def Served (s : SQLiteQueueList) (name : Str) (a : Action) : Prop :=
  ∃ h o q, s.getQueue name = some h ∧ (s.loaded h).step a.served = some (o, q) ∧ o.rc = some .OK

/-- The queue is on the server, the table can be listed, and no SQLite call on the way fails. -/
def CanList (s : SQLiteQueueList) (name : Str) (env : Env) (t : TableName) : Prop :=
  ∃ h tb, s.getQueue name = some h ∧ (s.loaded h).mToken.db t = some tb ∧
    (tb.colIndex "ID").isSome = true ∧ Lasts (tb.rows.length + 2) env.faults

/-- The status of the operation reaches the caller, or is OK anyway. -/
def Reported (s : SQLiteQueueList) (name : Str) : Action → Prop
  | .listPending env => CanList s name env .pending
  | .listFinished env => CanList s name env .done
  | _ => True

/-- `listIDInTable` needs the table, its column, and the calls for the rows. -/
theorem listIDInTable_ok_iff (t : TableName) (c : Conn TableName) :
    (listIDInTable t c).1.1 = .OK ↔ ∃ tb, c.db t = some tb ∧ (tb.colIndex "ID").isSome = true ∧
      Lasts (tb.rows.length + 2) c.faults := by
  simp only [listIDInTable, run_bind, run_pure]
  cases hcomp : (Sql.select t (some ["ID"]) none none).compiles c.db with
  | false =>
      rw [query_of_not_compiles hcomp]
      refine ⟨fun h => (by cases h), fun ⟨tb, htb, hcol, _⟩ => ?_⟩
      simp [Sql.compiles, htb, hcol, Table.hasCond] at hcomp
  | true =>
      obtain ⟨tb, htb, hcol⟩ : ∃ tb, c.db t = some tb ∧ (tb.colIndex "ID").isSome = true := by
        cases htb : c.db t with
        | none => simp [Sql.compiles, htb] at hcomp
        | some tb => exact ⟨tb, rfl, by simpa [Sql.compiles, htb, Table.hasCond] using hcomp⟩
      obtain ⟨rows, heval⟩ := Sql.eval_of_compiles (by trivial) hcomp c.scan (params [])
      have hlen : rows.length = tb.rows.length := by
        simp only [Sql.eval, htb, Table.matches, List.filter_true, Option.some.injEq,
          Prod.mk.injEq] at heval
        rw [← heval.1, List.length_map, (c.scan.perm tb.rows).length_eq]
      have hquery := counted_query hcomp heval
        (fun out row => (out ++ [columnInt row 0], none)) [] ErrCode.OS_ERROR
      rw [rounds_total, hlen, List.length_nil,
        show 1 + (0 + (tb.rows.length + 1)) = tb.rows.length + 2 by omega] at hquery
      by_cases hlast : Lasts (tb.rows.length + 2) c.faults
      · rw [hquery.ok hlast, foldRows_total]
        exact ⟨fun _ => ⟨tb, htb, hcol, hlast⟩, fun _ => rfl⟩
      · rw [hquery.err hlast]
        refine ⟨fun h => (by cases h), fun ⟨tb', htb', _, hlast'⟩ => ?_⟩
        obtain rfl : tb = tb' := Option.some.inj (htb.symm.trans htb')
        exact absurd hlast' hlast

theorem served_iff (h : g.step s a = some r) :
    r.status.ok = true ↔ Served s g.mQueueName a := by
  cases hq : s.getQueue g.mQueueName with
  | none =>
      rw [(remote_none h hq).1]
      refine ⟨fun h => (by cases h), fun ⟨hd, _, _, hq', _⟩ => ?_⟩
      rw [hq] at hq'
      cases hq'
  | some hd =>
      obtain ⟨o, q, rc, hstep, hrc, hok, -⟩ := remote_some h hq
      rw [hok]
      refine ⟨fun hrc' => ⟨hd, o, q, hq, hstep, hrc' ▸ hrc⟩, ?_⟩
      rintro ⟨hd', o', q', hq', hstep', hrc'⟩
      obtain rfl : hd = hd' := Option.some.inj (hq.symm.trans hq')
      obtain ⟨rfl, rfl⟩ := Prod.mk.inj (Option.some.inj (hstep.symm.trans hstep'))
      exact Option.some.inj (hrc.symm.trans hrc')

/-- An operation that lists a table. -/
theorem served_list {env : Env} {t : TableName} (s : SQLiteQueueList) (name : Str)
    (ha : ∀ q : SQLiteQueue, ∃ ids q', q.step a.served =
      some (.ids (listIDInTable t (q.mToken.given env)).1.1 ids, q')) :
    Served s name a ↔ CanList s name env t := by
  constructor
  · rintro ⟨hd, o, q, hq, hstep, hrc⟩
    obtain ⟨ids, q', hlist⟩ := ha (s.loaded hd)
    obtain ⟨rfl, rfl⟩ := Prod.mk.inj (Option.some.inj (hlist.symm.trans hstep))
    obtain ⟨tb, htb, hcol, hlast⟩ := (listIDInTable_ok_iff t _).mp (Option.some.inj hrc)
    exact ⟨hd, tb, hq, htb, hcol, hlast⟩
  · rintro ⟨hd, tb, hq, htb, hcol, hlast⟩
    obtain ⟨ids, q', hlist⟩ := ha (s.loaded hd)
    exact ⟨hd, _, q', hq, hlist,
      congrArg some ((listIDInTable_ok_iff t _).mpr ⟨tb, htb, hcol, hlast⟩)⟩

theorem reported_iff (s : SQLiteQueueList) (name : Str) (a : Action) :
    Reported s name a ↔ a.isList = false ∨ Served s name a := by
  cases a with
  | listPending env | listFinished env =>
      simp only [Reported, Action.isList, Bool.true_eq_false, false_or]
      exact (served_list s name fun q => ⟨_, _, rfl⟩).symm
  | _ => exact ⟨fun _ => .inl rfl, fun _ => trivial⟩

/-- **Who gets to know what.** For every server and every operation that returns a code: the
client's code is `ErrCode_OK` exactly when the handler's status is, and this exactly when the queue
is there and the call on it returned `ErrCode_OK`, if and only if the operation is not a list that
fails. -/
theorem remote_success_iff (h : g.step s a = some r) :
    ((r.out.rc = some .OK ↔ r.status.ok = true) ∧
      (r.status.ok = true ↔ Served s g.mQueueName a)) ↔ Reported s g.mQueueName a := by
  rw [reported_iff, ← served_iff h, remote_rc h]
  cases a.isList <;> cases r.status.ok <;> simp

/-- A queue with one task. -/
def oneQueue : List ListAction :=
  [.createQueue .ok "a".toList, .call "a".toList (.addTask .rowid listing)]

theorem oneQueue_runs : (script SQLiteQueueList.step anyAction emptyList oneQueue).isSome := by
  decide +kernel

/-- The server with this queue. -/
def oneQueueServer : SQLiteQueueList :=
  ((script SQLiteQueueList.step anyAction emptyList oneQueue).get oneQueue_runs).2

/-- The remote queue of a name. -/
def remoteA : GRPCQueue := ⟨"a".toList⟩

theorem remote_success_iff_listPending :
    let r := (remoteA.step oneQueueServer (.listPending .rowid)).get rfl
    ((r.out.rc = some .OK ↔ r.status.ok = true) ∧
      (r.status.ok = true ↔ Served oneQueueServer "a".toList (.listPending .rowid))) ↔
      Reported oneQueueServer "a".toList (.listPending .rowid) :=
  remote_success_iff (Option.some_get _).symm

/-- A queue is created and deleted. -/
def goneQueue : List ListAction :=
  [.createQueue .ok "a".toList, .deleteQueue "a".toList]

theorem goneQueue_runs : (script SQLiteQueueList.step anyAction emptyList goneQueue).isSome := by
  decide +kernel

/-- A client that still has the name of a deleted queue is told that nothing waits in it; and so is
one whose queue has a task, when SQLite fails on the server. -/
theorem missing_listed_as_empty :
    (∃ es s, Run SQLiteQueueList.step anyAction emptyList es s ∧
      (remoteA.step s (.listPending .rowid)).map (fun r => (r.status, r.out)) =
        some (⟨.NOT_FOUND, "Fail to get queue".toList⟩, .ids .OK [])) ∧
    ∃ es s, Run SQLiteQueueList.step anyAction emptyList es s ∧
      (remoteA.step s (.listPending ⟨[true], .rowid⟩)).map (fun r => (r.status, r.out)) =
        some (⟨.INTERNAL, "Fail to list pending".toList⟩, .ids .OK []) :=
  ⟨⟨_, _, Run.of_script goneQueue_runs, by decide +kernel⟩,
    ⟨_, _, Run.of_script oneQueue_runs, by decide +kernel⟩⟩

/-! ### Tasks -/

/-- The output argument of the operations that give a task. -/
def Action.out : Action → Option Task
  | pendingDetails _ _ out | finishedDetails _ _ out | currentTask out => some out
  | _ => none

/-- What becomes of a task on its way. -/
theorem buildTask_buildTaskDetailsRes (u out : Task) :
    GRPCQueue.buildTask (QueueImpl.buildTaskDetailsRes u) out =
      { u with exitCode := toInt32 u.exitCode, ID := toInt32 u.ID, isSuccess := out.isSuccess } :=
  rfl

theorem buildTask_eq_iff {u out : Task} (hID : IsInt32 u.ID) (hexit : IsInt32 u.exitCode) :
    GRPCQueue.buildTask (QueueImpl.buildTaskDetailsRes u) out = u ↔
      out.isSuccess = u.isSuccess := by
  rw [buildTask_buildTaskDetailsRes, toInt32_of_isInt32 hID, toInt32_of_isInt32 hexit]
  obtain ⟨execName, args, workDir, ID, exitCode, isSuccess⟩ := u
  simp only [Task.mk.injEq, true_and]

/-- When `taskDetails` finds a task, what was in the output argument before is gone. -/
theorem taskDetails_rel (name : TableName) (id : Int) (out out' : Task) (c : Conn TableName) :
    (taskDetails name (toInt32 id) out c).1.1 = (taskDetails name id out' c).1.1 ∧
      ((taskDetails name id out' c).1.1 = .OK →
        (taskDetails name (toInt32 id) out c).1.2 = (taskDetails name id out' c).1.2) := by
  -- the loops count the same rows, and the last row fills both arguments
  let R (p p' : Task × Nat) : Prop := p.2 = p'.2 ∧ (p.2 ≠ 0 → p.1 = p'.1)
  have hid : toInt32 (toInt32 id) = toInt32 id := toInt32_of_isInt32 (toInt32_isInt32 id)
  obtain ⟨⟨hcount, htask⟩, hstop, -⟩ := query_rel (R := R) (s := (out, 0)) (t := (out', 0))
    (f := fun s row => ((taskOfRecord row, s.2 + 1), none))
    (g := fun s row => ((taskOfRecord row, s.2 + 1), none))
    (fun _ h => ⟨⟨congrArg (· + 1) h.1, fun _ => rfl⟩, rfl⟩)
    (.select name none (some ("ID", .param 1)) none) [.int (toInt32 id)] ErrCode.OS_ERROR
    ⟨rfl, fun h => absurd rfl h⟩ c
  have herror := query_error (q := .select name none (some ("ID", .param 1)) none)
    (by trivial) [.int (toInt32 id)] (fun s row => (taskOfRecord row, s.2 + 1)) (out', 0)
    ErrCode.OS_ERROR c
  simp only [taskDetails, run_bind, hid]
  revert hcount htask hstop herror
  generalize query (N := TableName) _ _ _ (out, 0) _ c = r
  generalize query (N := TableName) _ _ _ (out', 0) _ c = r'
  obtain ⟨⟨⟨u, n⟩, stop⟩, c₁⟩ := r
  obtain ⟨⟨⟨u', n'⟩, stop'⟩, c₁'⟩ := r'
  dsimp only
  rintro rfl htask rfl herror
  cases stop with
  | some e =>
      obtain rfl := herror e rfl
      exact ⟨rfl, fun h => by cases h⟩
  | none =>
      by_cases hn : n = 0
      · simp only [hn, if_true, run_pure]
        exact ⟨trivial, fun h => by cases h⟩
      · simp only [hn, if_false, run_pure]
        exact ⟨trivial, fun _ => htask hn⟩

/-- A remote operation that gives a task, when it succeeds. -/
theorem unary_details {s : SQLiteQueueList} {name : Str} {msg : String} {out t : Task}
    {call : SQLiteQueue → (ErrCode × Task) × SQLiteQueue}
    (h : (Remote.unary (QueueImpl.handle s name call Prod.fst msg fun r =>
      QueueImpl.buildTaskDetailsRes r.2) (GRPCQueue.buildTask · out) out).out = (.OK, t)) :
    ∃ hd, s.getQueue name = some hd ∧ (call (s.loaded hd)).1.1 = .OK ∧
      t = GRPCQueue.buildTask (QueueImpl.buildTaskDetailsRes (call (s.loaded hd)).1.2) out := by
  simp only [Remote.unary] at h
  split at h
  · next hok =>
    obtain ⟨-, rfl⟩ := Prod.mk.inj h
    cases hq : s.getQueue name with
    | none =>
        rw [(handle_none hq).1] at hok
        cases hok
    | some hd =>
        have hrc := (handle_ok hq).mp hok
        exact ⟨hd, rfl, hrc, by rw [handle_res hq hrc]⟩
  · cases (Prod.mk.inj h).1

/-- A remote operation that gives a task: the served call gave one, and it was copied. -/
theorem remote_details {out t : Task} (ha : a.out = some out) (h : g.step s a = some r)
    (hr : r.out = .task .OK t) :
    ∃ hd u q, s.getQueue g.mQueueName = some hd ∧
      (s.loaded hd).step a.served = some (.task .OK u, q) ∧
      t = GRPCQueue.buildTask (QueueImpl.buildTaskDetailsRes u) out := by
  cases a with
  | pendingDetails env id o | finishedDetails env id o | currentTask o =>
      obtain rfl := Option.some.inj ha
      obtain rfl := Option.some.inj h
      obtain ⟨hcode, htask⟩ := Output.task.inj hr
      obtain ⟨hd, hq, hrc, rfl⟩ := unary_details (Prod.ext hcode htask)
      exact ⟨hd, _, _, hq, congrArg (fun rc => some (Output.task rc _, _)) hrc, rfl⟩
  | _ => cases ha

/-- A served call that gives a task gives the one which the caller's own call gives. -/
theorem step_of_served {q q' : SQLiteQueue} {out u : Task} (ha : a.out = some out)
    (h : q.step a.served = some (.task .OK u, q')) : ∃ q'', q.step a = some (.task .OK u, q'') := by
  cases a with
  | pendingDetails env id o | finishedDetails env id o =>
      obtain ⟨hcode, htask⟩ := taskDetails_rel _ id Task.blank o (q.mToken.given env)
      obtain ⟨hout, -⟩ := Prod.mk.inj (Option.some.inj h)
      obtain ⟨hrc, rfl⟩ := Output.task.inj hout
      have hok := hcode.symm.trans hrc
      exact ⟨_, congrArg₂ (fun rc u => some (Output.task rc u, _)) hok (htask hok).symm⟩
  | currentTask o =>
      simp only [Action.served, SQLiteQueue.step, SQLiteQueue.currentTask] at h ⊢
      cases hrun : q.mIsRunning with
      | false => simp [hrun] at h
      | true =>
          simp only [hrun, Bool.not_true, Bool.false_eq_true, if_false, Option.some.injEq,
            Prod.mk.injEq, Output.task.injEq, true_and] at h ⊢
          exact ⟨q, h.1, rfl⟩
  | _ => cases ha

/-- **The task a remote caller gets.** Whenever a remote operation that gives a task returns
`ErrCode_OK`, the same call on the queue of the server does. If its integers fit into 32 bits the
two tasks are the same if and only if the output argument had the `isSuccess` of the task before. -/
theorem remote_task_iff {out t : Task} (ha : a.out = some out) (h : g.step s a = some r)
    (hr : r.out = .task .OK t) :
    ∃ hd u q, s.getQueue g.mQueueName = some hd ∧ (s.loaded hd).step a = some (.task .OK u, q) ∧
      (IsInt32 u.ID → IsInt32 u.exitCode → (t = u ↔ out.isSuccess = u.isSuccess)) := by
  obtain ⟨hd, u, q, hq, hserved, rfl⟩ := remote_details ha h hr
  obtain ⟨q', hstep⟩ := step_of_served ha hserved
  exact ⟨hd, u, q', hq, hstep, buildTask_eq_iff⟩

theorem remote_task_iff_pendingDetails :
    ∃ hd u q, oneQueueServer.getQueue "a".toList = some hd ∧
      (oneQueueServer.loaded hd).step (.pendingDetails .rowid 0 Task.blank) =
        some (.task .OK u, q) ∧
      (IsInt32 u.ID → IsInt32 u.exitCode →
        (listing = u ↔ Task.blank.isSuccess = u.isSuccess)) :=
  remote_task_iff (g := remoteA) rfl (Option.some_get rfl).symm (by decide +kernel)

/-- An output argument that was used before. -/
def usedOut : Task := { Task.blank with isSuccess := true }

/-- The remote queue leaves the flag of the argument in the task, the queue of the server does
not. -/
theorem remote_keeps_isSuccess :
    ∃ es s, Run SQLiteQueueList.step anyAction emptyList es s ∧
      (remoteA.step s (.pendingDetails .rowid 0 usedOut)).map Remote.out =
        some (.task .OK { listing with isSuccess := true }) ∧
      ((s.getQueue "a".toList).bind fun hd =>
        ((s.loaded hd).step (.pendingDetails .rowid 0 usedOut)).map Prod.fst) =
          some (.task .OK listing) :=
  ⟨_, _, Run.of_script oneQueue_runs, by decide +kernel, by decide +kernel⟩

end SimpleTaskQueue
