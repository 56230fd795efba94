import SimpleTaskQueue.Core.SqliteCounts
import SimpleTaskQueue.Model.Dao.GRPCQueue
/-!
# SimpleTaskQueue.Refinement.Remote

**A remote operation is a call on the queue of the server.** The handler looks the queue up and
makes one call on it, with what the request can carry (`Action.served`). The lemmas say what the
client then gets: of the status in every case, of the data in case of success.
-/

namespace SimpleTaskQueue

open Sqlite Protos

/-- The code an operation returns. -/
def Output.rc : Output → Option ErrCode
  | .code rc | .ids rc _ | .task rc _ => some rc
  | _ => none

namespace Action

/-- The call the handler makes for an operation of the client: integers are cut to 32 bits, and
what a request does not carry has its default. -/
def served : Action → Action
  | pendingDetails env id _ => pendingDetails env (toInt32 id) Task.blank
  | finishedDetails env id _ => finishedDetails env (toInt32 id) Task.blank
  | currentTask _ => currentTask Task.blank
  | addTask env t =>
    addTask env { Task.blank with execName := t.execName, workDir := t.workDir, args := t.args }
  | removeTask env id => removeTask env (toInt32 id)
  | a => a

def isList : Action → Bool
  | listPending _ | listFinished _ => true
  | _ => false

end Action

variable {g : GRPCQueue} {s : SQLiteQueueList} {a : Action} {r : Remote Output} {name : Str}
  {hd : Handle}

section Handle

variable {β ρ : Type} [Inhabited ρ] {call : SQLiteQueue → β × SQLiteQueue} {code : β → ErrCode}
  {msg : String} {build : β → ρ}

theorem handle_none (h : s.getQueue name = none) :
    (QueueImpl.handle s name call code msg build).1.status.ok = false ∧
      (QueueImpl.handle s name call code msg build).2 = s := by
  simp only [QueueImpl.handle, h]
  exact ⟨rfl, trivial⟩

theorem handle_some (h : s.getQueue name = some hd) :
    QueueImpl.handle s name call code msg build =
      (if code (call (s.loaded hd)).1 ≠ .OK then
          ⟨toGRPCStatus (code (call (s.loaded hd)).1) msg.toList, default⟩
        else ⟨Status.OK, build (call (s.loaded hd)).1⟩,
        s.stored name hd (call (s.loaded hd)).2) := by
  simp only [QueueImpl.handle, h]

theorem handle_ok (h : s.getQueue name = some hd) :
    (QueueImpl.handle s name call code msg build).1.status.ok = true ↔
      code (call (s.loaded hd)).1 = .OK := by
  rw [handle_some h]
  by_cases hok : code (call (s.loaded hd)).1 = .OK
  · rw [if_neg (by simp [hok])]
    exact ⟨fun _ => hok, fun _ => rfl⟩
  · rw [if_pos hok]
    exact toGRPCStatus_ok _ _

theorem handle_res (h : s.getQueue name = some hd) (hok : code (call (s.loaded hd)).1 = .OK) :
    (QueueImpl.handle s name call code msg build).1.res = build (call (s.loaded hd)).1 := by
  rw [handle_some h, if_neg (by simp [hok])]

theorem handle_stored (h : s.getQueue name = some hd) :
    (QueueImpl.handle s name call code msg build).2 =
      s.stored name hd (call (s.loaded hd)).2 := by
  rw [handle_some h]

end Handle

/-- Without the queue no handler succeeds. -/
theorem remote_none (h : g.step s a = some r) (hq : s.getQueue g.mQueueName = none) :
    r.status.ok = false ∧ r.server = s := by
  cases a with
  | stop | worker => cases h
  | _ =>
      obtain rfl := Option.some.inj h
      exact handle_none hq

/-- **The server's side**: the handler makes the served call, and its status is OK if that returns
`ErrCode_OK`. -/
theorem remote_some (h : g.step s a = some r) (hq : s.getQueue g.mQueueName = some hd) :
    ∃ o q rc, (s.loaded hd).step a.served = some (o, q) ∧ o.rc = some rc ∧
      (r.status.ok = true ↔ rc = .OK) ∧ r.server = s.stored g.mQueueName hd q := by
  cases a with
  | stop | worker => cases h
  | _ =>
      obtain rfl := Option.some.inj h
      exact ⟨_, _, _, rfl, rfl, handle_ok hq, handle_stored hq⟩

theorem Remote.unary_code {ρ β : Type} (u : Reply ρ × SQLiteQueueList) (ok : ρ → β) (out : β) :
    (Remote.unary u ok out).out.1 = if u.1.status.ok then .OK else .OS_ERROR := by
  unfold Remote.unary
  split <;> rfl

/-- **The client's side**: the code follows the status, except for the two lists, where it is
always `ErrCode_OK`. -/
theorem remote_rc (h : g.step s a = some r) :
    r.out.rc = some (if a.isList || r.status.ok then .OK else .OS_ERROR) := by
  cases a with
  | stop | worker => cases h
  | listPending | listFinished =>
      obtain rfl := Option.some.inj h
      rfl
  | _ =>
      obtain rfl := Option.some.inj h
      exact congrArg some (Remote.unary_code ..)

/-- A remote database operation is a step of the list on the server. -/
theorem remote_call {db : QueueDB} (h : g.step s a = some r)
    (hq : s.getQueue g.mQueueName = some hd) (hdb : s.dir.database hd.file = some db)
    (ha : a.isDatabaseCall = true) :
    ∃ o, s.step (.call g.mQueueName a.served) = some (.call o, r.server) := by
  obtain ⟨o, q, rc, hstep, -, -, hserver⟩ := remote_some h hq
  have hload : s.loaded hd = hd.queue.load db := by
    rw [SQLiteQueueList.loaded, hdb, Option.getD_some]
  have hserved : a.served.isDatabaseCall = true := by cases a <;> exact ha
  rw [hload] at hstep
  refine ⟨o, ?_⟩
  simp only [SQLiteQueueList.step, SQLiteQueueList.call, hq, hserved, if_true, hdb, hstep,
    Option.map_some, hserver, SQLiteQueueList.stored, Option.isSome_some]

end SimpleTaskQueue
