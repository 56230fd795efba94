import SimpleTaskQueue.Model.Controller.GRPCServer.Service
import SimpleTaskQueue.Model.Dao.GRPCQueueList
import SimpleTaskQueue.Refinement.Remote
/-!
# SimpleTaskQueue.Refinement.RemoteQueue

**What a client gets from a server.** Handler and client together turn the output of the served call
into an output of the remote operation (`answered`), whatever the queue is (`step_answered`). With
that a `GRPCQueue` is an `IQueue` on the queue objects of a server.
-/

namespace SimpleTaskQueue

open Sqlite Protos

/-- What the remote operation comes to; `o` is what the served call gave, if there was a queue. -/
def answered (a : Action) (o : Option Output) : Output :=
  match a, o with
  | .listPending _, some (.ids .OK ids) | .listFinished _, some (.ids .OK ids) =>
    .ids .OK (ids.map toInt32)
  | .listPending _, _ | .listFinished _, _ => .ids .OK []
  | .pendingDetails _ _ out, some (.task .OK u) | .finishedDetails _ _ out, some (.task .OK u)
  | .currentTask out, some (.task .OK u) =>
    .task .OK (GRPCQueue.buildTask (QueueImpl.buildTaskDetailsRes u) out)
  | .pendingDetails _ _ out, _ | .finishedDetails _ _ out, _ | .currentTask out, _ =>
    .task .OS_ERROR out
  | .addTask _ t, some (.task .OK u) => .task .OK { t with ID := toInt32 u.ID }
  | .addTask _ t, _ => .task .OS_ERROR t
  | .stop, _ => .silent
  | _, some (.code .OK) => .code .OK
  | _, _ => .code .OS_ERROR

variable {g : GRPCQueue} {s : SQLiteQueueList} {a : Action} {r : Remote Output} {name : Str}
  {hd : Handle}

section Handle

variable {β γ ρ : Type} [Inhabited ρ] {call : SQLiteQueue → β × SQLiteQueue} {code : β → ErrCode}
  {msg : String} {build : β → ρ} {ok : ρ → γ} {out : γ}

theorem unary_none (h : s.getQueue name = none) :
    (Remote.unary (QueueImpl.handle s name call code msg build) ok out).out =
      (.OS_ERROR, out) := by
  simp only [Remote.unary, (handle_none h).1, Bool.false_eq_true, if_false]

theorem unary_some (h : s.getQueue name = some hd) :
    (Remote.unary (QueueImpl.handle s name call code msg build) ok out).out =
      if code (call (s.loaded hd)).1 = .OK then (.OK, ok (build (call (s.loaded hd)).1))
      else (.OS_ERROR, out) := by
  by_cases hrc : code (call (s.loaded hd)).1 = .OK
  · simp only [Remote.unary, (handle_ok h).mpr hrc, handle_res h hrc, hrc, if_true]
  · have hno : (QueueImpl.handle s name call code msg build).1.status.ok = false :=
      Bool.eq_false_iff.mpr fun hok => hrc ((handle_ok h).mp hok)
    simp only [Remote.unary, hno, hrc, Bool.false_eq_true, if_false]

/-- An operation that gives a task. -/
theorem unary_task {call : SQLiteQueue → (ErrCode × Task) × SQLiteQueue} (build : Task → ρ)
    {ok : ρ → Task} {out : Task} (h₀ : answered a none = .task .OS_ERROR out)
    (h : ∀ rc u, answered a (some (.task rc u)) =
      if rc = .OK then .task .OK (ok (build u)) else .task .OS_ERROR out) :
    ((Remote.unary (QueueImpl.handle s name call Prod.fst msg fun r => build r.2) ok out).output
        .task).out =
      answered a ((s.getQueue name).bind fun hd =>
        some (.task (call (s.loaded hd)).1.1 (call (s.loaded hd)).1.2)) := by
  simp only [Remote.output]
  cases hq : s.getQueue name with
  | none => rw [unary_none hq, Option.bind_none, h₀]
  | some hd =>
      rw [unary_some hq, Option.bind_some, h]
      split <;> rfl

/-- An operation that gives a code. -/
theorem unary_rc {call : SQLiteQueue → ErrCode × SQLiteQueue} {build : ErrCode → ρ}
    (h₀ : answered a none = .code .OS_ERROR)
    (h : ∀ rc, answered a (some (.code rc)) = .code (if rc = .OK then .OK else .OS_ERROR)) :
    ((Remote.unary (QueueImpl.handle s name call id msg build) (fun _ => ()) ()).output
        fun rc _ => .code rc).out =
      answered a ((s.getQueue name).bind fun hd => some (.code (call (s.loaded hd)).1)) := by
  simp only [Remote.output]
  cases hq : s.getQueue name with
  | none => rw [unary_none hq, Option.bind_none, h₀]
  | some hd =>
      rw [unary_some hq, Option.bind_some, h, id]
      split <;> rfl

/-- An operation that gives IDs. -/
theorem stream_ids {call : SQLiteQueue → (ErrCode × List Int) × SQLiteQueue}
    (h₀ : answered a none = .ids .OK [])
    (h : ∀ rc ids, answered a (some (.ids rc ids)) =
      .ids .OK (if rc = .OK then ids.map toInt32 else [])) :
    ((Remote.stream (QueueImpl.handle s name call Prod.fst msg fun r =>
        QueueImpl.buildListTaskRes r.2) ListTaskRes.ID).output .ids).out =
      answered a ((s.getQueue name).bind fun hd =>
        some (.ids (call (s.loaded hd)).1.1 (call (s.loaded hd)).1.2)) := by
  cases hq : s.getQueue name with
  | none =>
      rw [Option.bind_none, h₀]
      simp only [Remote.output, Remote.stream, QueueImpl.handle, hq]
      rfl
  | some hd =>
      rw [Option.bind_some, h]
      simp only [Remote.output, Remote.stream, handle_some hq]
      by_cases hrc : (call (s.loaded hd)).1.1 = .OK
      · rw [if_neg (not_not.mpr hrc), if_pos hrc, QueueImpl.buildListTaskRes, List.map_map]
        rfl
      · rw [if_pos hrc, if_neg hrc]
        rfl

end Handle

/-- **The remote operation** gives what `answered` makes of the served call. -/
theorem step_answered (h : g.step s a = some r) :
    r.out = answered a ((s.getQueue g.mQueueName).bind fun hd =>
      ((s.loaded hd).step a.served).map Prod.fst) := by
  cases a with
  | stop | worker => cases h
  | listPending | listFinished =>
      obtain rfl := Option.some.inj h
      exact stream_ids rfl fun rc _ => by cases rc <;> rfl
  | pendingDetails | finishedDetails | currentTask =>
      obtain rfl := Option.some.inj h
      exact unary_task QueueImpl.buildTaskDetailsRes rfl fun rc _ => by cases rc <;> rfl
  | addTask env t =>
      obtain rfl := Option.some.inj h
      have hcode : ∀ rc u, answered (.addTask env t) (some (.task rc u)) =
          if rc = .OK then .task .OK { t with ID := toInt32 u.ID } else .task .OS_ERROR t := by
        intro rc u
        cases rc <;> rfl
      exact unary_task (fun u => ListTaskRes.mk (toInt32 u.ID)) rfl hcode
  | clearPending | clearFinished | removeTask | start =>
      obtain rfl := Option.some.inj h
      exact unary_rc rfl fun rc => by cases rc <;> rfl

namespace GRPCQueue

/-- A `GRPCQueue` is known by its name. Where the queue is not on the server it does not run, and
gives nothing out. -/
def queue : IQueue Str Service where
  call name a s :=
    match s.getQueue name with
    | none => some (answered a none, s)
    | some k => (s.callObject k a.served).map fun r => (answered a (some r.1), r.2)
  isRunning name s := (s.getQueue name).any fun k => Service.queue.isRunning k s
  readCurrentOutput name lines s :=
    match s.getQueue name with
    | none => []
    | some k => Service.queue.readCurrentOutput k lines s

end GRPCQueue

end SimpleTaskQueue
