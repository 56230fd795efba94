import SimpleTaskQueue.Properties.Installation
import SimpleTaskQueue.Refinement.Handles
/-!
# SimpleTaskQueue.Properties.Statements

**No SQLite statement outlives its call.** Between any two steps of a server, on the connection of
each of its queue objects, `m_token->stmt` is null and every statement that was ever prepared was
finalized, exactly once, in whatever way SQLite failed: `sqlite3_close` never meets an open
statement. The same holds of a connection that `connectToDB` gives up.
-/

namespace SimpleTaskQueue

open Sqlite Runs SQLiteQueue

variable {q u : SQLiteQueue} {a : Action} {o : Output}

/-- An operation of the queue. -/
theorem atRest_call {β : Type} {m : QueueM β} (env : Env) (hm : Clean m) (h : AtRest q.mToken) :
    AtRest (q.call env m).2.mToken := by
  have hgiven : AtRest (q.mToken.given env) := ⟨h.stmt, h.prepared, h.finalized⟩
  exact hm.atRest hgiven

theorem atRest_runInit {env : Env} (h : AtRest q.mToken) : AtRest (q.runInit env).2.1.mToken := by
  have hcall := atRest_call env clean_mainLoopInit h
  rcases q.runInit_cases env with ⟨-, hrun⟩ | ⟨t, -, hrun⟩ | ⟨-, hrun⟩ <;> rw [hrun] <;> exact hcall

/-- **Step lemma.** -/
theorem atRest_step (h : AtRest q.mToken) (hs : q.step a = some (o, u)) : AtRest u.mToken := by
  cases a with
  | listPending | listFinished =>
      obtain ⟨-, rfl⟩ := Prod.mk.inj (Option.some.inj hs)
      exact atRest_call _ (clean_listIDInTable _) h
  | pendingDetails | finishedDetails =>
      obtain ⟨-, rfl⟩ := Prod.mk.inj (Option.some.inj hs)
      exact atRest_call _ (clean_taskDetails _ _ _) h
  | clearPending | clearFinished =>
      obtain ⟨-, rfl⟩ := Prod.mk.inj (Option.some.inj hs)
      exact atRest_call _ (clean_execute _ _ _ _ _) h
  | currentTask =>
      obtain ⟨-, rfl⟩ := Prod.mk.inj (Option.some.inj hs)
      exact h
  | addTask =>
      obtain ⟨-, rfl⟩ := Prod.mk.inj (Option.some.inj hs)
      exact atRest_call _ (clean_addTask _) h
  | removeTask =>
      obtain ⟨-, rfl⟩ := Prod.mk.inj (Option.some.inj hs)
      exact atRest_call _ (clean_removeTaskFromPending _ _ _) h
  | start =>
      obtain ⟨-, rfl⟩ := Prod.mk.inj (Option.some.inj hs)
      unfold SQLiteQueue.start
      split <;> exact h
  | stop =>
      obtain ⟨-, rfl⟩ := Prod.mk.inj (Option.some.inj hs)
      unfold stopImpl
      split <;> exact h
  | worker i w =>
      obtain ⟨pc, pc', q', -, hl, rfl⟩ := step_worker hs
      cases hl with
      | init => exact atRest_runInit h
      | fin | finFailed => exact atRest_call _ (clean_mainLoopFin _ _) h
      | test | startProcess | poll | clearStart | clearRunning => exact h

namespace Service

variable {d : Directory} {s u : Service} {S : Session} {es : List SessionEvent}
  {ok : Session → SessionMove → Prop}

/-- **Step lemma.** -/
theorem atRest_moves {a : ServiceAction} {o : ServiceOutput} {key : Option Nat}
    (h : ∀ q ∈ s.objects, AtRest q.queue.mToken) (hm : Moves s key a o u) :
    ∀ q ∈ u.objects, AtRest q.queue.mToken := by
  cases hm with
  | @create env req st _ hc =>
      generalize GRPCQueueList.code _ = rc at hc
      cases hc with
      | created =>
          intro q hq
          rcases List.mem_append.mp hq with hq | hq
          · exact h q hq
          · obtain rfl := List.mem_singleton.mp hq
            exact (clean_connectToDB true).atRest (atRest_open _ _)
      | rejected | refused => exact h
  | quiet => exact h
  | @called _ k b q o q' stage ha hk _ _ _ hq =>
      intro q₁ hq₁
      rcases List.mem_or_eq_of_mem_set hq₁ with hq₁ | rfl
      · exact h q₁ hq₁
      · have hold := h q (List.mem_of_getElem? hk)
        have hload : AtRest (s.load q).mToken := ⟨hold.stmt, hold.prepared, hold.finalized⟩
        exact atRest_step hload hq
  | restart =>
      intro q hq
      obtain ⟨q₀, hq₀, rfl⟩ := List.mem_map.mp hq
      exact h q₀ hq₀

/-- **Statements are finalized.** Nothing is assumed of the run. -/
theorem statements_finalized (h : Run session ok ⟨new d, []⟩ es S) :
    (∀ q ∈ S.server.objects, AtRest q.queue.mToken) ∧
      ∀ opens db env, AtRest (connectToDB opens ((Conn.open db).given env)).2 := by
  refine ⟨?_, fun opens db env => (clean_connectToDB opens).atRest (atRest_open db env)⟩
  refine h.invariant (I := fun S => ∀ q ∈ S.server.objects, AtRest q.queue.mToken) (by simp [new])
    fun S m e T hS _ hs => ?_
  rcases (Linearizable.Step.of_step hs).server with ⟨i, a, o, key, -, -, ha⟩ | ⟨-, hsame⟩
  · exact atRest_moves hS (.of_act ha)
  · rw [hsame]
    exact hS

theorem statements_finalized_twoQueues :
    (∀ q ∈ twoQueuesRun.2.server.objects, AtRest q.queue.mToken) ∧
      ∀ opens db env, AtRest (connectToDB opens ((Conn.open db).given env)).2 :=
  statements_finalized run_twoQueues

end Service

end SimpleTaskQueue
