import SimpleTaskQueue.Refinement.Commands
import SimpleTaskQueue.Refinement.RemoteQueue
import SimpleTaskQueue.Refinement.Service
/-!
# SimpleTaskQueue.Refinement.Clients

The **client on its two backends**: `SQLiteQueueList` in the process of the client
(`sqliteTerminal`), and `GRPCQueueList` on a server that has a `SQLiteQueueList` (`grpcTerminal`).
Where the queues are in the same state, the two clients at the same place (`Alike`), and nothing
happens that gets lost on the way (`Agrees`), they make the same steps (`step_alike`).
-/

namespace SimpleTaskQueue

open Sqlite Protos Runs

/-! ### The values of a queue -/

/-- The integers of the task have 32 bits. -/
def Task.Fits (t : Task) : Prop := IsInt32 t.ID ∧ IsInt32 t.exitCode

theorem fits_blank : Task.blank.Fits := ⟨by decide, by decide⟩

theorem columnInt_isInt32 (r : Record) (i : Nat) : IsInt32 (columnInt r i) := by
  unfold columnInt
  split
  · exact toInt32_isInt32 _
  · decide

theorem fits_taskOfRecord (r : Record) : (taskOfRecord r).Fits :=
  ⟨columnInt_isInt32 r 3, columnInt_isInt32 r 4⟩

theorem listIDInTable_isInt32 (name : TableName) (c : Conn TableName) :
    ∀ i ∈ (listIDInTable name c).1.2, IsInt32 i := by
  obtain ⟨⟨-, h⟩, -⟩ := query_rel (R := fun s t => s = t ∧ ∀ i ∈ s, IsInt32 i)
    (s := ([] : List Int)) (t := [])
    (f := fun out row => (out ++ [columnInt row 0], none))
    (g := fun out row => (out ++ [columnInt row 0], none))
    (fun row h => ⟨⟨congrArg (· ++ [columnInt row 0]) h.1, fun i hi => by
      rcases List.mem_append.mp hi with hi | hi
      · exact h.2 i hi
      · exact List.mem_singleton.mp hi ▸ columnInt_isInt32 row 0⟩, rfl⟩)
    (.select name (some ["ID"]) none none) [] ErrCode.OS_ERROR ⟨rfl, by simp⟩ c
  simpa only [listIDInTable, run_bind, run_pure] using h

theorem taskDetails_fits {out : Task} (hout : out.Fits) (name : TableName) (id : Int)
    (c : Conn TableName) : (taskDetails name id out c).1.2.Fits := by
  obtain ⟨⟨-, h⟩, -⟩ := query_rel (R := fun s t => s = t ∧ s.1.Fits) (s := (out, 0)) (t := (out, 0))
    (f := fun s row => ((taskOfRecord row, s.2 + 1), none))
    (g := fun s row => ((taskOfRecord row, s.2 + 1), none))
    (fun row h => ⟨⟨by rw [h.1], fits_taskOfRecord row⟩, rfl⟩)
    (.select name none (some ("ID", .param 1)) none) [.int (toInt32 id)] ErrCode.OS_ERROR
    ⟨rfl, hout⟩ c
  simp only [taskDetails, run_bind]
  revert h
  generalize query (N := TableName) _ _ _ (out, 0) _ c = r
  obtain ⟨⟨⟨u, n⟩, stop⟩, c₁⟩ := r
  intro h
  cases stop with
  | some e => exact h
  | none =>
      dsimp only
      split <;> exact h

theorem mainLoopInit_fits {c : Conn TableName} {t : Task} (h : (mainLoopInit c).1 = .picked t) :
    t.Fits := by
  simp only [mainLoopInit, run_bind, run_ite, run_pure] at h
  split at h
  · cases h
  · revert h
    generalize step (N := TableName) _ = r
    obtain ⟨res, c₁⟩ := r
    intro h
    cases res with
    | row r =>
        obtain rfl := InitResult.picked.inj h
        exact fits_taskOfRecord r
    | done | error => cases h

section Queue

variable {q u : SQLiteQueue} {a : Action} {o : Output}

/-- **Step lemma.** -/
theorem fits_step (h : q.mCurrentTask.Fits) (hs : q.step a = some (o, u)) :
    u.mCurrentTask.Fits := by
  by_cases hw : ∃ i w, a = .worker i w
  · obtain ⟨i, w, rfl⟩ := hw
    obtain ⟨pc, pc', q', -, hl, rfl⟩ := SQLiteQueue.step_worker hs
    cases hl with
    | init env =>
        rcases q.runInit_cases env with ⟨-, hrun⟩ | ⟨t, ht, hrun⟩ | ⟨-, hrun⟩ <;> rw [hrun]
        · exact h
        · exact mainLoopInit_fits ht
        · exact h
    | fin | finFailed => exact fits_blank
    | test | startProcess | poll | clearStart | clearRunning => exact h
  · rw [SQLiteQueue.step_client_currentTask hs fun i w hc => hw ⟨i, w, hc⟩]
    exact h

end Queue

/-! ### Outputs -/

/-- Nothing of the output gets lost on the way to a remote client: a list did not fail, and a task
is not marked as successful. -/
def Output.Arrives : Output → Prop
  | .ids rc _ => rc = .OK
  | .task .OK t => t.isSuccess = false
  | _ => True

instance (o : Output) : Decidable o.Arrives := by
  unfold Output.Arrives
  split <;> infer_instance

theorem map_toInt32 {ids : List Int} (h : ∀ i ∈ ids, IsInt32 i) : ids.map toInt32 = ids :=
  (List.map_congr_left fun i hi => toInt32_of_isInt32 (h i hi)).trans (List.map_id _)

namespace CLI

open Queue

section Shown

variable {q q' : SQLiteQueue} {o : Output} {env : Env} {id : Int} {failed name : String}
  {a : Action}

/-- A list that did not fail. -/
theorem answered_ids {rc : ErrCode} {ids : List Int} (hids : ∀ i ∈ ids, IsInt32 i)
    (hp : (Output.ids rc ids).Arrives)
    (ha : ∀ ids, answered a (some (.ids .OK ids)) = .ids .OK (ids.map toInt32)) :
    answered a (some (.ids rc ids)) = .ids rc ids := by
  obtain rfl : rc = .OK := hp
  rw [ha, map_toInt32 hids]

theorem buildTask_plain {u : Task} (hu : u.Fits) (hp : u.isSuccess = false) :
    GRPCQueue.buildTask (QueueImpl.buildTaskDetailsRes u) Task.blank = u := by
  obtain ⟨execName, args, workDir, ID, exitCode, isSuccess⟩ := u
  obtain ⟨hID, hexit⟩ : IsInt32 ID ∧ IsInt32 exitCode := hu
  obtain rfl : isSuccess = false := hp
  simp only [GRPCQueue.buildTask, QueueImpl.buildTaskDetailsRes, toInt32_of_isInt32 hID,
    toInt32_of_isInt32 hexit, Task.blank]

/-- A task that is not marked, or none. -/
theorem shown_task {rc : ErrCode} {u : Task} (hu : u.Fits) (hp : (Output.task rc u).Arrives)
    (ha : ∀ rc u, answered a (some (.task rc u)) =
      if rc = .OK then
        .task .OK (GRPCQueue.buildTask (QueueImpl.buildTaskDetailsRes u) Task.blank)
      else .task .OS_ERROR Task.blank) :
    showTask failed (answered a (some (.task rc u))) = showTask failed (.task rc u) := by
  rw [ha]
  cases rc with
  | OK =>
      rw [if_pos rfl, buildTask_plain hu hp]
  | INVALID_ARGUMENT | NOT_FOUND | ALREADY_EXISTS | OUT_OF_RANGE | OS_ERROR => rfl

/-- **The screen is the same.** A remote operation of a command makes the call of the local one, and
shows the same. -/
theorem shown_answered {before : Str} {shown : Output → Option (Str × Int)}
    (hjob : Job.IsCommand (.call before a shown)) (hcur : q.mCurrentTask.Fits)
    (hs : q.step a = some (o, q')) (hp : o.Arrives) :
    shown (answered a (some o)) = shown o := by
  cases hjob with
  | listPending | listFinished =>
      obtain ⟨rfl, -⟩ := Prod.mk.inj (Option.some.inj hs)
      exact congrArg _ (answered_ids (listIDInTable_isInt32 _ _) hp fun _ => rfl)
  | pendingDetails | finishedDetails =>
      obtain ⟨rfl, -⟩ := Prod.mk.inj (Option.some.inj hs)
      exact shown_task (taskDetails_fits fits_blank _ _ _) hp fun rc _ => by cases rc <;> rfl
  | current =>
      obtain ⟨rfl, -⟩ := Prod.mk.inj (Option.some.inj hs)
      refine shown_task ?_ hp fun rc _ => by cases rc <;> rfl
      unfold SQLiteQueue.currentTask
      split
      · exact fits_blank
      · exact hcur
  | add =>
      obtain ⟨rfl, -⟩ := Prod.mk.inj (Option.some.inj hs)
      generalize SQLiteQueue.call _ _ _ = r
      obtain ⟨⟨rc, u⟩, q'⟩ := r
      cases rc <;> rfl
  | clearPending | clearFinished =>
      obtain ⟨rfl, -⟩ := Prod.mk.inj (Option.some.inj hs)
      generalize SQLiteQueue.call _ _ _ = r
      obtain ⟨rc, q'⟩ := r
      cases rc <;> rfl
  | start =>
      obtain ⟨rfl, -⟩ := Prod.mk.inj (Option.some.inj hs)
      cases q.start.1 <;> rfl
  | stop => rfl

/-- The handler makes the same call. -/
theorem step_served {before : Str} {shown : Output → Option (Str × Int)}
    (hjob : Job.IsCommand (.call before a shown)) : q.step a.served = q.step a := by
  have hid : ∀ (name : TableName) (id : Int) (out : Task),
      taskDetails name (toInt32 id) out = taskDetails name id out := by
    intro name id out
    unfold taskDetails
    rw [toInt32_of_isInt32 (toInt32_isInt32 id)]
  cases hjob with
  | pendingDetails | finishedDetails =>
      simp only [Action.served, SQLiteQueue.step, SimpleTaskQueue.pendingDetails,
        SimpleTaskQueue.finishedDetails, hid]
  | listPending | listFinished | clearPending | clearFinished | current | add | start | stop => rfl

/-- Of an ID that 32 bits cannot hold, the handler gets another one. -/
theorem removeTask_served (hcur : q.mCurrentTask.Fits)
    (h : toInt32 id = q.mCurrentTask.ID → id = q.mCurrentTask.ID) :
    q.step (.removeTask env (toInt32 id)) = q.step (.removeTask env id) := by
  have hsame : toInt32 id = q.mCurrentTask.ID ↔ id = q.mCurrentTask.ID := by
    refine ⟨h, fun hid => ?_⟩
    subst hid
    exact toInt32_of_isInt32 hcur.1
  simp only [SQLiteQueue.step, SimpleTaskQueue.removeTask, removeTaskFromPending, hsame,
    toInt32_of_isInt32 (toInt32_isInt32 id)]

end Shown

/-! ### The terminals -/

/-- The steps of the queues: of their threads, and of the destructor. -/
def ownStep (b : ServiceAction) (s : Service) : Option Service :=
  match b with
  | .destroy _ | .worker _ _ _ => (s.act none b).map Prod.snd
  | _ => none

/-- Behind `sqliteInit`. -/
def sqliteTerminal (l : QueueList.Opts) (o : Queue.Opts) : Terminal Nat Service ServiceAction :=
  ⟨l, o, Service.queueList, Service.queue, ownStep⟩

/-- Behind `grpcInit`. -/
def grpcTerminal (l : QueueList.Opts) (o : Queue.Opts) : Terminal Str Service ServiceAction :=
  ⟨l, o, GRPCQueueList.queueList Service.queueList, GRPCQueue.queue, ownStep⟩

/-- What the queues of a server are like. -/
structure Ready (s : Service) : Prop where
  unnamed : s.mQueueList.lookup [] = none
  fits : ∀ h ∈ s.objects, h.queue.mCurrentTask.Fits

section Ready

open Service

variable {s u : Service} {k : Nat} {h : QueueObject} {q : SQLiteQueue} {stage : Stage}
  {a a' : Action}
  {o : Output}

theorem Ready.load (hs : Ready s) (hk : s.objects[k]? = some h) :
    (s.load h).mCurrentTask.Fits := hs.fits h (List.mem_of_getElem? hk)

theorem Ready.store (hs : Ready s) (hq : q.mCurrentTask.Fits) :
    Ready (s.store k { h with stage := stage } q) where
  unnamed := hs.unnamed
  fits := by
    intro h' hh'
    rcases List.mem_or_eq_of_mem_set hh' with hh' | rfl
    · exact hs.fits h' hh'
    · exact hq

theorem callObject_some (hs : s.callObject k a = some (o, u)) :
    ∃ h q, s.objects[k]? = some h ∧ (s.load h).step a = some (o, q) ∧ u = s.store k h q := by
  unfold callObject at hs
  split at hs
  · cases hs
  next h hk =>
  split at hs
  · cases hs
  obtain ⟨⟨o', q⟩, hq, he⟩ := Option.map_eq_some_iff.mp hs
  obtain ⟨rfl, rfl⟩ := Prod.mk.inj he
  exact ⟨h, q, hk, hq, rfl⟩

theorem Ready.call (hs : Ready s) (hcall : s.callObject k a = some (o, u)) :
    Ready u ∧ u.mQueueList = s.mQueueList := by
  obtain ⟨h, q, hk, hq, rfl⟩ := callObject_some hcall
  exact ⟨hs.store (fits_step (hs.load hk) hq), rfl⟩

theorem callObject_congr (hcall : a'.isCall = a.isCall)
    (hstep : ∀ h, s.objects[k]? = some h → (s.load h).step a' = (s.load h).step a) :
    s.callObject k a' = s.callObject k a := by
  unfold callObject
  cases hk : s.objects[k]? with
  | none => rfl
  | some h => simp only [hcall, hstep h hk]

/-- Only a name that is not empty gets as far as a file. -/
theorem Ready.creation {env : CreateEnv} {name : Str} {rc : ErrCode} (hs : Ready s)
    (hc : Creation s env name rc u) : Ready u := by
  cases hc with
  | created hf =>
      have hname : ([] : Str) ≠ name := by
        intro hname
        rw [← hname] at hf
        simp [CreateEnv.reaches] at hf
      refine ⟨(AList.lookup_insert_ne hname).trans hs.unnamed, fun h hh => ?_⟩
      rcases List.mem_append.mp hh with hh | hh
      · exact hs.fits h hh
      · obtain rfl := List.mem_singleton.mp hh
        exact fits_blank
  | rejected | refused => exact ⟨hs.unnamed, hs.fits⟩

theorem Ready.moves {x : ServiceAction} {y : ServiceOutput} {key : Option Nat} (hs : Ready s)
    (hm : Moves s key x y u) : Ready u := by
  cases hm with
  | create hc => exact hs.creation hc
  | quiet _ _ _ _ hnone => exact ⟨hnone hs.unnamed, hs.fits⟩
  | called _ hk _ _ _ hq => exact hs.store (fits_step (hs.load hk) hq)
  | restart =>
      refine ⟨rfl, fun h hh => ?_⟩
      obtain ⟨h₀, hh₀, rfl⟩ := List.mem_map.mp hh
      exact hs.fits h₀ hh₀

theorem ready_new (d : Directory) : Ready (new d) := ⟨rfl, by simp [new]⟩

/-- The state of a server is always so. -/
theorem run_ready {d : Directory} {es : List SessionEvent} {S : Session}
    {ok : Session → SessionMove → Prop} (h : Run session ok ⟨new d, []⟩ es S) : Ready S.server := by
  refine h.invariant (I := fun S => Ready S.server) (ready_new d) fun S m e T hS _ hs => ?_
  rcases (Linearizable.Step.of_step hs).server with ⟨i, a, o, key, -, -, ha⟩ | ⟨-, hsame⟩
  · exact hS.moves (.of_act ha)
  · rw [hsame]
    exact hS

end Ready

/-! ### Commands on both -/

/-- What the job gets from the object `k` arrives at a remote client too. -/
def Job.Agrees (s : Service) (k : Nat) : Job → Prop
  | .call _ a _ =>
    match s.callObject k a with
    | some (o, _) => o.Arrives
    | none => True
  | .remove ids =>
    match s.objects[k]? with
    | some h => ∀ id ∈ ids, toInt32 id = h.queue.mCurrentTask.ID → id = h.queue.mCurrentTask.ID
    | none => True
  | _ => True

instance (s : Service) (k : Nat) (job : Job) : Decidable (job.Agrees s k) := by
  unfold Job.Agrees
  split
  · split <;> infer_instance
  · split <;> infer_instance
  · infer_instance

section Jobs

open Service

variable {s u : Service} {k : Nat} {name : Str} {env : LineEnv} {p : Str × Int}

theorem grpc_call {a : Action} (hk : s.getQueue name = some k) :
    GRPCQueue.queue.call name a s =
      (s.callObject k a.served).map fun r => (answered a (some r.1), r.2) := by
  simp only [GRPCQueue.queue, hk]

/-- A call that is made and shown in the same way. -/
theorem run_call {before : Str} {a : Action} {shown : Output → Option (Str × Int)}
    (hjob : Job.IsCommand (.call before a shown)) (hs : Ready s) (hk : s.getQueue name = some k)
    (hag : (Job.call before a shown).Agrees s k) :
    (Job.call before a shown).run GRPCQueue.queue name env s =
      (Job.call before a shown).run queue k env s := by
  have hserved : s.callObject k a.served = s.callObject k a :=
    callObject_congr (by cases hjob <;> rfl) fun _ _ => step_served hjob
  simp only [Job.run, grpc_call hk, hserved]
  show (Option.map _ (s.callObject k a)).bind _ = (s.callObject k a).bind _
  cases hcall : s.callObject k a with
  | none => rfl
  | some r =>
      obtain ⟨o, u⟩ := r
      obtain ⟨h, q, hobj, hq, rfl⟩ := callObject_some hcall
      simp only [Job.Agrees, hcall] at hag
      rw [Option.map_some, Option.bind_some, Option.bind_some,
        shown_answered hjob (hs.load hobj) hq hag]

theorem run_remove {ids : List Int} {i : Nat} (hs : Ready s) (hk : s.getQueue name = some k)
    (hag : (Job.remove ids).Agrees s k) :
    removeLoop GRPCQueue.queue name env.sqlite i ids s = removeLoop queue k env.sqlite i ids s := by
  induction ids generalizing i s with
  | nil => rfl
  | cons id ids ih =>
      have hserved : s.callObject k (Action.removeTask (env.sqlite i) id).served =
          s.callObject k (.removeTask (env.sqlite i) id) := by
        refine callObject_congr rfl fun h hobj => removeTask_served (hs.load hobj) ?_
        simp only [Job.Agrees, hobj] at hag
        exact hag id List.mem_cons_self
      have hgrpc := grpc_call (a := .removeTask (env.sqlite i) id) hk
      have hsqlite : queue.call k (.removeTask (env.sqlite i) id) s =
        s.callObject k (.removeTask (env.sqlite i) id) := rfl
      rw [hserved] at hgrpc
      simp only [removeLoop, hgrpc, hsqlite]
      cases hcall : s.callObject k (.removeTask (env.sqlite i) id) with
      | none => rfl
      | some r =>
          obtain ⟨o, u⟩ := r
          obtain ⟨h, q, hobj, hq, rfl⟩ := callObject_some hcall
          obtain ⟨hu, hlist⟩ := hs.call hcall
          have hcur := SQLiteQueue.step_client_currentTask hq (by simp)
          have hag' : (Job.remove ids).Agrees (s.store k h q) k := by
            have hk' : (s.store k h q).objects[k]? = some { h with queue := q } :=
              getElem?_set_of_some hobj
            simp only [Job.Agrees, hobj] at hag
            simp only [Job.Agrees, hk', hcur]
            exact fun j hj => hag j (List.mem_cons_of_mem id hj)
          obtain ⟨rfl, -⟩ := Prod.mk.inj (Option.some.inj hq)
          rw [Option.map_some]
          have hrest := ih (i := i + 1) hu hk hag'
          generalize (SQLiteQueue.call _ _ _).1 = rc
          generalize s.store k h q = u at hrest
          cases rc <;> exact congrArg (Option.map _) hrest

theorem run_job {job : Job} (hjob : job.IsCommand) (hs : Ready s) (hk : s.getQueue name = some k)
    (hag : job.Agrees s k) :
    job.run GRPCQueue.queue name env s = job.run queue k env s := by
  cases job with
  | call => exact run_call hjob hs hk hag
  | remove ids => simp only [Job.run, run_remove hs hk hag]
  | isRunning => simp only [Job.run, GRPCQueue.queue, hk, Option.any_some]
  | output => simp only [Job.run, GRPCQueue.queue, hk]

theorem removeLoop_keeps {ids : List Int} {i : Nat} {text : Str} (hs : Ready s)
    (h : removeLoop queue k env.sqlite i ids s = some (text, u)) :
    Ready u ∧ u.mQueueList = s.mQueueList := by
  induction ids generalizing i s text with
  | nil =>
      obtain ⟨-, rfl⟩ := Prod.mk.inj (Option.some.inj h)
      exact ⟨hs, rfl⟩
  | cons id ids ih =>
      simp only [removeLoop] at h
      split at h
      · next hcall =>
        obtain ⟨⟨text', v⟩, hrest, he⟩ := Option.map_eq_some_iff.mp h
        obtain ⟨-, rfl⟩ := Prod.mk.inj he
        obtain ⟨hv, hlist⟩ := hs.call hcall
        obtain ⟨hu, hlist'⟩ := ih hv hrest
        exact ⟨hu, hlist'.trans hlist⟩
      · cases h

/-- A job leaves the list alone. -/
theorem Ready.runJob {job : Job} (hs : Ready s) (h : job.run queue k env s = some (p, u)) :
    Ready u ∧ u.mQueueList = s.mQueueList := by
  cases job with
  | call before a shown =>
      obtain ⟨⟨o, v⟩, hcall, hshown⟩ := Option.bind_eq_some_iff.mp h
      obtain ⟨p', -, he⟩ := Option.map_eq_some_iff.mp hshown
      obtain ⟨-, rfl⟩ := Prod.mk.inj he
      exact hs.call hcall
  | remove ids =>
      obtain ⟨⟨text, v⟩, hloop, he⟩ := Option.map_eq_some_iff.mp h
      obtain ⟨-, rfl⟩ := Prod.mk.inj he
      exact removeLoop_keeps hs hloop
  | isRunning | output =>
      obtain ⟨-, rfl⟩ := Prod.mk.inj (Option.some.inj h)
      exact ⟨hs, rfl⟩

/-- What the client makes of the status of a handler. -/
theorem shownCode_handle {isEmpty : Bool} {empty msg failed : String}
    {call : Service → ErrCode × Service} (hne : isEmpty = false) :
    (shownCode failed (GRPCQueueList.code (QueueListImpl.handle isEmpty empty msg call s).1,
      (QueueListImpl.handle isEmpty empty msg call s).2)) = shownCode failed (call s) := by
  simp only [QueueListImpl.handle, hne, Bool.false_eq_true, if_false, shownCode]
  cases (call s).1 <;> rfl

theorem run_listJob {job : ListJob} (hjob : job.Named) :
    job.run (GRPCQueueList.queueList queueList) env s = job.run queueList env s := by
  have hne : ∀ {name : Str}, name ≠ [] → name.isEmpty = false := by
    intro name hname
    rw [Bool.eq_false_iff, ne_eq, List.isEmpty_iff]
    exact hname
  cases job with
  | create name =>
      simp only [ListJob.run, GRPCQueueList.queueList, QueueListImpl.create,
        shownCode_handle (hne hjob)]
  | delete name =>
      simp only [ListJob.run, GRPCQueueList.queueList, QueueListImpl.delete,
        shownCode_handle (hne hjob)]
  | list =>
      simp only [ListJob.run, GRPCQueueList.queueList, QueueListImpl.list, queueList,
        Service.listQueue]
      split
      · rfl
      · simp only [ne_eq, not_true_eq_false, if_false, List.map_map]
        have hmap : List.map (ListQueueRes.name ∘ fun name => ⟨name⟩) s.mQueueList.keys =
          s.mQueueList.keys := List.map_id _
        rw [hmap]
        rfl
  | rename source target =>
      have hboth : (source.isEmpty || target.isEmpty) = false := by
        rw [hne hjob.1, hne hjob.2]
        rfl
      simp only [ListJob.run, GRPCQueueList.queueList, QueueListImpl.rename,
        shownCode_handle hboth]

/-- A command of the list gives no queue an empty name. -/
theorem Ready.runListJob {job : ListJob} (hs : Ready s) (hjob : job.Named)
    (h : job.run queueList env s = some (p, u)) : Ready u := by
  cases job with
  | create name =>
      simp only [ListJob.run, shownCode] at h
      split at h
      · cases h
      obtain ⟨-, rfl⟩ := Prod.mk.inj (Option.some.inj h)
      exact hs.creation (s.createQueue_spec env.create name)
  | delete name =>
      obtain ⟨-, rfl⟩ := Prod.mk.inj (Option.some.inj h)
      show Ready (s.deleteQueue name).2
      unfold deleteQueue
      split
      · exact ⟨lookup_nil_erase hs.unnamed, hs.fits⟩
      · exact hs
  | list =>
      obtain ⟨-, rfl⟩ := Prod.mk.inj (Option.some.inj h)
      exact hs
  | rename source target =>
      obtain ⟨-, rfl⟩ := Prod.mk.inj (Option.some.inj h)
      show Ready (s.renameQueue source target).2
      unfold renameQueue
      split
      · exact ⟨lookup_nil_rename hjob.2 hs.unnamed, hs.fits⟩
      · exact hs

end Jobs

/-! ### Clients at the same place -/

section Alike

open Service

variable {l : QueueList.Opts} {opts : Queue.Opts}

/-- The two clients are at the same place. At the prompt of a queue the local one has a pointer on
the object that the list has under the name which the remote one keeps. -/
inductive SamePlace (s : Service) : Where Nat → Where Str → Prop
  | atList (ret : Int) : SamePlace s (.atList ret) (.atList ret)
  | inQueue {name : Str} {k : Nat} {mFuncs : Funcs QueueCommand} {ret : Int}
      (hk : s.getQueue name = some k)
      (hf : mFuncs.All fun f => ∀ env words, Gives Job.IsCommand (f env words)) :
      SamePlace s (.inQueue name k mFuncs ret) (.inQueue name name mFuncs ret)
  | returned (ret : Int) : SamePlace s (.returned ret) (.returned ret)

/-- The local client and the remote one. -/
structure Alike (s : QueueList Nat Service) (t : QueueList Str Service) : Prop where
  mPrefix : t.mPrefix = s.mPrefix
  mFuncs : t.mFuncs = s.mFuncs
  queues : t.queues = s.queues
  place : SamePlace s.queues s.place t.place
  commands : s.mFuncs.All fun f => ∀ words, Gives ListJob.Named (f words)
  ready : Ready s.queues

/-- The queue that was entered. -/
def Where.mQueue {κ : Type} : Where κ → Option κ
  | inQueue _ mQueue _ _ => some mQueue
  | _ => none

/-- The commands on it. -/
def Where.mFuncs {κ : Type} : Where κ → Funcs QueueCommand
  | inQueue _ _ mFuncs _ => mFuncs
  | _ => ∅

/-- The job that a line asks of the queue. -/
def asked (mFuncs : Funcs QueueCommand) (env : LineEnv) (line : Str) : Option Job :=
  match Args.tokens line with
  | [] => none
  | word :: words =>
    match (mFuncs.at word).1 with
    | none => none
    | some f =>
      match f env (word :: words) with
      | .error _ => none
      | .ok job => some job

/-- Nothing gets lost on the way to a remote client, and it can allocate the object of the queue it
enters. -/
def QueueList.Agrees {κ : Type} (find : κ → Service → Option Nat) (s : QueueList κ Service) :
    CLIAction ServiceAction → Prop
  | .line env line => env.newQueue = true ∧
    ∀ q ∈ s.place.mQueue, ∀ k ∈ find q s.queues, ∀ job ∈ asked s.place.mFuncs env line,
      job.Agrees s.queues k
  | _ => True

instance {κ : Type} (find : κ → Service → Option Nat) (s : QueueList κ Service)
    (a : CLIAction ServiceAction) : Decidable (s.Agrees find a) := by
  cases a <;> unfold QueueList.Agrees <;> infer_instance

/-- Both make the step, or neither does. -/
abbrev SameStep (p : Option (Shown × QueueList Nat Service))
    (q : Option (Shown × QueueList Str Service)) : Prop :=
  Option.Rel (fun p q => p.1 = q.1 ∧ Alike p.2 q.2) p q

theorem Alike.same {s : QueueList Nat Service} {t : QueueList Str Service} (o : Shown)
    (h : Alike s t) : SameStep (some (o, s)) (some (o, t)) := .some ⟨rfl, h⟩

variable {m : Str} {mFuncs : Funcs ListCommand} {c : Service} {env : LineEnv} {words : List Str}

/-- A round at the prompt of a queue. -/
theorem queue_round {name : Str} {k : Nat} {f : Funcs QueueCommand} {ret : Int}
    (hc : mFuncs.All fun f => ∀ words, Gives ListJob.Named (f words)) (hs : Ready c)
    (hk : c.getQueue name = some k)
    (hf : f.All fun f => ∀ env words, Gives Job.IsCommand (f env words))
    (hag : ∀ word rest g job, words = word :: rest → (f.at word).1 = some g →
      g env words = .ok job → job.Agrees c k) :
    SameStep (Queue.round (sqliteTerminal l opts) env words name k f ret
        ⟨m, mFuncs, .inQueue name k f ret, c⟩)
      (Queue.round (grpcTerminal l opts) env words name name f ret
        ⟨m, mFuncs, .inQueue name name f ret, c⟩) := by
  have hstay : ∀ {g : Funcs QueueCommand} {u : Service} (o : Shown) (r : Int),
      (g.All fun f => ∀ env words, Gives Job.IsCommand (f env words)) → Ready u →
      u.mQueueList = c.mQueueList →
      SameStep (some (o, ⟨m, mFuncs, .inQueue name k g r, u⟩))
        (some (o, ⟨m, mFuncs, .inQueue name name g r, u⟩)) := by
    intro g u o r hg hu hlist
    refine Alike.same o ⟨rfl, rfl, rfl, .inQueue ?_ hg, hc, hu⟩
    rw [getQueue, hlist]
    exact hk
  cases words with
  | nil => exact .none
  | cons word rest =>
      unfold Queue.round
      dsimp only
      split
      · exact hstay _ _ hf hs rfl
      split
      · exact Alike.same _ ⟨rfl, rfl, rfl, .atList ret, hc, hs⟩
      have hall : (f.at word).2.All _ := hf.at
      rcases hat : f.at word with ⟨_ | g, f'⟩ <;> rw [hat] at hall <;> dsimp only
      · exact hstay _ _ hall hs rfl
      · have hg := hf.target (congrArg Prod.fst hat)
        cases hjob : g env (word :: rest) with
        | error p => exact hstay _ _ hall hs rfl
        | ok job =>
            have hrun : job.run _ name env c = _ := run_job (hg env (word :: rest) job hjob) hs hk
              (hag word rest g job rfl (by rw [hat]) hjob)
            show SameStep (Option.map _ (job.run queue k env c))
              (Option.map _ (job.run GRPCQueue.queue name env c))
            rw [hrun]
            cases hres : job.run queue k env c with
            | none => exact .none
            | some r =>
                obtain ⟨hu, hlist⟩ := hs.runJob hres
                exact hstay _ _ hall hu hlist

/-- Entering a queue. -/
theorem enter_alike (hc : mFuncs.All fun f => ∀ words, Gives ListJob.Named (f words))
    (hs : Ready c) (hnew : env.newQueue = true) (pl : Where Nat) (pl' : Where Str)
    (at_ word : Str) :
    SameStep (some (QueueList.enter (sqliteTerminal l opts) env at_ word ⟨m, mFuncs, pl, c⟩))
      (some (QueueList.enter (grpcTerminal l opts) env at_ word ⟨m, mFuncs, pl', c⟩)) := by
  have hlocal : (sqliteTerminal l opts).queueList.getQueue env.newQueue word c =
    c.getQueue word := rfl
  have hremote : (grpcTerminal l opts).queueList.getQueue env.newQueue word c =
      (c.getQueue word).map fun _ => word := by
    simp only [grpcTerminal, GRPCQueueList.queueList, QueueListImpl.getQueue, queueList, hnew]
    obtain hq | ⟨k, hq⟩ := (c.getQueue word).eq_none_or_eq_some
    · simp [hq, Status.ok]
    · have hword : word ≠ [] := by
        rintro rfl
        rw [getQueue, hs.unnamed] at hq
        cases hq
      simp [hq, hword, Status.ok, Status.OK]
  unfold QueueList.enter
  dsimp only
  rw [hlocal, hremote]
  cases hq : c.getQueue word with
  | none => exact Alike.same _ ⟨rfl, rfl, rfl, .atList 1, hc, hs⟩
  | some k =>
      rw [Option.map_some]
      cases env.cwd with
      | none => exact Alike.same _ ⟨rfl, rfl, rfl, .atList 1, hc, hs⟩
      | some cwd =>
          exact Alike.same _ ⟨rfl, rfl, rfl, .inQueue hq (Queue.all_init opts cwd), hc, hs⟩

/-- A round at the prompt of the list. -/
theorem list_round {ret : Int} (hc : mFuncs.All fun f => ∀ words, Gives ListJob.Named (f words))
    (hs : Ready c) (hnew : env.newQueue = true) :
    SameStep (QueueList.round (sqliteTerminal l opts) env words ret ⟨m, mFuncs, .atList ret, c⟩)
      (QueueList.round (grpcTerminal l opts) env words ret ⟨m, mFuncs, .atList ret, c⟩) := by
  cases words with
  | nil => exact .none
  | cons word rest =>
      unfold QueueList.round
      dsimp only
      split
      · exact Alike.same _ ⟨rfl, rfl, rfl, .atList 0, hc, hs⟩
      split
      · exact Alike.same _ ⟨rfl, rfl, rfl, .returned ret, hc, hs⟩
      have hall : (mFuncs.at word).2.All _ := hc.at
      rcases hat : mFuncs.at word with ⟨_ | f, mFuncs'⟩ <;> rw [hat] at hall <;> dsimp only
      · exact enter_alike hall hs hnew _ _ _ _
      · have hf := hc.target (congrArg Prod.fst hat)
        cases hjob : f (word :: rest) with
        | error p => exact Alike.same _ ⟨rfl, rfl, rfl, .atList _, hall, hs⟩
        | ok job =>
            have hnamed := hf (word :: rest) job hjob
            have hrun : job.run _ env c = job.run _ env c := run_listJob hnamed
            show SameStep (Option.map _ (job.run queueList env c))
              (Option.map _ (job.run (GRPCQueueList.queueList queueList) env c))
            rw [hrun]
            cases hres : job.run queueList env c with
            | none => exact .none
            | some r =>
                exact Alike.same _ ⟨rfl, rfl, rfl, .atList _, hall, hs.runListJob hnamed hres⟩

/-- The steps of the queues leave the list alone. -/
theorem Ready.own {b : ServiceAction} {u : Service} (hs : Ready c) (h : ownStep b c = some u) :
    Ready u ∧ ∀ n, u.getQueue n = c.getQueue n := by
  have hobj : ∀ {a : ServiceAction} {r : ServiceOutput × Service}, c.act none a = some r →
      a.isRequest = false → a ≠ .restart → Ready r.2 ∧ ∀ n, r.2.getQueue n = c.getQueue n := by
    intro a r hr ha hrestart
    have hm : Moves c none a r.1 r.2 := .of_act hr
    refine ⟨hs.moves hm, fun n => ?_⟩
    revert hm
    generalize r.1 = o
    generalize r.2 = u
    intro hm
    cases hm with
    | create => cases ha
    | quiet _ _ _ hkeep =>
        refine hkeep n ?_
        cases a with
        | request => cases ha
        | destroy | worker | restart => exact List.not_mem_nil
    | called => rfl
    | restart => exact absurd rfl hrestart
  unfold ownStep at h
  split at h
  · obtain ⟨r, hr, rfl⟩ := Option.map_eq_some_iff.mp h
    exact hobj hr rfl (by simp)
  · obtain ⟨r, hr, rfl⟩ := Option.map_eq_some_iff.mp h
    exact hobj hr rfl (by simp)
  · cases h

/-- **Step lemma.** -/
theorem step_alike {s : QueueList Nat Service} {t : QueueList Str Service}
    {a : CLIAction ServiceAction} (h : Alike s t) (hag : s.Agrees (fun k _ => some k) a) :
    SameStep (s.step (sqliteTerminal l opts) a) (t.step (grpcTerminal l opts) a) := by
  obtain ⟨m₀, mFuncs₀, pl, c₀⟩ := s
  obtain ⟨m, mFuncs, pl', c⟩ := t
  obtain ⟨rfl, rfl, rfl, hplace, hc, hs⟩ := h
  dsimp only at hplace hc hs
  cases a with
  | own b =>
      show SameStep (Option.map _ (ownStep b c)) (Option.map _ (ownStep b c))
      cases hb : ownStep b c with
      | none => exact .none
      | some u =>
          obtain ⟨hu, hlist⟩ := hs.own hb
          refine Alike.same _ ⟨rfl, rfl, rfl, ?_, hc, hu⟩
          cases hplace with
          | atList ret => exact .atList ret
          | inQueue hk hf => exact .inQueue ((hlist _).trans hk) hf
          | returned ret => exact .returned ret
  | failed =>
      cases hplace with
      | atList ret => exact Alike.same _ ⟨rfl, rfl, rfl, .atList ret, hc, hs⟩
      | inQueue hk hf => exact Alike.same _ ⟨rfl, rfl, rfl, .inQueue hk hf, hc, hs⟩
      | returned => exact .none
  | line env line =>
      obtain ⟨hnew, hag⟩ := hag
      unfold QueueList.step
      dsimp only
      split
      · exact .none
      cases hplace with
      | atList ret => exact list_round hc hs hnew
      | @inQueue name k f ret hk hf =>
          refine queue_round hc hs hk hf fun word rest g job hwords hg hjob => ?_
          refine hag k rfl k rfl job ?_
          rw [hwords] at hjob
          simp only [Where.mFuncs, asked, hwords, hg, hjob, Option.mem_some_iff]
      | returned => exact .none

/-- The local client may be asked about instead of the remote one. -/
theorem Alike.agrees_iff {s : QueueList Nat Service} {t : QueueList Str Service}
    {a : CLIAction ServiceAction} (h : Alike s t) :
    t.Agrees (fun name c => c.getQueue name) a ↔ s.Agrees (fun k _ => some k) a := by
  obtain ⟨m₀, mFuncs₀, pl, c₀⟩ := s
  obtain ⟨m, mFuncs, pl', c⟩ := t
  obtain ⟨rfl, rfl, rfl, hplace, hc, hs⟩ := h
  dsimp only at hplace
  cases a with
  | own | failed => exact Iff.rfl
  | line env line =>
      refine and_congr_right fun _ => ?_
      cases hplace with
      | atList | returned => simp [Where.mQueue]
      | inQueue hk => simp [Where.mQueue, Where.mFuncs, hk]

end Alike

end CLI

end SimpleTaskQueue
