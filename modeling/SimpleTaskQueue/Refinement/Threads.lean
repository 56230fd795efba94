import SimpleTaskQueue.Model.Dao.SQLiteQueue.Threads
/-!
# SimpleTaskQueue.Refinement.Threads

The code of a thread does, on its own, what the call does as one step (`GuardedCall.run_code`), and
it keeps to the rules of locking (`GuardedCall.proper_code`).

`Performs` says of code without mutexes what it does to the connection; there is a rule for each
way to build code, and a lemma for each helper.
-/

namespace SimpleTaskQueue

open Sqlite
open Locking (Code)
open Locking.Code (Keeps Locks Done Proper lock unlock)
open Mutex (Op)

variable {ε τ β γ : Type} {name : TableName} {env : Env} {id : Int} {out t : Task}

/-- The code, whose thread holds `m_token->mutex`, does `m` on the connection, and nothing else. -/
structure Performs (x : ThreadM β) (m : QueueM β) : Prop where
  keeps : ∀ {Q : β → Bool → Set Lock → Prop} {grows : Bool} {held : Set Lock}, .token ∈ held →
    (∀ b, Q b grows held) → x.Keeps Q grows held
  locks : ∀ {Q : β → List (Op Lock) → Prop} {ops : List (Op Lock)},
    (∀ b, Q b ops) → x.Locks Q ops
  run : ∀ A, x.run A = ((m (A .token)).1, Function.update A .token (m (A .token)).2)

namespace Performs

variable {x x' : ThreadM β} {m m' : QueueM β} {f : β → ThreadM γ} {g : β → QueueM γ}

theorem pure (b : β) : Performs (pure b) (pure b) where
  keeps _ h := h b
  locks h := h b
  run _ := (congrArg (Prod.mk b) (Function.update_eq_self ..)).symm

theorem sqlite (m : QueueM β) : Performs (ThreadM.sqlite m) m where
  keeps hm h := ⟨hm, fun _ => h _⟩
  locks h := fun _ => h _
  run _ := rfl

theorem bind (h : Performs x m) (hf : ∀ b, Performs (f b) (g b)) :
    Performs (x >>= f) (m >>= g) where
  keeps hm hQ := Locking.Code.keeps_bind.mpr (h.keeps hm fun b => (hf b).keeps hm hQ)
  locks hQ := Locking.Code.locks_bind.mpr (h.locks fun b => (hf b).locks hQ)
  run A := by
    rw [Locking.Code.bind_eq, Locking.Code.run_bind, h.run, (hf _).run]
    simp only [Function.update_self, Function.update_idem]
    rfl

theorem ite {c : Prop} [Decidable c] (h : Performs x m) (h' : Performs x' m') :
    Performs (if c then x else x') (if c then m else m') := by
  split
  · exact h
  · exact h'

end Performs

/-! ### Prepared statements -/

theorem performs_bindAll (i : Nat) (vals : List Value) :
    Performs (ThreadM.bindAll i vals) (Sqlite.bindAll i vals) := by
  induction vals generalizing i with
  | nil => exact .pure _
  | cons v vs ih => exact .bind (.sqlite _) fun _ => .ite (.pure _) (ih _)

theorem performs_execute {q : Sql TableName} {vals : List Value} {early late ok : ε} :
    Performs (ThreadM.execute q vals early late ok) (Sqlite.execute q vals early late ok) := by
  refine .bind (.sqlite _) fun _ => .ite (.bind (.sqlite _) fun _ => .pure _) ?_
  refine .bind (performs_bindAll ..) fun _ => .ite (.bind (.sqlite _) fun _ => .pure _) ?_
  refine .bind (.sqlite _) ?_
  intro r
  cases r with
  | row | done | error => exact .bind (.sqlite _) fun _ => .pure _

theorem performs_fetch {f : τ → Record → τ × Option ε} {onError : ε} (n : Nat) (s : τ) :
    Performs (ThreadM.fetch f onError n s) (Sqlite.fetch f onError n s) := by
  induction n generalizing s with
  | zero => exact .pure _
  | succ n ih =>
      refine .bind (.sqlite _) ?_
      intro r
      cases r with
      | row r =>
          rcases hf : f s r with ⟨s', _ | e⟩
          · simpa only [hf] using ih s'
          · simpa only [hf] using Performs.pure (s', some e)
      | done | error => exact .pure _

theorem performs_query {q : Sql TableName} {vals : List Value} {f : τ → Record → τ × Option ε}
    {s : τ} {onError : ε} :
    Performs (ThreadM.query q vals f s onError) (Sqlite.query q vals f s onError) := by
  refine .bind (.sqlite _) fun _ => .ite (.bind (.sqlite _) fun _ => .pure _) ?_
  refine .bind (performs_bindAll ..) fun _ => .ite (.bind (.sqlite _) fun _ => .pure _) ?_
  refine .bind (.sqlite _) fun _ => .bind (performs_fetch ..) ?_
  intro _
  exact .bind (.sqlite _) fun _ => .pure _

/-! ### The helpers -/

theorem performs_clearTable :
    Performs (ThreadM.clearTable name) (SimpleTaskQueue.clearTable name) := performs_execute

theorem performs_listIDInTable :
    Performs (ThreadM.listIDInTable name) (SimpleTaskQueue.listIDInTable name) :=
  .bind performs_query fun _ => .pure _

theorem performs_taskDetails :
    Performs (ThreadM.taskDetails name id out) (SimpleTaskQueue.taskDetails name id out) := by
  refine .bind performs_query ?_
  intro r
  obtain ⟨s, _ | e⟩ := r
  · exact .ite (.pure _) (.pure _)
  · exact .pure _

theorem performs_addTaskToTable :
    Performs (ThreadM.addTaskToTable name t) (SimpleTaskQueue.addTaskToTable name t) :=
  performs_execute

theorem performs_getID {out : Int} :
    Performs (ThreadM.getID out) (SimpleTaskQueue.getID out) := by
  refine .bind performs_query ?_
  intro r
  obtain ⟨s, _ | e⟩ := r
  · exact .ite (.pure _) (.bind performs_execute fun _ => .pure _)
  · exact .pure _

theorem performs_addTaskImpl :
    Performs (ThreadM.addTaskImpl t) (SimpleTaskQueue.addTask t) :=
  .bind performs_getID fun _ => .ite (.pure _) (.bind performs_addTaskToTable fun _ => .pure _)

theorem performs_removeTaskFromPending : Performs (ThreadM.removeTaskFromPending id false)
    (SimpleTaskQueue.removeTaskFromPending t id false) := by
  have hno : ¬ (false = true ∧ id = t.ID) := fun h => Bool.false_ne_true h.1
  rw [SimpleTaskQueue.removeTaskFromPending, if_neg hno]
  exact performs_execute

/-! ### The calls -/

variable {x : ThreadM β} {m : QueueM β} {A : ∀ m, Guarded m} {q : SQLiteQueue}

@[simp] theorem guarded_token : q.guarded .token = q.mToken := rfl

@[simp] theorem guarded_currentTask : q.guarded .currentTask = q.mCurrentTask := rfl

theorem update_token (c : Conn TableName) :
    Function.update q.guarded .token c = { q with mToken := c }.guarded := by
  funext m
  cases m <;> rfl

theorem update_currentTask (t : Task) :
    Function.update q.guarded .currentTask t = { q with mCurrentTask := t }.guarded := by
  funext m
  cases m <;> rfl

theorem run_underToken : (ThreadM.underToken env x).run A =
    x.run (Function.update A .token ((A .token).given env)) := by
  rw [ThreadM.underToken, Code.bind_eq, Code.run_bind, Code.bind_eq, Code.run_bind, Code.bind_eq,
    Code.run_bind]
  rfl

theorem keeps_underToken {Q : β → Bool → Set Lock → Prop} {held : Set Lock} (hm : .token ∉ held)
    (h : x.Keeps (fun b _ held => .token ∈ held ∧ Q b false (held \ {.token})) true
      (insert .token held)) : (ThreadM.underToken env x).Keeps Q true held := by
  refine Code.keeps_bind.mpr ⟨rfl, hm, Code.keeps_bind.mpr ⟨Set.mem_insert .., fun _ => ?_⟩⟩
  exact Code.keeps_bind.mpr h

/-- The code of a call is proper when the part under the mutex is. -/
theorem proper_underToken (h : x.Keeps (fun _ _ held => held = {.token}) true {.token}) :
    (ThreadM.underToken env x).Proper := by
  refine keeps_underToken (Set.notMem_empty _) ?_
  rw [insert_empty_eq]
  refine h.mono ?_
  intro _ _ held hheld
  rw [hheld]
  exact ⟨rfl, Set.sdiff_self⟩

/-- The code of a call keeps to the rules, and on its own it gives `r`. -/
structure Does (x : ThreadM β) (q : SQLiteQueue) (r : β × SQLiteQueue) : Prop where
  proper : x.Proper
  run : x.run q.guarded = (r.1, r.2.guarded)

theorem Does.map {r : β × SQLiteQueue} (h : Does x q r) (f : β → γ) :
    Does (f <$> x) q (f r.1, r.2) where
  proper := h.proper.map f
  run := by
    rw [Code.map_eq, Code.run_bind, h.run]
    rfl

theorem Performs.does (h : Performs x m) : Does (ThreadM.underToken env x) q (q.call env m) where
  proper := proper_underToken (h.keeps (Set.mem_singleton _) fun _ => rfl)
  run := by
    rw [run_underToken, h.run, guarded_token, Function.update_idem, Function.update_self,
      update_token]
    rfl

/-- `m_currentTaskMutex` is released within `m_token->mutex`. -/
theorem release_currentTask :
    (insert .currentTask {.token} : Set Lock) \ {.currentTask} = {.token} :=
  Set.insert_sdiff_self_of_notMem (by decide)

theorem does_clearPending :
    Does (ThreadM.clearPending env) q (q.call env SimpleTaskQueue.clearPending) where
  proper := by
    refine proper_underToken (Code.keeps_bind.mpr ⟨rfl, by decide, Code.keeps_bind.mpr ?_⟩)
    exact performs_clearTable.keeps (by simp) fun _ => ⟨by simp, release_currentTask⟩
  run := by
    have hdoes : Does (ThreadM.underToken env (ThreadM.clearTable .pending)) q
      (q.call env SimpleTaskQueue.clearPending) := performs_clearTable.does
    rw [← hdoes.run, ThreadM.clearPending, run_underToken, run_underToken]
    simp

theorem does_addTask :
    Does (ThreadM.addTask env t) q (q.call env (SimpleTaskQueue.addTask t)) :=
  performs_addTaskImpl.does

theorem does_currentTask : Does ThreadM.currentTask q (q.mCurrentTask, q) where
  proper := by
    refine ⟨rfl, Set.notMem_empty _, Set.mem_insert .., fun _ => ⟨Set.mem_insert .., ?_⟩⟩
    rw [insert_empty_eq, Set.sdiff_self]
    rfl
  run := by simp [ThreadM.currentTask, ThreadM.onCurrentTask, update_currentTask]

/-- With `m_currentTaskMutex` held over the comparison only. -/
theorem run_removeTaskFromPending (id : Int) : (ThreadM.removeTaskFromPending id true).run A =
    ((SimpleTaskQueue.removeTaskFromPending (A .currentTask) id true (A .token)).1,
      Function.update A .token
        (SimpleTaskQueue.removeTaskFromPending (A .currentTask) id true (A .token)).2) := by
  by_cases hid : id = (A .currentTask).ID
  · simp [ThreadM.removeTaskFromPending, SimpleTaskQueue.removeTaskFromPending,
      ThreadM.onCurrentTask, hid, Sqlite.run_pure]
  · simp [ThreadM.removeTaskFromPending, SimpleTaskQueue.removeTaskFromPending,
      ThreadM.onCurrentTask, hid, performs_execute.run]

theorem does_removeTask : Does (ThreadM.removeTask env id) q
    (q.call env (SimpleTaskQueue.removeTask q.mCurrentTask id)) where
  proper := by
    refine proper_underToken (Code.keeps_bind.mpr ⟨rfl, by decide, ?_⟩)
    refine Code.keeps_bind.mpr ⟨Set.mem_insert .., fun t => Code.keeps_bind.mpr ?_⟩
    refine ⟨Set.mem_insert .., ?_⟩
    rw [release_currentTask]
    split
    · rfl
    · exact performs_execute.keeps (Set.mem_singleton _) fun _ => rfl
  run := by
    rw [ThreadM.removeTask, run_underToken, run_removeTaskFromPending]
    simp only [Function.update_self, update_token, guarded_token]
    rfl

/-- `m_currentTask` behind `mainLoopInit`. -/
def InitResult.currentTask (before : Task) : InitResult → Task
  | picked t => t
  | _ => before

theorem run_mainLoopInit {c : Conn TableName} (hc : c = (A .token).given env) :
    (ThreadM.mainLoopInit env).run A =
      ((SimpleTaskQueue.mainLoopInit c).1,
        Function.update (Function.update A .token (SimpleTaskQueue.mainLoopInit c).2) .currentTask
          ((SimpleTaskQueue.mainLoopInit c).1.currentTask (A .currentTask))) := by
  rw [ThreadM.mainLoopInit, run_underToken, ← hc]
  simp only [SimpleTaskQueue.mainLoopInit, Sqlite.run_bind, run_ite, run_pure, Code.bind_eq,
    Code.run_bind, ThreadM.sqlite, Code.run_on, Function.update_self, Function.update_idem]
  rcases prepare (.select TableName.pending none none (some 1)) c with ⟨failed, c₁⟩
  cases failed with
  | true => exact Prod.ext rfl (funext fun m => by cases m <;> rfl)
  | false =>
      simp only [Bool.false_eq_true, if_false, Code.run_bind, Code.run_on, Function.update_self,
        Function.update_idem]
      rcases step c₁ with ⟨r, c₂⟩
      cases r with
      | row | done | error => exact Prod.ext rfl (funext fun m => by cases m <;> rfl)

theorem does_mainLoopInit : Does (.inited <$> ThreadM.mainLoopInit env) q
    ((q.runInit env).1, (q.runInit env).2.1) where
  proper := by
    refine Code.Proper.map (proper_underToken (Code.keeps_bind.mpr ?_)) _
    refine (Performs.sqlite _).keeps rfl ?_
    intro failed
    split
    · exact ⟨rfl, fun _ => rfl⟩
    · refine Code.keeps_bind.mpr ((Performs.sqlite _).keeps rfl fun r => ?_)
      split
      · refine ⟨rfl, by decide, Set.mem_insert .., fun _ => ⟨Set.mem_insert .., ?_⟩⟩
        rw [release_currentTask]
        exact ⟨rfl, fun _ => rfl⟩
      · exact ⟨rfl, fun _ => rfl⟩
  run := by
    rw [Code.map_eq, Code.run_bind, run_mainLoopInit rfl, guarded_token]
    unfold SQLiteQueue.runInit SQLiteQueue.call
    rcases SimpleTaskQueue.mainLoopInit (q.mToken.given env) with ⟨r, c⟩
    cases r with
    | notPrepared | picked | stopped => exact Prod.ext rfl (funext fun m => by cases m <;> rfl)

theorem run_mainLoopFinDB {c : Conn TableName} (n : Int) (hc : c = (A .token).given env) :
    (ThreadM.mainLoopFinDB env t n).run A =
      ((SimpleTaskQueue.mainLoopFin t (some n) c).1,
        Function.update
          (Function.update A .token (SimpleTaskQueue.mainLoopFin t (some n) c).2)
          .currentTask Task.blank) := by
  rw [ThreadM.mainLoopFinDB, run_underToken, ← hc]
  simp only [SimpleTaskQueue.mainLoopFin, Sqlite.run_bind, run_ite, run_pure, Code.bind_eq,
    Code.run_bind, (performs_removeTaskFromPending (t := t)).run, Function.update_self,
    Function.update_idem]
  rcases SimpleTaskQueue.removeTaskFromPending t t.ID false c with ⟨code, c₁⟩
  by_cases hcode : code = .INVALID_ARGUMENT ∨ code = .OS_ERROR
  · rw [if_pos hcode, if_pos hcode]
    exact Prod.ext rfl (funext fun m => by cases m <;> rfl)
  · rw [if_neg hcode, if_neg hcode]
    simp only [Code.run_bind, performs_addTaskToTable.run, Function.update_self,
      Function.update_idem]
    rcases SimpleTaskQueue.addTaskToTable .done { t with exitCode := n } c₁ with ⟨rc, c₂⟩
    by_cases hrc : rc ≠ .OK
    · rw [if_pos hrc, if_pos hrc]
      exact Prod.ext rfl (funext fun m => by cases m <;> rfl)
    · rw [if_neg hrc, if_neg hrc]
      exact Prod.ext rfl (funext fun m => by cases m <;> rfl)

/-- `m_token->mutex` is released within `m_currentTaskMutex`. -/
theorem release_token : (insert .token {.currentTask} : Set Lock) \ {.token} = {.currentTask} :=
  Set.insert_sdiff_self_of_notMem (by decide)

theorem keeps_mainLoopFinDB {Q : FinResult → Bool → Set Lock → Prop} (n : Int)
    (hQ : ∀ r, Q r false {.currentTask}) :
    (ThreadM.mainLoopFinDB env t n).Keeps Q true {.currentTask} := by
  refine keeps_underToken (by decide) (Code.keeps_bind.mpr ?_)
  have hend : ∀ r, .token ∈ (insert .token {.currentTask} : Set Lock) ∧
      Q r false ((insert .token {.currentTask} : Set Lock) \ {.token}) := by
    intro r
    rw [release_token]
    exact ⟨Set.mem_insert .., hQ r⟩
  have hreset : ∀ r, (ThreadM.onCurrentTask (fun _ => ((), Task.blank)) >>= fun _ =>
      (pure r : ThreadM FinResult)).Keeps
        (fun r _ held => .token ∈ held ∧ Q r false (held \ {.token})) true
        (insert .token {.currentTask}) := by
    intro r
    exact ⟨Set.mem_insert_of_mem _ rfl, fun _ => hend r⟩
  refine (performs_removeTaskFromPending (t := t)).keeps (Set.mem_insert ..) ?_
  intro code
  split
  · exact hreset _
  · refine Code.keeps_bind.mpr (performs_addTaskToTable.keeps (Set.mem_insert ..) fun rc => ?_)
    split
    · exact hreset _
    · exact hreset _

theorem does_mainLoopFin (n : Int) :
    Does ((fun r => .finished r.1 r.2) <$> ThreadM.mainLoopFin env (some n)) q
      (q.runFin env (some n)) where
  proper := by
    refine Code.Proper.map (Code.keeps_bind.mpr ?_) _
    refine ⟨rfl, Set.notMem_empty _, ?_⟩
    rw [insert_empty_eq]
    refine Code.keeps_bind.mpr ⟨rfl, fun t => ?_⟩
    exact Code.keeps_bind.mpr (keeps_mainLoopFinDB n fun r => ⟨rfl, Set.sdiff_self⟩)
  run := by
    simp only [ThreadM.mainLoopFin, Code.map_eq, Code.bind_eq, Code.run_bind, Code.run_lock,
      run_mainLoopFinDB n rfl, ThreadM.onCurrentTask, Code.run_on]
    exact Prod.ext rfl (funext fun m => by cases m <;> rfl)

theorem does_noExitCode :
    Does ((fun r => .finished r.1 r.2) <$> ThreadM.mainLoopFin env none) q
      (q.runFin ⟨q.mToken.faults, q.mToken.scan⟩ none) where
  proper := by
    refine Code.Proper.map (Code.keeps_bind.mpr ?_) _
    refine ⟨rfl, Set.notMem_empty _, ?_⟩
    rw [insert_empty_eq]
    exact ⟨rfl, fun t => ⟨rfl, fun _ => ⟨rfl, Set.sdiff_self⟩⟩⟩
  run := Prod.ext rfl (funext fun m => by cases m <;> rfl)

/-! ### All calls -/

/-- **Every call** keeps to the rules, and does on its own what it does as one step. -/
theorem GuardedCall.does (g : GuardedCall) (q : SQLiteQueue) : Does g.code q (g.onQueue q) := by
  cases g with
  | listPending env => exact performs_listIDInTable.does.map _
  | listFinished env => exact performs_listIDInTable.does.map _
  | pendingDetails env id out => exact performs_taskDetails.does.map _
  | finishedDetails env id out => exact performs_taskDetails.does.map _
  | clearPending env => exact does_clearPending.map _
  | clearFinished env => exact performs_clearTable.does.map _
  | currentTask => exact does_currentTask.map _
  | addTask env t => exact does_addTask.map _
  | removeTask env id => exact does_removeTask.map _
  | mainLoopInit env => exact does_mainLoopInit
  | mainLoopFin env exitCode =>
      cases exitCode with
      | some n => exact does_mainLoopFin n
      | none => exact does_noExitCode

/-! ### The operations on the mutexes -/

theorem locks_underToken {Q : β → List (Op Lock) → Prop} {ops : List (Op Lock)}
    (h : x.Locks (fun b ops => Q b (ops ++ [.release .token])) (ops ++ [.acquire .token])) :
    (ThreadM.underToken env x).Locks Q ops :=
  Code.locks_bind.mpr (Code.locks_bind.mpr fun _ => Code.locks_bind.mpr h)

theorem Performs.locks_underToken {Q : β → List (Op Lock) → Prop} (h : Performs x m)
    (hQ : ∀ b, Q b tokenOnly) : (ThreadM.underToken env x).Locks Q [] :=
  SimpleTaskQueue.locks_underToken (h.locks hQ)

/-- On every path the code locks what `LockCall.program` says. -/
theorem GuardedCall.locks_code (g : GuardedCall) :
    g.code.Locks (fun _ ops => ∃ c ∈ g.lockCalls, ops = c.program) [] := by
  cases g with
  | listPending env | listFinished env =>
      exact Code.locks_bind.mpr (performs_listIDInTable.locks_underToken fun _ => ⟨_, .head _, rfl⟩)
  | pendingDetails env id out | finishedDetails env id out =>
      exact Code.locks_bind.mpr (performs_taskDetails.locks_underToken fun _ => ⟨_, .head _, rfl⟩)
  | clearPending env =>
      refine Code.locks_bind.mpr (locks_underToken (Code.locks_bind.mpr (Code.locks_bind.mpr ?_)))
      exact performs_clearTable.locks fun _ => ⟨_, .head _, rfl⟩
  | clearFinished env =>
      exact Code.locks_bind.mpr (performs_clearTable.locks_underToken fun _ => ⟨_, .head _, rfl⟩)
  | currentTask => exact fun _ => ⟨_, .head _, rfl⟩
  | addTask env t =>
      exact Code.locks_bind.mpr (performs_addTaskImpl.locks_underToken fun _ => ⟨_, .head _, rfl⟩)
  | removeTask env id =>
      refine Code.locks_bind.mpr (locks_underToken fun t => ?_)
      show Code.Locks _ (if decide (id = t.ID) = true then _ else _) _
      split
      · exact ⟨_, .head _, rfl⟩
      · exact performs_execute.locks fun _ => ⟨_, .head _, rfl⟩
  | mainLoopInit env =>
      refine Code.locks_bind.mpr (locks_underToken (Code.locks_bind.mpr ?_))
      refine (Performs.sqlite _).locks ?_
      intro failed
      split
      · exact fun _ => ⟨_, .tail _ (.head _), rfl⟩
      · refine Code.locks_bind.mpr ((Performs.sqlite _).locks fun r => ?_)
        split
        · exact fun _ _ => ⟨_, .head _, rfl⟩
        · exact fun _ => ⟨_, .tail _ (.head _), rfl⟩
  | mainLoopFin env exitCode =>
      cases exitCode with
      | none => exact fun _ _ => ⟨_, .head _, rfl⟩
      | some n =>
          refine Code.locks_bind.mpr fun t => Code.locks_bind.mpr (Code.locks_bind.mpr ?_)
          refine locks_underToken (Code.locks_bind.mpr ?_)
          refine (performs_removeTaskFromPending (t := t)).locks ?_
          intro code
          split
          · exact fun _ => ⟨_, .head _, rfl⟩
          · refine Code.locks_bind.mpr (performs_addTaskToTable.locks fun rc => ?_)
            split
            · exact fun _ => ⟨_, .head _, rfl⟩
            · exact fun _ => ⟨_, .head _, rfl⟩

end SimpleTaskQueue
