import SimpleTaskQueue.Refinement.Worker
/-!
# SimpleTaskQueue.Properties.Destructor

**`~SQLiteQueue` ends.** It calls `stopImpl` and then waits for the thread of `mainLoop`.
`stopImpl` does nothing where it finds `m_isRunning` cleared. That is wrong in one case: a `start`
came between the end of a thread's loop and the thread's last step, which clears `m_isRunning`.
Elsewhere a thread has at most six steps to make before it returns, besides polling a process that
goes on running, and it can always make the next one.

`stopImpl` is one step here, so that no `start` comes in between its two stores. The calls on the
process object are taken to return, and no thread to wait for a mutex for ever.
-/

namespace SimpleTaskQueue

open Sqlite Runs SQLiteQueue

/-- The steps a thread has still to make once `m_start` is cleared. -/
def Pc.rank : Pc → Nat
  | init => 6
  | startProcess => 5
  | poll | finFailed => 4
  | fin | clearStart => 3
  | test => 2
  | clearRunning => 1
  | returned => 0

theorem Pc.rank_le (pc : Pc) : pc.rank ≤ 6 := by
  cases pc <;> decide

/-- The process is polled and goes on running. -/
def waits : Action × Output → Bool
  | (.worker _ (.isRunning true), _) => true
  | _ => false

/-- A step of a thread. -/
def Action.IsWorker : Action → Prop
  | .worker _ _ => True
  | _ => False

instance (a : Action) : Decidable a.IsWorker := by
  cases a <;> unfold Action.IsWorker <;> infer_instance

variable {q u : SQLiteQueue} {pc pc' : Pc} {w : Work} {o : Output} {i : Nat} {a : Action}
  {es : List (Action × Output)}

/-- The steps that all threads together have still to make. -/
def remaining (q : SQLiteQueue) : Nat := (q.threads.map Pc.rank).sum

/-- **Step lemma.** -/
theorem rank_loopStep (hq : q.mStart = false) (h : LoopStep q pc w o u pc') :
    u.mStart = false ∧
      (if waits (.worker i w, o) then 0 else 1) + pc'.rank ≤ pc.rank := by
  cases h with
  | test => simp [hq, Pc.rank, waits]
  | init env =>
      rcases q.runInit_cases env with ⟨-, hrun⟩ | ⟨t, -, hrun⟩ | ⟨-, hrun⟩ <;> rw [hrun] <;>
        simp [Pc.rank, waits, SQLiteQueue.call, hq]
  | startProcess ok => cases ok <;> simp [hq, Pc.rank, waits]
  | poll running => cases running <;> simp [hq, Pc.rank, waits]
  | fin env exitCode => simp [Pc.rank, waits, runFin, SQLiteQueue.call, hq]
  | finFailed env exitCode => simp [Pc.rank, waits, runFin, SQLiteQueue.call, hq]
  | clearStart => simp [Pc.rank, waits]
  | clearRunning => simp [hq, Pc.rank, waits]

theorem remaining_step (hq : q.mStart = false) (ha : a.IsWorker) (hs : q.step a = some (o, u)) :
    u.mStart = false ∧ (if waits (a, o) then 0 else 1) + remaining u ≤ remaining q := by
  cases a with
  | worker i w =>
      obtain ⟨pc, pc', q', hpc, hl, rfl⟩ := step_worker hs
      obtain ⟨hstart, hle⟩ := rank_loopStep (i := i) hq hl
      have hsum : ((q.threads.set i pc').map Pc.rank).sum + pc.rank = remaining q + pc'.rank :=
        sum_map_set hpc
      refine ⟨hstart, ?_⟩
      show _ + ((q.threads.set i pc').map Pc.rank).sum ≤ _
      omega
  | listPending | listFinished | pendingDetails | finishedDetails | clearPending | clearFinished
  | currentTask | addTask | removeTask | start | stop => cases ha

/-- A thread that has not returned can make a step. -/
theorem enabled (hpc : q.threads[i]? = some pc) (hne : pc ≠ .returned) :
    ∃ w, (q.step (.worker i w)).isSome = true := by
  have hstep : ∀ w r, q.mainLoop pc w = some r → (q.step (.worker i w)).isSome = true := by
    intro w r hr
    simp only [SQLiteQueue.step, hpc, hr, Option.map_some, Option.isSome_some]
  cases pc with
  | test => exact ⟨.go, hstep _ _ rfl⟩
  | init => exact ⟨.init .rowid, hstep _ _ rfl⟩
  | startProcess => exact ⟨.start true, hstep _ _ rfl⟩
  | poll => exact ⟨.isRunning false, hstep _ _ rfl⟩
  | fin => exact ⟨.fin .rowid none, hstep _ _ rfl⟩
  | finFailed => exact ⟨.fin .rowid none, hstep _ _ rfl⟩
  | clearStart => exact ⟨.go, hstep _ _ rfl⟩
  | clearRunning => exact ⟨.go, hstep _ _ rfl⟩
  | returned => exact absurd rfl hne

theorem remaining_le (q : SQLiteQueue) : remaining q ≤ 6 * q.threads.length := by
  unfold remaining
  induction q.threads with
  | nil => rfl
  | cons pc pcs ih =>
      have hpc := pc.rank_le
      simp only [List.map_cons, List.sum_cons, List.length_cons]
      omega

theorem threads_stopImpl : q.stopImpl.threads = q.threads := by
  unfold stopImpl
  split <;> rfl

/-- **Ranking.** Behind a `stopImpl` that clears `m_start`. -/
theorem run_stopped (hq : q.stopImpl.mStart = false)
    (h : Run SQLiteQueue.step (fun _ a => a.IsWorker) q.stopImpl es u) :
    (es.filter fun e => !waits e).length + remaining u ≤ 6 * q.threads.length := by
  obtain ⟨-, hrank⟩ := Run.ranked (I := fun q => q.mStart = false) remaining
    (fun e => if waits e then 0 else 1) h hq fun q a o u hq ha hs => remaining_step hq ha hs
  have hlen : ∀ es : List (Action × Output), (es.map fun e => if waits e then 0 else 1).sum =
      (es.filter fun e => !waits e).length := by
    intro es
    induction es with
    | nil => rfl
    | cons e es ih => cases hw : waits e <;> simp [hw, ih, Nat.add_comm]
  have hle := remaining_le q.stopImpl
  rw [threads_stopImpl] at hle
  rw [hlen] at hrank
  omega

/-- A queue that is to go on says that it runs. -/
def Heeded (q : SQLiteQueue) : Prop := q.mStart = true → q.mIsRunning = true

/-- `stopImpl` clears `m_start`, unless it finds the queue not running. -/
theorem mStart_stopImpl : q.stopImpl.mStart = false ↔ Heeded q := by
  unfold stopImpl Heeded
  cases q.mIsRunning <;> simp

/-- No thread that has left its loop clears `m_isRunning` when a `start` has overtaken it. -/
def InOrder (q : SQLiteQueue) : Action → Prop
  | .worker i .go => q.threads[i]? = some .clearRunning → q.mStart = false
  | _ => True

/-- **Step lemma.** -/
theorem heeded_step_iff (h : Heeded q) (hs : q.step a = some (o, u)) :
    Heeded u ↔ InOrder q a := by
  cases a with
  | worker i w =>
      obtain ⟨pc, pc', q', hpc, hl, rfl⟩ := step_worker hs
      cases hl with
      | test =>
          refine iff_of_true h fun hi => ?_
          cases hpc.symm.trans hi
      | init env =>
          refine iff_of_true ?_ trivial
          rcases q.runInit_cases env with ⟨-, hrun⟩ | ⟨t, -, hrun⟩ | ⟨-, hrun⟩ <;> rw [hrun]
          · exact h
          · exact h
          · exact fun hstart => absurd hstart Bool.false_ne_true
      | startProcess | poll => exact iff_of_true h trivial
      | fin | finFailed =>
          exact iff_of_true (fun hstart => h (Bool.and_eq_true_iff.mp hstart).1) trivial
      | clearStart =>
          refine iff_of_true (fun hstart => absurd hstart Bool.false_ne_true) fun hi => ?_
          cases hpc.symm.trans hi
      | clearRunning =>
          show (q.mStart = true → false = true) ↔ (q.threads[i]? = some .clearRunning → _)
          simp [hpc]
  | start =>
      obtain ⟨-, rfl⟩ := Prod.mk.inj (Option.some.inj hs)
      refine iff_of_true ?_ trivial
      unfold SQLiteQueue.start
      split
      · exact h
      · exact fun _ => rfl
  | stop =>
      obtain ⟨-, rfl⟩ := Prod.mk.inj (Option.some.inj hs)
      refine iff_of_true (fun hstart => ?_) trivial
      simp [mStart_stopImpl.mpr h] at hstart
  | listPending | listFinished | pendingDetails | finishedDetails | clearPending | clearFinished
  | currentTask | addTask | removeTask =>
      obtain ⟨-, rfl⟩ := Prod.mk.inj (Option.some.inj hs)
      exact iff_of_true h trivial

/-- **The destructor ends.** In a run with any number of threads, `~SQLiteQueue` clears `m_start`
whenever it is called if and only if no thread clears `m_isRunning` after a `start` that has
overtaken it. It then waits for at most six steps of each thread, not counting the polls of a
process that goes on running, and until all threads have returned one of them can make a step.
`stopImpl` is one step, and so is each step of a thread. -/
theorem destructor_ends (h : Run SQLiteQueue.step anyAction fresh es q) :
    ((∀ es₁ es₂ t, es = es₁ ++ es₂ → Run SQLiteQueue.step anyAction fresh es₁ t →
          t.stopImpl.mStart = false) ↔
        ∀ es₁ a o es₂ t, es = es₁ ++ (a, o) :: es₂ →
          Run SQLiteQueue.step anyAction fresh es₁ t → InOrder t a) ∧
      (q.stopImpl.mStart = false →
        ∀ es' u, Run SQLiteQueue.step (fun _ a => a.IsWorker) q.stopImpl es' u →
          (es'.filter fun e => !waits e).length + remaining u ≤ 6 * q.threads.length ∧
            ((∀ pc ∈ u.threads, pc = .returned) ∨
              ∃ i w, (u.step (.worker i w)).isSome = true)) := by
  constructor
  · refine h.always_iff (I := Heeded) (fun hstart => absurd hstart Bool.false_ne_true)
      (fun t => mStart_stopImpl.mpr) ?_ ?_
    · exact fun _ _ _ _ _ _ ht _ hs => (heeded_step_iff ht hs).mpr
    · exact fun _ _ _ _ _ _ ht _ hs hno hu =>
        hno ((heeded_step_iff ht hs).mp (mStart_stopImpl.mp hu))
  · intro hq es' u hrun
    refine ⟨run_stopped hq hrun, ?_⟩
    by_cases hall : ∀ pc ∈ u.threads, pc = .returned
    · exact .inl hall
    · simp only [not_forall] at hall
      obtain ⟨pc, hmem, hne⟩ := hall
      obtain ⟨i, hi⟩ := List.getElem?_of_mem hmem
      obtain ⟨w, hw⟩ := enabled hi hne
      exact .inr ⟨i, w, hw⟩

/-- A thread polls the process of its task. -/
def pollingThread : List Action :=
  [.addTask .rowid listing, .start, .worker 0 .go, .worker 0 (.init .rowid),
    .worker 0 (.start true)]

theorem pollingThread_runs : (script SQLiteQueue.step anyAction fresh pollingThread).isSome := by
  decide +kernel

theorem destructor_ends_pollingThread :
    let r := (script SQLiteQueue.step anyAction fresh pollingThread).get pollingThread_runs
    ((∀ es₁ es₂ t, r.1 = es₁ ++ es₂ → Run SQLiteQueue.step anyAction fresh es₁ t →
          t.stopImpl.mStart = false) ↔
        ∀ es₁ a o es₂ t, r.1 = es₁ ++ (a, o) :: es₂ →
          Run SQLiteQueue.step anyAction fresh es₁ t → InOrder t a) ∧
      (r.2.stopImpl.mStart = false →
        ∀ es' u, Run SQLiteQueue.step (fun _ a => a.IsWorker) r.2.stopImpl es' u →
          (es'.filter fun e => !waits e).length + remaining u ≤ 6 * r.2.threads.length ∧
            ((∀ pc ∈ u.threads, pc = .returned) ∨
              ∃ i w, (u.step (.worker i w)).isSome = true)) :=
  destructor_ends (Run.of_script pollingThread_runs)

end SimpleTaskQueue
