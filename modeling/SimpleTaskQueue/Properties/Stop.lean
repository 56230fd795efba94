import SimpleTaskQueue.Refinement.File
import SimpleTaskQueue.Refinement.LinuxQueue
/-!
# SimpleTaskQueue.Properties.Stop

**Does `stop` stop the queue?** It clears `m_start`, which a thread reads at the head of its loop
only: a thread that is behind the test goes on to start a process. And it does nothing at all when
`m_isRunning` is false, although an older thread that left the loop late may have cleared the flag
of a queue that runs. In every other position of the threads nothing is started until the next
`start`, and the process of the queue has been sent the signal.
-/

namespace SimpleTaskQueue

open Sqlite Sqlite.Conn Processes Runs

namespace SQLiteQueue

variable {q u : SQLiteQueue} {a : Action} {o : Output} {es : List (Action × Output)} {i : Nat}

/-- From here on, and without a `start`, no process is started, whatever the clients, the threads,
SQLite and the running process do. -/
def Silent (q : SQLiteQueue) : Prop :=
  ∀ es u, Run step (fun _ a => a.isStart = false) q es u → ∀ e ∈ es, ∀ t ok, e.2 ≠ .started t ok

/-- The thread is behind the test of `m_start` and before the start of a process. -/
def Pc.Entered : Pc → Bool
  | .init | .startProcess => true
  | _ => false

/-- The thread comes back to the test and may find `m_start` as it is. -/
def Pc.Looping : Pc → Bool
  | .test | .poll | .fin => true
  | _ => false

/-- No thread is about to start a process, and none will find `m_start` set. -/
structure Idle (q : SQLiteQueue) : Prop where
  entered : ∀ p ∈ q.threads, Pc.Entered p = false
  halted : q.mStart = false ∨ ∀ p ∈ q.threads, Pc.Looping p = false

/-! ### An idle queue is silent -/

/-- Client calls other than `start` do not set `m_start`. -/
theorem step_client_mStart (h : q.step a = some (o, u)) (hw : ∀ i w, a ≠ .worker i w)
    (hs : a.isStart = false) : u.mStart = false ∨ u.mStart = q.mStart := by
  cases a with
  | worker i w => exact absurd rfl (hw i w)
  | start => cases hs
  | stop =>
      simp only [step, Option.some.injEq, Prod.mk.injEq] at h
      obtain ⟨-, rfl⟩ := h
      unfold stopImpl
      split
      · exact .inr rfl
      · exact .inl rfl
  | listPending | listFinished | pendingDetails | finishedDetails | clearPending | clearFinished
  | currentTask | addTask | removeTask =>
      simp only [step, Option.some.injEq, Prod.mk.injEq] at h
      obtain ⟨-, rfl⟩ := h
      exact .inr rfl

/-- Clients do not start processes. -/
theorem step_client_started (h : q.step a = some (o, u)) (hw : ∀ i w, a ≠ .worker i w) (t : Task)
    (ok : Bool) : o ≠ .started t ok := by
  cases a with
  | worker i w => exact absurd rfl (hw i w)
  | start | stop | listPending | listFinished | pendingDetails | finishedDetails | clearPending
  | clearFinished | currentTask | addTask | removeTask =>
      simp only [step, Option.some.injEq, Prod.mk.injEq] at h
      obtain ⟨rfl, -⟩ := h
      intro he
      cases he

/-- One thread of an idle queue moved. -/
theorem Idle.set {pc' : Pc} {q' : SQLiteQueue} (h : q.Idle) (hentered : Pc.Entered pc' = false)
    (hstart : q'.mStart = false ∨ q'.mStart = q.mStart)
    (hloop : q'.mStart = false ∨ Pc.Looping pc' = false) :
    Idle { q' with threads := q.threads.set i pc' } where
  entered := by
    intro p hp
    rcases List.mem_or_eq_of_mem_set hp with hp | rfl
    · exact h.entered p hp
    · exact hentered
  halted := by
    by_cases hq : q'.mStart = false
    · exact .inl hq
    · have hsame := hstart.resolve_left hq
      have hall := h.halted.resolve_left (hsame ▸ hq)
      refine .inr fun p hp => ?_
      rcases List.mem_or_eq_of_mem_set hp with hp | rfl
      · exact hall p hp
      · exact hloop.resolve_left hq

/-- **Step lemma.** -/
theorem idle_step (h : q.Idle) (ha : a.isStart = false) (hs : q.step a = some (o, u)) :
    u.Idle ∧ ∀ t ok, o ≠ .started t ok := by
  by_cases hw : ∃ i w, a = .worker i w
  · obtain ⟨i, w, rfl⟩ := hw
    obtain ⟨pc, pc', q', hpc, hl, rfl⟩ := step_worker hs
    have hentered := h.entered pc (List.mem_of_getElem? hpc)
    -- a thread that loops finds `m_start` cleared
    have hclear : Pc.Looping pc = true → q.mStart = false := fun hloop =>
      h.halted.resolve_right fun hall => by simp [hall pc (List.mem_of_getElem? hpc)] at hloop
    cases hl with
    | test =>
        have hleave : (if q.mStart then Pc.init else Pc.clearRunning) = .clearRunning := by
          rw [hclear rfl]
          rfl
        rw [hleave]
        exact ⟨h.set rfl (.inr rfl) (.inr rfl), fun _ _ => nofun⟩
    | init | startProcess => cases hentered
    | poll running =>
        refine ⟨h.set ?_ (.inr rfl) (.inl (hclear rfl)), fun _ _ => nofun⟩
        cases running <;> rfl
    | fin env exitCode =>
        have hfin : (q.runFin env exitCode).2.mStart = false := by
          show (q.mStart && _) = false
          rw [hclear rfl, Bool.false_and]
        exact ⟨h.set rfl (.inl hfin) (.inl hfin), fun _ _ => nofun⟩
    | finFailed env exitCode =>
        refine ⟨h.set rfl ?_ (.inr rfl), fun _ _ => nofun⟩
        show (q.mStart && _) = false ∨ (q.mStart && _) = q.mStart
        cases q.mStart
        · exact .inl rfl
        · rw [Bool.true_and]
          exact (Bool.eq_false_or_eq_true _).symm
    | clearStart => exact ⟨h.set rfl (.inl rfl) (.inl rfl), fun _ _ => nofun⟩
    | clearRunning => exact ⟨h.set rfl (.inr rfl) (.inr rfl), fun _ _ => nofun⟩
  · have hclient : ∀ i w, a ≠ .worker i w := fun i w he => hw ⟨i, w, he⟩
    have hthreads : u.threads = q.threads := step_client_threads hs hclient fun he => by
      subst he
      cases ha
    refine ⟨⟨?_, ?_⟩, step_client_started hs hclient⟩ <;> rw [hthreads]
    · exact h.entered
    · rcases step_client_mStart hs hclient ha with hm | hm
      · exact .inl hm
      · rw [hm]
        exact h.halted

theorem Idle.silent (h : q.Idle) : q.Silent := by
  intro es u hrun
  have hrun' : u.Idle ∧ ∀ e ∈ es, ∀ t ok, e.2 ≠ .started t ok := by
    induction hrun with
    | nil => exact ⟨h, fun _ => nofun⟩
    | snoc _ ha hs ih =>
        obtain ⟨hidle, hes⟩ := ih
        obtain ⟨hidle', ho⟩ := idle_step hidle ha hs
        refine ⟨hidle', fun e he => ?_⟩
        rcases List.mem_append.mp he with he | he
        · exact hes e he
        · rw [List.mem_singleton.mp he]
          exact ho
  exact hrun'.2

/-! ### A silent queue is idle -/

theorem Silent.step (h : q.Silent) (ha : a.isStart = false) (hs : q.step a = some (o, u)) :
    u.Silent := by
  intro es v hrun e he
  have hone : Run SQLiteQueue.step (fun _ a => a.isStart = false) q [(a, o)] u := .single ha hs
  exact h _ _ (hone.append hrun) e (List.mem_append_right _ he)

theorem step_worker_eq {pc pc' : Pc} {w : Work} {q' : SQLiteQueue} (hi : q.threads[i]? = some pc)
    (hl : q.mainLoop pc w = some (o, q', pc')) :
    q.step (.worker i w) = some (o, { q' with threads := q'.threads.set i pc' }) := by
  simp only [SQLiteQueue.step, hi, hl, Option.map_some]

/-- The database holds a ledger. -/
def HasLedger (q : SQLiteQueue) : Prop := ∃ L, q.mToken.db = ledgerDB L ∧ IsInt32 L.next

theorem Silent.not_startProcess (h : q.Silent) : q.threads[i]? ≠ some .startProcess := by
  intro hi
  have hs := step_worker_eq (w := .start true) hi rfl
  exact h _ _ (.single rfl hs) _ (List.mem_singleton.mpr rfl) _ _ rfl

theorem rowid_reliable (c : Conn TableName) : (c.given Env.rowid).Reliable := by
  simp [Conn.Reliable, Conn.given, Env.rowid]

/-- A client can see to it that a row is waiting. -/
theorem Silent.exists_waiting (h : q.Silent) (hq : q.HasLedger) :
    ∃ (u : SQLiteQueue) (L : QueueLedger), u.Silent ∧ u.threads = q.threads ∧
      u.mToken.db = ledgerDB L ∧ L.pending ≠ [] := by
  obtain ⟨L, hdb, hn⟩ := hq
  have hs : q.step (.addTask Env.rowid listing) = some
      (.task (q.call Env.rowid (SimpleTaskQueue.addTask listing)).1.1
          (q.call Env.rowid (SimpleTaskQueue.addTask listing)).1.2,
        (q.call Env.rowid (SimpleTaskQueue.addTask listing)).2) := rfl
  have hsilent := h.step rfl hs
  obtain ⟨⟨-, -, hrel⟩ | ⟨-, hd, hrel⟩ | ⟨-, hd, -⟩, -⟩ :=
    addTask_spec (c := q.mToken.given Env.rowid) hdb hn listing
  · exact absurd (rowid_reliable _) hrel
  · -- the ID was taken, so there is a row
    refine ⟨_, _, hsilent, rfl, hd, fun hnil => hrel (rowid_reliable _) ?_⟩
    have hpending : L.pending = [] := hnil
    simp [hpending]
  · exact ⟨_, _, hsilent, rfl, hd, by simp [Ledger.add]⟩

theorem Silent.not_init (h : q.Silent) (hq : q.HasLedger) : q.threads[i]? ≠ some .init := by
  intro hi
  obtain ⟨u, L, hu, hthreads, hdb, hpending⟩ := h.exists_waiting hq
  rw [← hthreads] at hi
  obtain ⟨-, -, -, hrel⟩ := mainLoopInit_spec (c := u.mToken.given Env.rowid) hdb
  rcases u.runInit_cases Env.rowid with ⟨hr, -⟩ | ⟨t, -, hrun⟩ | ⟨hr, -⟩
  · rcases hrel (rowid_reliable _) with ⟨hstop, -⟩ | ⟨t, ht⟩
    · cases hr.symm.trans hstop
    · cases hr.symm.trans ht
  · -- the row is picked
    have hs := step_worker_eq (w := .init Env.rowid) hi (congrArg some hrun)
    exact (hu.step rfl hs).not_startProcess (getElem?_set_of_some hi)
  · rcases hrel (rowid_reliable _) with ⟨-, hnil⟩ | ⟨t, ht⟩
    · exact hpending hnil
    · cases hr.symm.trans ht

theorem Silent.not_test (h : q.Silent) (hq : q.HasLedger) (hstart : q.mStart = true) :
    q.threads[i]? ≠ some .test := by
  intro hi
  have hs := step_worker_eq (w := .go) hi rfl
  rw [hstart, if_pos rfl] at hs
  exact (h.step rfl hs).not_init hq (getElem?_set_of_some hi)

/-- A client can see to it that the row of the task can be added to `done`. -/
theorem Silent.not_fin (h : q.Silent) (hq : q.HasLedger) (hstart : q.mStart = true) :
    q.threads[i]? ≠ some .fin := by
  intro hi
  obtain ⟨L, hdb, hn⟩ := hq
  -- `clearFinished`
  have hs₁ : q.step (.clearFinished Env.rowid) = some
      (.code (q.call Env.rowid SimpleTaskQueue.clearFinished).1,
        (q.call Env.rowid SimpleTaskQueue.clearFinished).2) := rfl
  have hu := h.step rfl hs₁
  obtain ⟨⟨-, -, hrel⟩ | ⟨-, hd₁⟩, -⟩ :=
    clearFinished_spec (c := q.mToken.given Env.rowid) hdb
  · exact absurd (rowid_reliable _) hrel
  · generalize hu₁ : (q.call Env.rowid SimpleTaskQueue.clearFinished).2 = u at hu
    have hi₁ : u.threads[i]? = some .fin := hu₁ ▸ hi
    have hstart₁ : u.mStart = true := hu₁ ▸ hstart
    have hdb₁ : u.mToken.db = ledgerDB L.clearDone := hu₁ ▸ hd₁
    -- `mainLoopFin`
    have hs₂ := step_worker_eq (w := .fin Env.rowid (some 0)) hi₁ rfl
    have hno : ¬ (u.mToken.given Env.rowid).faults.getD 2 false = true := by
      simp [Conn.given, Env.rowid]
    obtain ⟨⟨-, -, hrel⟩ | ⟨-, -, hf⟩ | ⟨-, -, hf, -⟩ | ⟨-, -, hrel⟩ | ⟨hr, hd₂, -⟩, -⟩ :=
      mainLoopFin_spec (c := u.mToken.given Env.rowid) hdb₁ u.mCurrentTask 0
    · exact absurd (rowid_reliable _) hrel
    · exact absurd hf hno
    · exact absurd hf hno
    · exact absurd (by simp [Ledger.clearDone]) (hrel (rowid_reliable _))
    · refine (hu.step rfl hs₂).not_test (i := i) ⟨_, hd₂, hn⟩ ?_ (getElem?_set_of_some hi₁)
      show (u.mStart && (mainLoopFin u.mCurrentTask (some 0) (u.mToken.given Env.rowid)).1 ==
        .moved) = true
      rw [hstart₁, hr]
      rfl

theorem Silent.not_poll (h : q.Silent) (hq : q.HasLedger) (hstart : q.mStart = true) :
    q.threads[i]? ≠ some .poll := by
  intro hi
  have hs := step_worker_eq (w := .isRunning false) hi rfl
  exact (h.step rfl hs).not_fin hq hstart (getElem?_set_of_some hi)

/-- **A queue starts nothing more** without a `start` exactly if it is idle. -/
theorem silent_iff_idle (hq : q.HasLedger) : q.Silent ↔ q.Idle := by
  refine ⟨fun h => ⟨fun p hp => ?_, ?_⟩, Idle.silent⟩
  · obtain ⟨i, hi⟩ := List.mem_iff_getElem?.mp hp
    cases p with
    | init => exact absurd hi (h.not_init hq)
    | startProcess => exact absurd hi h.not_startProcess
    | test | poll | fin | finFailed | clearStart | clearRunning | returned => rfl
  · cases hstart : q.mStart with
    | false => exact .inl rfl
    | true =>
        refine .inr fun p hp => ?_
        obtain ⟨i, hi⟩ := List.mem_iff_getElem?.mp hp
        cases p with
        | test => exact absurd hi (h.not_test hq hstart)
        | poll => exact absurd hi (h.not_poll hq hstart)
        | fin => exact absurd hi (h.not_fin hq hstart)
        | init | startProcess | finFailed | clearStart | clearRunning | returned => rfl

end SQLiteQueue

/-! ### `stop` -/

namespace LinuxQueue

open SQLiteQueue (Silent Idle Pc.Entered Pc.Looping)

variable {s u : LinuxQueue} {r : Report} {es : List HostEvent}

/-- If the child of `LinuxProc` still lives it was sent the signal. -/
def Killed (s : LinuxQueue) : Prop :=
  s.children.get s.proc.mPid = some .live → s.proc.mPid ∈ s.children.kills

/-- What `stop` is meant to leave behind: no process will be started, and the running one was
killed. -/
structure Stopped (s : LinuxQueue) : Prop where
  silent : s.queue.Silent
  killed : s.Killed

/-- No thread is between the test of `m_start` and the start of a process. And `m_isRunning` is
set; or no thread is in the part of the loop that leads back to the test, or `m_start` is cleared
already, and the running process was killed before. -/
structure Stoppable (s : LinuxQueue) : Prop where
  entered : ∀ p ∈ s.queue.threads, Pc.Entered p = false
  heeded : s.queue.mIsRunning = true ∨
    (s.queue.mStart = false ∨ ∀ p ∈ s.queue.threads, Pc.Looping p = false) ∧ s.Killed

/-- **What `stop` achieves.** In every interleaving, with any number of threads and any system:
after `stop` nothing is started before the next `start`, and the running process was killed, if
and only if `stop` found the threads and the flags in one of the good positions. -/
theorem stop_stops_iff (h : Run step anyAction fresh es s) (hs : s.step .stop = some (r, u)) :
    Stopped u ↔ Stoppable s := by
  obtain ⟨hqueue, hproc, hchildren⟩ := step_stop hs
  have hledger : u.queue.HasLedger := SQLiteQueue.run_ledger (run_queue_any (h.snoc trivial hs))
  have hiff : Stopped u ↔ u.queue.Idle ∧ u.Killed :=
    ⟨fun h => ⟨(SQLiteQueue.silent_iff_idle hledger).mp h.silent, h.killed⟩,
      fun h => ⟨h.1.silent, h.2⟩⟩
  rw [hiff]
  cases hrun : s.queue.mIsRunning with
  | true =>
      -- `stop` clears `m_start` and kills the process
      rw [hrun, if_pos rfl] at hchildren
      have hkilled : u.Killed := fun _ => by
        rw [hchildren, hproc]
        exact List.mem_cons_self
      have hstop : s.queue.stopImpl =
          { s.queue with mStart := false, mIsRunning := false } := by
        simp [SQLiteQueue.stopImpl, hrun]
      rw [hqueue, hstop]
      exact ⟨fun h => ⟨h.1.entered, .inl hrun⟩, fun h => ⟨⟨h.entered, .inl rfl⟩, hkilled⟩⟩
  | false =>
      -- `stop` does nothing
      rw [hrun, if_neg Bool.false_ne_true] at hchildren
      have hstop : s.queue.stopImpl = s.queue := by simp [SQLiteQueue.stopImpl, hrun]
      have hkilled : u.Killed ↔ s.Killed := by rw [Killed, Killed, hchildren, hproc]
      rw [hqueue, hstop, hkilled]
      refine ⟨fun h => ⟨h.1.entered, .inr ⟨h.1.halted, h.2⟩⟩, fun h => ?_⟩
      have hheeded := h.heeded.resolve_left (by simp [hrun])
      exact ⟨⟨h.entered, hheeded.1⟩, hheeded.2⟩

theorem stop_stops_stopRunning :
    ∃ es s r u, Run step anyAction fresh es s ∧ s.step .stop = some (r, u) ∧
      (Stopped u ↔ Stoppable s) := by
  obtain ⟨⟨r, u⟩, hu⟩ := Option.isSome_iff_exists.mp stopRunning_stop
  exact ⟨_, _, r, u, Run.of_script stopRunning_runs, hu,
    stop_stops_iff (Run.of_script stopRunning_runs) hu⟩

/-- The thread has passed the test of `m_start` when the queue is stopped; then it picks the task
and starts its process. -/
def stopTooLate : List HostAction :=
  [.client (.addTask .rowid listing), .client .start, .go 0, .stop, .init 0 .rowid, .start 0 .ok]

theorem stopTooLate_runs : (script step OneWorker fresh stopTooLate).isSome = true := by
  decide +kernel

/-- **A process is started after `stop`**, and runs while `isRunning()` is false. -/
theorem started_after_stop :
    ∃ es s, Run step OneWorker fresh es s ∧
      es.map (fun e => match e.2 with
        | .started _ _ rc pid => some (rc, pid)
        | _ => none) = [none, none, none, none, none, some (0, 1)] ∧
      (es.map fun e => match e.1 with
        | .stop => true
        | _ => false) = [false, false, false, true, false, false] ∧
      s.children.get 1 = some .live ∧ s.queue.mIsRunning = false :=
  ⟨_, _, Run.of_script stopTooLate_runs, by decide +kernel, by decide +kernel, by decide +kernel,
    by decide +kernel⟩

end LinuxQueue

end SimpleTaskQueue
