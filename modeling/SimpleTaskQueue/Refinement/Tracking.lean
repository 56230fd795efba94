import SimpleTaskQueue.Refinement.Operations
import SimpleTaskQueue.Refinement.Worker
/-!
# SimpleTaskQueue.Refinement.Tracking

The **abstract queue** is a ledger and the task in flight. `Effect` lists what an event of the
machine can do to it, one constructor for each way an operation ends, with SQLite failing in
any pattern. `step_refines` shows that under the one-worker discipline every step of the
faithful machine has one of these effects; `Tracked` is a run of the machine together with
the abstract states it passes through, and `run_tracked` says that every run is tracked.

Everything later modules prove about runs is an induction over `Tracked`.
-/

namespace SimpleTaskQueue

open Sqlite Sqlite.Conn Runs SQLiteQueue

/-- An action and what came out of it. -/
abbrev Event := Action × Output

/-- What an event can do to the ledger and to the task in flight. -/
inductive Effect (L : QueueLedger) (fl : Option Task) :
    Action → Output → QueueLedger → Option Task → Prop
  | listPending {env : Env} {rc : ErrCode} {ids : List Int} (hrel : env.Reliable → rc = .OK)
      (hids : rc = .OK → ids.Perm (L.pending.map fun row => toInt32 row.ID)) :
      Effect L fl (.listPending env) (.ids rc ids) L fl
  | listFinished {env : Env} {rc : ErrCode} {ids : List Int} (hrel : env.Reliable → rc = .OK)
      (hids : rc = .OK → ids.Perm (L.done.map fun row => toInt32 row.ID)) :
      Effect L fl (.listFinished env) (.ids rc ids) L fl
  | pendingDetails {env : Env} {id : Int} {out t : Task} {rc : ErrCode}
      (hrow : rc = .OK → ∃ row ∈ L.pending, row.ID = toInt32 id ∧ t = row.task)
      (hrel : env.Reliable →
        rc = if ∃ row ∈ L.pending, row.ID = toInt32 id then .OK else .NOT_FOUND) :
      Effect L fl (.pendingDetails env id out) (.task rc t) L fl
  | finishedDetails {env : Env} {id : Int} {out t : Task} {rc : ErrCode}
      (hrow : rc = .OK → ∃ row ∈ L.done, row.ID = toInt32 id ∧ t = row.task)
      (hrel : env.Reliable →
        rc = if ∃ row ∈ L.done, row.ID = toInt32 id then .OK else .NOT_FOUND) :
      Effect L fl (.finishedDetails env id out) (.task rc t) L fl
  | clearPending {env : Env} : Effect L fl (.clearPending env) (.code .OK) L.clearPending fl
  | clearPendingFailed {env : Env} (hrel : ¬ env.Reliable) :
      Effect L fl (.clearPending env) (.code .OS_ERROR) L fl
  | clearFinished {env : Env} : Effect L fl (.clearFinished env) (.code .OK) L.clearDone fl
  | clearFinishedFailed {env : Env} (hrel : ¬ env.Reliable) :
      Effect L fl (.clearFinished env) (.code .OS_ERROR) L fl
  | currentTask {out t : Task} {rc : ErrCode} (h : rc = .OK → t = fl.getD Task.blank) :
      Effect L fl (.currentTask out) (.task rc t) L fl
  | addTask {env : Env} {t : Task}
      (hnew : ((L.pending ++ [addedRow t L.next]).map Row.ID).Nodup) :
      Effect L fl (.addTask env t) (.task .OK { t with ID := L.next })
        (L.add (addedRow t L.next) (nextID L.next)) fl
  | addTaskFailed {env : Env} {t t' : Task} {rc : ErrCode} (hrc : rc ≠ .OK)
      (hrel : ¬ env.Reliable) : Effect L fl (.addTask env t) (.task rc t') L fl
  | addTaskSkipped {env : Env} {t t' : Task} {rc : ErrCode} (hrc : rc ≠ .OK)
      (hrel : env.Reliable → ¬ ((L.pending ++ [addedRow t L.next]).map Row.ID).Nodup) :
      Effect L fl (.addTask env t) (.task rc t') (L.skip (nextID L.next)) fl
  | removeTask {env : Env} {id : Int} (hid : id ≠ (fl.getD Task.blank).ID) :
      Effect L fl (.removeTask env id) (.code .OK) (dropID L (toInt32 id)) fl
  | removeTaskFailed {env : Env} {id : Int} {rc : ErrCode} (hrc : rc ≠ .OK)
      (hrel : env.Reliable → rc = .INVALID_ARGUMENT ∧ id = (fl.getD Task.blank).ID) :
      Effect L fl (.removeTask env id) (.code rc) L fl
  | start {rc : ErrCode} : Effect L fl .start (.code rc) L fl
  | stop : Effect L fl .stop .silent L fl
  | go {i : Nat} : Effect L fl (.worker i .go) .silent L fl
  | started {i : Nat} {ok : Bool} {t : Task} (hfl : fl = some t) :
      Effect L fl (.worker i (.start ok)) (.started t ok) L fl
  | polled {i : Nat} {running : Bool} {t : Task} (hfl : fl = some t) :
      Effect L fl (.worker i (.isRunning running)) .silent L fl
  | picked {i : Nat} {env : Env} {row : Row} (hfl : fl = none) (hrow : row ∈ L.pending)
      (hscan : env.scan = Scan.rowid → L.pending.head? = some row) :
      Effect L fl (.worker i (.init env)) (.inited (.picked row.task)) L (some row.task)
  | notPicked {i : Nat} {env : Env} {r : InitResult} (hfl : fl = none) (hr : ∀ t, r ≠ .picked t)
      (hrel : env.Reliable → r = .stopped ∧ L.pending = []) :
      Effect L fl (.worker i (.init env)) (.inited r) L fl
  /-- `m_process->exitCode` failed. -/
  | noExitCode {i : Nat} {env : Env} {t : Task} (hfl : fl = some t) :
      Effect L fl (.worker i (.fin env none)) (.finished t .noExitCode) L none
  /-- Neither of the two statements took effect. -/
  | notMoved {i : Nat} {env : Env} {t : Task} {n : Int} {r : FinResult} (hfl : fl = some t)
      (hr : r = .notRemoved ∨ r = .notAdded) (hrel : ¬ env.Reliable) :
      Effect L fl (.worker i (.fin env (some n))) (.finished t r) L none
  /-- The `INSERT` took effect, the `DELETE` did not. -/
  | copied {i : Nat} {env : Env} {t : Task} {n : Int} (hfl : fl = some t)
      (hnew : ((L.done ++ [finishedRow t n]).map Row.ID).Nodup) (hrel : ¬ env.Reliable) :
      Effect L fl (.worker i (.fin env (some n))) (.finished t .moved)
        (L.finish (finishedRow t n)) none
  /-- The `DELETE` took effect, the `INSERT` did not. -/
  | dropped {i : Nat} {env : Env} {t : Task} {n : Int} (hfl : fl = some t)
      (hrel : env.Reliable → ¬ ((L.done ++ [finishedRow t n]).map Row.ID).Nodup) :
      Effect L fl (.worker i (.fin env (some n))) (.finished t .notAdded)
        (dropID L (toInt32 t.ID)) none
  | moved {i : Nat} {env : Env} {t : Task} {n : Int} (hfl : fl = some t)
      (hnew : ((L.done ++ [finishedRow t n]).map Row.ID).Nodup) :
      Effect L fl (.worker i (.fin env (some n))) (.finished t .moved)
        ((dropID L (toInt32 t.ID)).finish (finishedRow t n)) none

/-- The queue stands for a ledger and a task in flight. Without a task in flight
`m_currentTask` is blank. -/
structure Refines (q : SQLiteQueue) (L : QueueLedger) (fl : Option Task) : Prop where
  db : q.mToken.db = ledgerDB L
  stmt : q.mToken.stmt = none
  single : Single q.threads
  current : q.mCurrentTask = fl.getD Task.blank
  executing : Executing q.threads ↔ fl.isSome = true

variable {q u : SQLiteQueue} {L L' : QueueLedger} {fl fl' : Option Task} {a : Action} {o : Output}

/-! ### The steps of the worker -/

section Worker

variable {i : Nat} {pc : Pc}

/-- A thread in the loop that does not execute finds no task in flight. -/
theorem Refines.idle (h : Refines q L fl) (hi : q.threads[i]? = some pc) (hl : pc.InLoop = true)
    (he : pc.Executing = false) : fl = none := by
  have hno : ¬ Executing q.threads := by
    rw [h.single.executing_iff hi hl, he]
    simp
  cases fl with
  | none => rfl
  | some t => exact absurd (h.executing.mpr rfl) hno

theorem Refines.busy (h : Refines q L fl) (hi : q.threads[i]? = some pc)
    (he : pc.Executing = true) : ∃ t, fl = some t ∧ q.mCurrentTask = t := by
  have hsome := h.executing.mp ⟨pc, List.mem_of_getElem? hi, he⟩
  obtain ⟨t, rfl⟩ := Option.isSome_iff_exists.mp hsome
  exact ⟨t, rfl, h.current⟩

/-- The thread moves on and stays in the loop; the rest is given. -/
theorem Refines.move (h : Refines q L fl) (hi : q.threads[i]? = some pc)
    (hl : pc.InLoop = true) (q' : SQLiteQueue) (pc' : Pc) (hdb : q'.mToken.db = ledgerDB L')
    (hst : q'.mToken.stmt = none) (hcur : q'.mCurrentTask = fl'.getD Task.blank)
    (hex : pc'.Executing = true ↔ fl'.isSome = true) :
    Refines { q' with threads := q.threads.set i pc' } L' fl' where
  db := hdb
  stmt := hst
  single := h.single.set hi fun _ => hl
  current := hcur
  executing := (h.single.executing_set hi hl).trans hex

/-- `mainLoopInit`. -/
theorem init_refines {env : Env} (h : Refines q L fl) (hi : q.threads[i]? = some .init) :
    ∃ fl', Refines { (q.runInit env).2.1 with threads := q.threads.set i (q.runInit env).2.2 }
        L fl' ∧ Effect L fl (.worker i (.init env)) (q.runInit env).1 L fl' := by
  obtain rfl := h.idle hi rfl rfl
  obtain ⟨hdb, hfin, hpick, hrel⟩ := mainLoopInit_spec (c := q.mToken.given env) h.db
  rcases q.runInit_cases env with ⟨hr, hrun⟩ | ⟨t, hr, hrun⟩ | ⟨hr, hrun⟩ <;> rw [hrun]
  · have hr' : (mainLoopInit (q.mToken.given env)).1 = .notPrepared := hr
    refine ⟨none, h.move hi rfl _ _ hdb hfin.stmt h.current (by simp [Pc.Executing]), ?_⟩
    refine .notPicked rfl (fun t ht => by simp [hr] at ht) fun hc => ?_
    rcases hrel hc with ⟨hs, -⟩ | ⟨t, ht⟩
    · simp [hr'] at hs
    · simp [hr'] at ht
  · obtain ⟨row, hrow, rfl, hscan⟩ := hpick t hr
    rw [hr]
    exact ⟨some row.task, h.move hi rfl _ _ hdb hfin.stmt rfl (by simp [Pc.Executing]),
      .picked rfl hrow hscan⟩
  · have hr' : (mainLoopInit (q.mToken.given env)).1 = .stopped := hr
    refine ⟨none, h.move hi rfl _ _ hdb hfin.stmt h.current (by simp [Pc.Executing]), ?_⟩
    refine .notPicked rfl (fun t ht => by simp [hr] at ht) fun hc => ⟨hr, ?_⟩
    rcases hrel hc with ⟨-, hnil⟩ | ⟨t, ht⟩
    · exact hnil
    · simp [hr'] at ht

/-- `mainLoopFin`, from either place it is called at. -/
theorem fin_refines {env : Env} {exitCode : Option Int} {pc' : Pc} (h : Refines q L fl)
    (hi : q.threads[i]? = some pc) (he : pc.Executing = true) (he' : pc'.Executing = false) :
    ∃ L', Refines { (q.runFin env exitCode).2 with threads := q.threads.set i pc' } L' none ∧
      Effect L fl (.worker i (.fin env exitCode)) (q.runFin env exitCode).1 L' none := by
  obtain ⟨t, rfl, rfl⟩ := h.busy hi he
  have hl := Pc.inLoop_of_executing he
  have hex : pc'.Executing = true ↔ (none : Option Task).isSome = true := by simp [he']
  cases exitCode with
  | none => exact ⟨L, h.move hi hl _ pc' h.db h.stmt rfl hex, .noExitCode rfl⟩
  | some n =>
      obtain ⟨hres, hfin⟩ := mainLoopFin_spec (c := q.mToken.given env) h.db q.mCurrentTask n
      have hmove : ∀ {L' : QueueLedger},
          (mainLoopFin q.mCurrentTask (some n) (q.mToken.given env)).2.db = ledgerDB L' →
          Refines { (q.runFin env (some n)).2 with threads := q.threads.set i pc' } L' none :=
        fun hdb => h.move hi hl _ pc' hdb hfin.stmt rfl hex
      have hout : (q.runFin env (some n)).1 = .finished q.mCurrentTask
          (mainLoopFin q.mCurrentTask (some n) (q.mToken.given env)).1 := rfl
      rw [hout]
      rcases hres with ⟨hr, hdb, hrel⟩ | ⟨hr, hdb, hf⟩ | ⟨hr, hdb, hf, hnew⟩ | ⟨hr, hdb, hrel⟩ |
        ⟨hr, hdb, hnew⟩
      · exact ⟨L, hmove hdb, .notMoved rfl (.inl hr) hrel⟩
      · exact ⟨L, hmove hdb, .notMoved rfl (.inr hr) (not_reliable_of_getD hf)⟩
      · rw [hr]
        exact ⟨_, hmove hdb, .copied rfl hnew (not_reliable_of_getD hf)⟩
      · rw [hr]
        exact ⟨_, hmove hdb, .dropped rfl hrel⟩
      · rw [hr]
        exact ⟨_, hmove hdb, .moved rfl hnew⟩

/-- A step of a thread. -/
theorem worker_refines {w : Work} (h : Refines q L fl) (hs : q.step (.worker i w) = some (o, u)) :
    ∃ L' fl', Refines u L' fl' ∧ Effect L fl (.worker i w) o L' fl' := by
  obtain ⟨pc, pc', q', hpc, hl, rfl⟩ := step_worker hs
  cases hl with
  | test =>
      obtain rfl := h.idle hpc rfl rfl
      refine ⟨L, none, h.move hpc rfl q _ h.db h.stmt h.current ?_, .go⟩
      cases q.mStart <;> simp [Pc.Executing]
  | init env => exact (init_refines h hpc).elim fun fl' hfl => ⟨L, fl', hfl⟩
  | startProcess ok =>
      obtain ⟨t, rfl, rfl⟩ := h.busy hpc rfl
      refine ⟨L, _, h.move hpc rfl q _ h.db h.stmt h.current ?_, .started rfl⟩
      cases ok <;> simp [Pc.Executing]
  | poll running =>
      obtain ⟨t, rfl, rfl⟩ := h.busy hpc rfl
      refine ⟨L, _, h.move hpc rfl q _ h.db h.stmt h.current ?_, .polled rfl⟩
      cases running <;> simp [Pc.Executing]
  | fin env exitCode => exact (fin_refines h hpc rfl rfl).elim fun L' hL => ⟨L', none, hL⟩
  | finFailed env exitCode =>
      exact (fin_refines h hpc rfl rfl).elim fun L' hL => ⟨L', none, hL⟩
  | clearStart =>
      obtain rfl := h.idle hpc rfl rfl
      exact ⟨L, none, h.move hpc rfl _ .test h.db h.stmt h.current (by simp [Pc.Executing]), .go⟩
  | clearRunning =>
      -- the thread is out of the loop; another one may be executing
      refine ⟨L, fl, ⟨h.db, h.stmt, h.single.set hpc (by simp [Pc.InLoop]), h.current, ?_⟩, .go⟩
      exact (executing_set_of_not hpc rfl rfl).trans h.executing

end Worker

/-! ### Client calls -/

/-- A database operation of a client changes the token only. -/
theorem Refines.call {β : Type} {m : QueueM β} {env : Env} (h : Refines q L fl)
    (hdb : (m (q.mToken.given env)).2.db = ledgerDB L')
    (hst : (m (q.mToken.given env)).2.stmt = none) : Refines (q.call env m).2 L' fl :=
  ⟨hdb, hst, h.single, h.current, h.executing⟩

theorem call_fst {β : Type} (q : SQLiteQueue) (env : Env) (m : QueueM β) :
    (q.call env m).1 = (m (q.mToken.given env)).1 := rfl

/-- What `currentTask` hands out. -/
theorem Refines.currentTask (h : Refines q L fl) {out : Task}
    (hrc : (q.currentTask out).1 = .OK) : (q.currentTask out).2 = fl.getD Task.blank := by
  unfold SQLiteQueue.currentTask at hrc ⊢
  split at hrc
  · cases hrc
  · next hrun =>
    rw [if_neg hrun]
    exact h.current

/-- A new thread does not execute yet. -/
theorem Refines.start (h : Refines q L fl) (hsingle : Single q.start.2.threads) :
    Refines q.start.2 L fl := by
  unfold SQLiteQueue.start at hsingle ⊢
  split at hsingle
  · next hrun =>
    rw [if_pos hrun]
    exact h
  · next hrun =>
    rw [if_neg hrun]
    exact ⟨h.db, h.stmt, hsingle, h.current, executing_append_test.trans h.executing⟩

theorem Refines.stop (h : Refines q L fl) : Refines q.stopImpl L fl := by
  unfold stopImpl
  split
  · exact h
  · exact ⟨h.db, h.stmt, h.single, h.current, h.executing⟩

/-- **Step lemma.** Every step under the discipline has one of the listed effects. The counter
must still be a 32-bit `int`. -/
theorem step_refines (h : Refines q L fl) (hn : IsInt32 L.next) (hok : OneWorker q a)
    (hs : q.step a = some (o, u)) :
    ∃ L' fl', Refines u L' fl' ∧ Effect L fl a o L' fl' := by
  cases a with
  | worker i w => exact worker_refines h hs
  | listPending env =>
      obtain ⟨rfl, rfl⟩ : _ = o ∧ _ = u := by simpa [SQLiteQueue.step] using hs
      obtain ⟨hdb, hfin, hrel, hids⟩ := listIDInTable_spec (c := q.mToken.given env)
        h.db (ledgerDB_pending L)
      exact ⟨L, fl, h.call hdb hfin.stmt, .listPending hrel hids⟩
  | listFinished env =>
      obtain ⟨rfl, rfl⟩ : _ = o ∧ _ = u := by simpa [SQLiteQueue.step] using hs
      obtain ⟨hdb, hfin, hrel, hids⟩ := listIDInTable_spec (c := q.mToken.given env)
        h.db (ledgerDB_done L)
      exact ⟨L, fl, h.call hdb hfin.stmt, .listFinished hrel hids⟩
  | pendingDetails env id out =>
      obtain ⟨rfl, rfl⟩ : _ = o ∧ _ = u := by simpa [SQLiteQueue.step] using hs
      obtain ⟨hdb, hfin, hrow, hrel⟩ := taskDetails_spec (c := q.mToken.given env)
        h.db (ledgerDB_pending L) id out
      exact ⟨L, fl, h.call hdb hfin.stmt, .pendingDetails hrow hrel⟩
  | finishedDetails env id out =>
      obtain ⟨rfl, rfl⟩ : _ = o ∧ _ = u := by simpa [SQLiteQueue.step] using hs
      obtain ⟨hdb, hfin, hrow, hrel⟩ := taskDetails_spec (c := q.mToken.given env)
        h.db (ledgerDB_done L) id out
      exact ⟨L, fl, h.call hdb hfin.stmt, .finishedDetails hrow hrel⟩
  | clearPending env =>
      obtain ⟨rfl, rfl⟩ : _ = o ∧ _ = u := by simpa [SQLiteQueue.step] using hs
      obtain ⟨⟨hr, hdb, hrel⟩ | ⟨hr, hdb⟩, hfin⟩ :=
        clearPending_spec (c := q.mToken.given env) h.db
      · have hc := h.call hdb hfin.stmt
        rw [call_fst, hr]
        exact ⟨L, fl, hc, .clearPendingFailed hrel⟩
      · have hc := h.call hdb hfin.stmt
        rw [call_fst, hr]
        exact ⟨_, fl, hc, .clearPending⟩
  | clearFinished env =>
      obtain ⟨rfl, rfl⟩ : _ = o ∧ _ = u := by simpa [SQLiteQueue.step] using hs
      obtain ⟨⟨hr, hdb, hrel⟩ | ⟨hr, hdb⟩, hfin⟩ :=
        clearFinished_spec (c := q.mToken.given env) h.db
      · have hc := h.call hdb hfin.stmt
        rw [call_fst, hr]
        exact ⟨L, fl, hc, .clearFinishedFailed hrel⟩
      · have hc := h.call hdb hfin.stmt
        rw [call_fst, hr]
        exact ⟨_, fl, hc, .clearFinished⟩
  | currentTask out =>
      obtain ⟨rfl, rfl⟩ : _ = o ∧ q = u := by simpa [SQLiteQueue.step] using hs
      exact ⟨L, fl, h, .currentTask h.currentTask⟩
  | addTask env t =>
      obtain ⟨rfl, rfl⟩ : _ = o ∧ _ = u := by simpa [SQLiteQueue.step] using hs
      obtain ⟨⟨hr, hdb, hrel⟩ | ⟨hr, hdb, hrel⟩ | ⟨hr, hdb, hnew⟩, hfin⟩ :=
        addTask_spec (c := q.mToken.given env) h.db hn t
      · exact ⟨L, fl, h.call hdb hfin.stmt, .addTaskFailed hr hrel⟩
      · exact ⟨_, fl, h.call hdb hfin.stmt, .addTaskSkipped hr hrel⟩
      · have hc := h.call hdb hfin.stmt
        rw [call_fst, hr]
        exact ⟨_, fl, hc, .addTask hnew⟩
  | removeTask env id =>
      obtain ⟨rfl, rfl⟩ : _ = o ∧ _ = u := by simpa [SQLiteQueue.step] using hs
      obtain ⟨⟨hr, hdb, hrel⟩ | ⟨hr, hid, hdb⟩, hfin⟩ :=
        removeTask_spec (c := q.mToken.given env) h.db h.stmt q.mCurrentTask id
      · refine ⟨L, fl, h.call hdb hfin.stmt, .removeTaskFailed hr fun hc => ?_⟩
        exact ⟨(hrel hc).1, (hrel hc).2.trans (congrArg Task.ID h.current)⟩
      · have hc := h.call hdb hfin.stmt
        rw [call_fst, hr]
        rw [h.current] at hid
        exact ⟨_, fl, hc, .removeTask hid⟩
  | start =>
      have hsingle := single_step h.single hok hs
      obtain ⟨rfl, rfl⟩ : _ = o ∧ _ = u := by simpa [SQLiteQueue.step] using hs
      exact ⟨L, fl, h.start hsingle, .start⟩
  | stop =>
      obtain ⟨rfl, rfl⟩ : .silent = o ∧ _ = u := by simpa [SQLiteQueue.step] using hs
      exact ⟨L, fl, h.stop, .stop⟩

/-! ### Runs -/

/-- The number of calls of `addTask`: an upper bound for the number of IDs handed out. -/
def adds (es : List Event) : Nat :=
  es.countP fun e => match e.1 with
    | .addTask _ _ => true
    | _ => false

/-- The content of a new database. -/
def emptyLedger : QueueLedger := ⟨[], [], 0⟩

theorem newToken_db : newToken.db = ledgerDB emptyLedger := by
  funext t
  cases t <;> decide +kernel

theorem newToken_stmt : newToken.stmt = none := by
  have h : newToken.stmt.isNone = true := by decide +kernel
  exact Option.isNone_iff_eq_none.mp h

theorem fresh_refines : Refines fresh emptyLedger none :=
  ⟨newToken_db, newToken_stmt, single_fresh, rfl, by simp [Executing, fresh]⟩

/-- A run from a new database, with the abstract states it passes through. -/
inductive Tracked : List Event → SQLiteQueue → QueueLedger → Option Task → Prop
  | nil : Tracked [] fresh emptyLedger none
  | snoc {es : List Event} {q u : SQLiteQueue} {L L' : QueueLedger} {fl fl' : Option Task}
      {a : Action} {o : Output} (h : Tracked es q L fl) (hok : OneWorker q a)
      (hs : q.step a = some (o, u)) (heff : Effect L fl a o L' fl') (href : Refines u L' fl') :
      Tracked (es ++ [(a, o)]) u L' fl'

theorem Tracked.refines {es : List Event} (h : Tracked es q L fl) : Refines q L fl := by
  cases h with
  | nil => exact fresh_refines
  | snoc _ _ _ _ href => exact href

theorem Tracked.run {es : List Event} (h : Tracked es q L fl) :
    Run SQLiteQueue.step OneWorker fresh es q := by
  induction h with
  | nil => exact .nil
  | snoc _ hok hs _ _ ih => exact .snoc ih hok hs

@[simp] theorem adds_append (es es' : List Event) : adds (es ++ es') = adds es + adds es' :=
  List.countP_append

theorem nextID_of_lt {n : Int} (h₀ : 0 ≤ n) (h : n < 2 ^ 31 - 1) : nextID n = n + 1 :=
  toInt32_of_isInt32 ⟨by omega, by omega⟩

/-- Only `addTask` moves the counter. -/
theorem Effect.next (h : Effect L fl a o L' fl') :
    L'.next = L.next ∨ adds [(a, o)] = 1 ∧ L'.next = nextID L.next := by
  cases h with
  | addTask | addTaskSkipped => exact .inr ⟨rfl, rfl⟩
  | listPending | listFinished | pendingDetails | finishedDetails | clearPending
  | clearPendingFailed | clearFinished | clearFinishedFailed | currentTask | addTaskFailed
  | removeTask | removeTaskFailed | start | stop | go | started | polled | picked | notPicked
  | noExitCode | notMoved | copied | dropped | moved => exact .inl rfl

/-- As long as fewer than `2^31 - 1` IDs were handed out the counter did not wrap around. -/
theorem Tracked.next_bounds {es : List Event} (h : Tracked es q L fl)
    (hadds : adds es < 2 ^ 31 - 1) : 0 ≤ L.next ∧ L.next ≤ adds es := by
  induction h with
  | nil => exact ⟨le_refl _, le_refl _⟩
  | @snoc es _ _ L₁ _ _ _ a o _ _ _ heff _ ih =>
      rw [adds_append] at hadds ⊢
      obtain ⟨h₀, h₁⟩ := ih (by omega)
      rcases heff.next with hn | ⟨ha, hn⟩
      · rw [hn]
        omega
      · rw [hn, nextID_of_lt h₀ (by omega), ha]
        omega

/-- The counter always is a 32-bit `int`. -/
theorem Tracked.isInt32_next {es : List Event} (h : Tracked es q L fl) : IsInt32 L.next := by
  induction h with
  | nil => exact (by decide : IsInt32 0)
  | snoc _ _ _ heff _ ih =>
      rcases heff.next with hn | ⟨-, hn⟩
      · exact hn ▸ ih
      · exact hn ▸ toInt32_isInt32 _

/-- **Run lemma.** Every run under the discipline is tracked. -/
theorem run_tracked {es : List Event} (h : Run SQLiteQueue.step OneWorker fresh es q) :
    ∃ L fl, Tracked es q L fl := by
  induction h with
  | nil => exact ⟨_, _, .nil⟩
  | snoc _ hok hs ih =>
      obtain ⟨L, fl, ht⟩ := ih
      obtain ⟨L', fl', href, heff⟩ := step_refines ht.refines ht.isInt32_next hok hs
      exact ⟨L', fl', .snoc ht hok hs heff href⟩

/-- The abstract state before an event of a run, and the effect of the event. -/
theorem run_effect {es₁ es₂ : List Event} {e : Event}
    (h : Run SQLiteQueue.step OneWorker fresh (es₁ ++ e :: es₂) q) :
    ∃ q₁ L fl L' fl', Tracked es₁ q₁ L fl ∧ Effect L fl e.1 e.2 L' fl' := by
  obtain ⟨q₁, u, h₁, hok, hs, -⟩ := h.at_step
  obtain ⟨L, fl, ht⟩ := run_tracked h₁
  obtain ⟨L', fl', -, heff⟩ := step_refines ht.refines ht.isInt32_next hok hs
  exact ⟨q₁, L, fl, L', fl', ht, heff⟩

end SimpleTaskQueue
