import SimpleTaskQueue.Refinement.Provenance
/-!
# SimpleTaskQueue.Properties.InFlight

**Is the row of the running task still there?** While a task is executed its row stays in
`pending`, so that a crash does not lose it, as long as no client clears `pending` in between.
`removeTask` has a guard for the task that is executed, `clearPending` has none. The guard compares
the ID before it is cut to 32 bits, the statement uses it after.
-/

namespace SimpleTaskQueue

open Sqlite Runs SQLiteQueue

variable {q u : SQLiteQueue} {L L' : QueueLedger} {fl fl' : Option Task} {a : Action} {o : Output}
  {es : List Event}

/-- One worker at a time, and no call of SQLite fails. -/
def Dependable (q : SQLiteQueue) (a : Action) : Prop := OneWorker q a ∧ a.Reliable

instance (q : SQLiteQueue) (a : Action) : Decidable (Dependable q a) :=
  inferInstanceAs (Decidable (_ ∧ ∀ _ ∈ _, _))

/-- The task that is executed can be read from a row of `pending`. -/
def Kept (q : SQLiteQueue) : Prop :=
  Executing q.threads →
    ∃ tb, q.mToken.db .pending = some tb ∧ ∃ r ∈ tb.rows, taskOfRecord r = q.mCurrentTask

/-- No `clearPending`, and no `removeTask` of an ID that differs from the one of the executed task
but is the same after it was cut to 32 bits. -/
def Spares (cur : Task) : Action → Prop
  | .clearPending _ => False
  | .removeTask _ id => toInt32 id = cur.ID → id = cur.ID
  | _ => True

/-- The action spares the task that is executed, if there is one. -/
def Harmless (q : SQLiteQueue) (a : Action) : Prop :=
  Executing q.threads → Spares q.mCurrentTask a

instance (cur : Task) (a : Action) : Decidable (Spares cur a) :=
  match a with
  | .clearPending _ => .isFalse id
  | .removeTask _ _ => inferInstanceAs (Decidable (_ → _))
  | .listPending _ | .listFinished _ | .pendingDetails _ _ _ | .finishedDetails _ _ _
  | .clearFinished _ | .currentTask _ | .addTask _ _ | .start | .stop | .worker _ _ =>
    .isTrue trivial

/-! ### On the ledger -/

/-- The task in flight is one of the waiting rows. -/
def Waiting (L : QueueLedger) (fl : Option Task) : Prop :=
  ∀ t, fl = some t → ∃ row ∈ L.pending, row.task = t

theorem Refines.kept_iff (h : Refines q L fl) : Kept q ↔ Waiting L fl := by
  have hcur := h.current
  have hexec := h.executing
  unfold Kept Waiting
  rw [h.db, ledgerDB_pending]
  constructor
  · rintro hkept t rfl
    obtain ⟨tb, htb, r, hr, ht⟩ := hkept (hexec.mpr rfl)
    obtain rfl : taskTable L.pending = tb := Option.some.inj htb
    obtain ⟨row, hrow, rfl⟩ := List.mem_map.mp hr
    rw [Row.taskOfRecord_record, hcur] at ht
    exact ⟨row, hrow, ht⟩
  · intro hwait hex
    obtain ⟨t, rfl⟩ := Option.isSome_iff_exists.mp (hexec.mp hex)
    obtain ⟨row, hrow, ht⟩ := hwait t rfl
    refine ⟨_, rfl, row.record, List.mem_map_of_mem hrow, ?_⟩
    rw [Row.taskOfRecord_record, ht, hcur]
    rfl

/-- **Step lemma.** A step that spares the task in flight keeps its row. -/
theorem Effect.waiting (h : Effect L fl a o L' fl') (hw : Waiting L fl)
    (ha : ∀ t, fl = some t → Spares t a) : Waiting L' fl' := by
  cases h with
  | addTask =>
      intro t ht
      obtain ⟨row, hrow, he⟩ := hw t ht
      exact ⟨row, List.mem_append_left _ hrow, he⟩
  | clearPending =>
      intro t ht
      exact absurd (ha t ht) id
  | @removeTask env id hid =>
      intro t ht
      obtain ⟨row, hrow, rfl⟩ := hw t ht
      refine ⟨row, List.mem_filter.mpr ⟨hrow, ?_⟩, rfl⟩
      rw [decide_eq_true_eq]
      intro heq
      subst ht
      -- the row would carry the ID that the statement deletes
      have hcut : toInt32 id = row.task.ID := by
        rw [Row.task_ID, heq, toInt32_of_isInt32 (toInt32_isInt32 id)]
      exact hid (ha _ rfl hcut)
  | picked _ hrow =>
      intro t ht
      cases ht
      exact ⟨_, hrow, rfl⟩
  | noExitCode | notMoved | copied | dropped | moved => exact fun _ => nofun
  | listPending | listFinished | pendingDetails | finishedDetails | clearPendingFailed
  | clearFinished | clearFinishedFailed | currentTask | addTaskFailed | addTaskSkipped
  | removeTaskFailed | start | stop | go | started | polled | notPicked => exact hw

/-- A step that does not spare the task in flight loses its row. -/
theorem Effect.not_waiting {t : Task} (h : Effect L (some t) a o L' fl') (hrel : a.Reliable)
    (hint : ∀ row ∈ L.pending, IsInt32 row.ID) (ha : ¬ Spares t a) : ¬ Waiting L' fl' := by
  cases h with
  | clearPending =>
      intro hw
      obtain ⟨row, hrow, -⟩ := hw t rfl
      simp [Ledger.clearPending] at hrow
  | clearPendingFailed hno => exact absurd hrel hno
  | @removeTask env id hid =>
      intro hw
      obtain ⟨row, hrow, ht⟩ := hw t rfl
      obtain ⟨hrow, hne⟩ := List.mem_filter.mp hrow
      have hcut : toInt32 id = t.ID := (Classical.not_imp.mp ha).1
      rw [← ht, Row.task_ID, toInt32_of_isInt32 (hint row hrow)] at hcut
      simp [hcut] at hne
  | removeTaskFailed hrc hno =>
      exact absurd (fun _ => (hno hrel).2) ha
  | addTask | listPending | listFinished | pendingDetails | finishedDetails | clearFinished
  | clearFinishedFailed | currentTask | addTaskFailed | addTaskSkipped | start | stop | go
  | started | polled | picked | notPicked | noExitCode | notMoved | copied | dropped | moved =>
      exact absurd trivial ha

/-! ### Runs -/

/-- A step from a state in which the row of the executed task is there keeps it if and only if it
is harmless. -/
theorem step_kept_iff (h : Run SQLiteQueue.step Dependable fresh es q) (hkept : Kept q)
    (hok : Dependable q a) (hs : q.step a = some (o, u)) : Kept u ↔ Harmless q a := by
  obtain ⟨L, fl, htr⟩ := run_tracked (h.mono fun _ _ hok => hok.1)
  obtain ⟨L', fl', href', heff⟩ := step_refines htr.refines htr.isInt32_next hok.1 hs
  have hexec := htr.refines.executing
  have hcur := htr.refines.current
  rw [htr.refines.kept_iff] at hkept
  rw [href'.kept_iff]
  constructor
  · intro hw hex
    obtain ⟨t, rfl⟩ := Option.isSome_iff_exists.mp (hexec.mp hex)
    rw [hcur]
    by_contra hno
    exact heff.not_waiting hok.2 htr.pending_isInt32 hno hw
  · intro hharm
    refine heff.waiting hkept fun t hfl => ?_
    subst hfl
    have := hharm (hexec.mpr rfl)
    rwa [hcur] at this

/-- **The row of the executed task** stays in `pending` at every moment of a run with one worker
and a reliable SQLite if and only if no step of the run is a `clearPending` while a task is
executed, or a `removeTask` whose ID is cut to that of the executed task. -/
theorem executed_kept_iff (h : Run SQLiteQueue.step Dependable fresh es q) :
    (∀ es₁ es₂ t, es = es₁ ++ es₂ → Run SQLiteQueue.step Dependable fresh es₁ t → Kept t) ↔
      ∀ es₁ a o es₂ t, es = es₁ ++ (a, o) :: es₂ → Run SQLiteQueue.step Dependable fresh es₁ t →
        Harmless t a := by
  have h₀ : Kept fresh := fresh_refines.kept_iff.mpr fun _ => nofun
  refine h.always_iff h₀ (fun _ => id) ?_ ?_
  · exact fun _ _ _ _ _ ht hkept hok hs => (step_kept_iff ht hkept hok hs).mpr
  · exact fun _ _ _ _ _ ht hkept hok hs hharm hu => hharm ((step_kept_iff ht hkept hok hs).mp hu)

/-- A task is picked; then a client tries to remove it. -/
def guardedRemove : List Action :=
  [.addTask Env.rowid listing, .start, .worker 0 .go, .worker 0 (.init Env.rowid),
    .removeTask Env.rowid 0]

theorem guardedRemove_runs : (script SQLiteQueue.step Dependable fresh guardedRemove).isSome := by
  decide +kernel

theorem executed_kept_guardedRemove :
    ∃ es q, Run SQLiteQueue.step Dependable fresh es q ∧
      ((∀ es₁ es₂ t, es = es₁ ++ es₂ → Run SQLiteQueue.step Dependable fresh es₁ t → Kept t) ↔
        ∀ es₁ a o es₂ t, es = es₁ ++ (a, o) :: es₂ →
          Run SQLiteQueue.step Dependable fresh es₁ t → Harmless t a) :=
  ⟨_, _, Run.of_script guardedRemove_runs, executed_kept_iff (Run.of_script guardedRemove_runs)⟩

/-- A task is picked; then a client clears `pending`. -/
def clearWhileExecuting : List Action :=
  [.addTask Env.rowid listing, .start, .worker 0 .go, .worker 0 (.init Env.rowid),
    .clearPending Env.rowid]

theorem clearWhileExecuting_runs :
    (script SQLiteQueue.step Dependable fresh clearWhileExecuting).isSome := by
  decide +kernel

/-- **`clearPending` deletes the row of the task that is executed.** -/
theorem clearPending_loses_row :
    ∃ es q, Run SQLiteQueue.step Dependable fresh es q ∧ Executing q.threads ∧
      (q.mToken.db .pending).map Table.rows = some [] ∧ ¬ Kept q := by
  have hexec : Executing ((script SQLiteQueue.step Dependable fresh clearWhileExecuting).get
      clearWhileExecuting_runs).2.threads := by
    refine ⟨.startProcess, ?_, rfl⟩
    decide +kernel
  have hempty : (((script SQLiteQueue.step Dependable fresh clearWhileExecuting).get
      clearWhileExecuting_runs).2.mToken.db .pending).map Table.rows = some [] := by
    decide +kernel
  refine ⟨_, _, Run.of_script clearWhileExecuting_runs, hexec, hempty, fun hkept => ?_⟩
  obtain ⟨tb, htb, r, hr, -⟩ := hkept hexec
  rw [htb] at hempty
  rw [Option.some.inj hempty] at hr
  cases hr

end SimpleTaskQueue
