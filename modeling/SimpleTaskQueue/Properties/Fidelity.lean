import SimpleTaskQueue.Model.Proc.LinuxProc
import SimpleTaskQueue.Refinement.Provenance
/-!
# SimpleTaskQueue.Properties.Fidelity

**What is shown and executed is what was queued**: exactly when the argument list is
`Lossless`. The details calls and the worker read every row through `splitString`, so a list
that the encoding does not determine comes back changed, on every way out of the table; all
other lists, and the other strings, come back as they were. SQLite may fail in any pattern.
-/

namespace SimpleTaskQueue

open Sqlite Runs SQLiteQueue

variable {q : SQLiteQueue} {L L' : QueueLedger} {fl fl' : Option Task} {a : Action} {o : Output}
  {es : List Event} {i : Int} {t : Task}

/-- The argument vector the program of the task should get. -/
def argvOf (t : Task) : List (Option Str) :=
  some t.execName :: t.args.map some ++ [none]

/-- If the event shows the task with ID `i`, or hands it to `LinuxProc::start`, then it is `t`
that is shown, and the `argv` built for the child is that of `t`. -/
def ShownAs (t : Task) (i : Int) : Event → Prop
  | (.pendingDetails _ id _, .task .OK out) | (.finishedDetails _ id _, .task .OK out) =>
    toInt32 id = i → out.execName = t.execName ∧ out.args = t.args ∧ out.workDir = t.workDir
  | (.worker _ (.start _), .started out _) =>
    out.ID = i → ∀ alloc argv, buildChildArgv alloc out = some argv → argv = argvOf t
  | _ => True

/-! ### The argument vector -/

/-- `buildChildArgv` gets the argument vector right, whatever allocations fail: it returns
that vector or nothing. -/
theorem buildChildArgv_eq {alloc : Nat → Bool} {argv : List (Option Str)} (ht : t.NulFree)
    (h : buildChildArgv alloc t = some argv) : argv = argvOf t := by
  obtain ⟨-, rfl⟩ := buildChildArgv_eq_some_iff.mp h
  have hargs : t.args.map (fun s => some (cstr s)) = t.args.map some :=
    List.map_congr_left fun s hs => congrArg some (cstr_of_nulFree (ht.2.1 s hs))
  rw [argvOf, List.map_cons, hargs, cstr_of_nulFree ht.1]

/-- If the child gets as far as `execve`, it executes the program of the task with that
vector. -/
theorem startChild_eq {chdirOk : Bool} {alloc : Nat → Bool} {path : Str}
    {argv : List (Option Str)} (ht : t.NulFree)
    (h : startChild chdirOk alloc t = .execve path argv) :
    path = t.execName ∧ argv = argvOf t := by
  unfold startChild at h
  split at h
  · cases h
  · split at h
    · cases h
    · next hargv =>
      obtain ⟨rfl, rfl⟩ := ChildAction.execve.inj h
      exact ⟨cstr_of_nulFree ht.1, buildChildArgv_eq ht hargv⟩

/-! ### Reading the row of a task -/

/-- What every reader of the row of `t` gets. -/
theorem task_addedRow (ht : t.NulFree) (i : Int) :
    (addedRow t i).task.execName = t.execName ∧
    (addedRow t i).task.args = splitString (concatString t.args) ∧
    (addedRow t i).task.workDir = t.workDir := by
  refine ⟨cstr_of_nulFree ht.1, ?_, cstr_of_nulFree ht.2.2⟩
  show splitString (cstr (concatString t.args)) = _
  rw [cstr_of_nulFree (nulFree_concatString ht.2.1)]

/-- Reading the finished row gives the same. -/
theorem task_finishedRow (ht : t.NulFree) (i n : Int) :
    (finishedRow (addedRow t i).task n).task.execName = t.execName ∧
    (finishedRow (addedRow t i).task n).task.args = splitString (concatString t.args) ∧
    (finishedRow (addedRow t i).task n).task.workDir = t.workDir := by
  refine ⟨?_, ?_, ?_⟩
  · show cstr (cstr t.execName) = _
    rw [cstr_cstr, cstr_of_nulFree ht.1]
  · show splitString (cstr (concatString (splitString (cstr (concatString t.args))))) = _
    rw [concatString_splitString, cstr_cstr, cstr_of_nulFree (nulFree_concatString ht.2.1)]
  · show cstr (cstr t.workDir) = _
    rw [cstr_cstr, cstr_of_nulFree ht.2.2]

/-- **Step lemma.** An event shows the task of ID `i` as the one accepted `addTask` gave it,
if the encoding determines its arguments. -/
theorem Effect.shownAs (h : Effect L fl a o L' fl') (hp : Provenance es L fl)
    (hi : Added es i t) (ht : t.NulFree) (hargs : Lossless t.args) : ShownAs t i (a, o) := by
  have hback : splitString (concatString t.args) = t.args := (lossless_iff _).mpr hargs
  have hsame : ∀ t₀, Added es i t₀ → t₀ = t := fun t₀ h₀ => hp.unique _ _ _ h₀ hi
  cases h with
  | @pendingDetails env id out t' rc hrow =>
      cases rc with
      | OK =>
          intro hid
          obtain ⟨row, hmem, hrid, rfl⟩ := hrow rfl
          obtain ⟨t₀, ht₀, he⟩ := hp.pending row hmem
          rw [hrid.trans hid] at ht₀ he
          obtain rfl := hsame t₀ ht₀
          rw [he, ← hback]
          exact task_addedRow ht i
      | INVALID_ARGUMENT | NOT_FOUND | ALREADY_EXISTS | OUT_OF_RANGE | OS_ERROR => trivial
  | @finishedDetails env id out t' rc hrow =>
      cases rc with
      | OK =>
          intro hid
          obtain ⟨row, hmem, hrid, rfl⟩ := hrow rfl
          obtain ⟨t₀, n, ht₀, he⟩ := hp.done row hmem
          rw [hrid.trans hid] at ht₀ he
          obtain rfl := hsame t₀ ht₀
          rw [he, ← hback]
          exact task_finishedRow ht i n
      | INVALID_ARGUMENT | NOT_FOUND | ALREADY_EXISTS | OUT_OF_RANGE | OS_ERROR => trivial
  | @started k ok t' hfl =>
      intro hid alloc argv hargv
      obtain ⟨t₀, ht₀, he⟩ := hp.flight t' hfl
      rw [hid] at ht₀ he
      obtain rfl := hsame t₀ ht₀
      obtain ⟨hexec, hargs', hdir⟩ := task_addedRow ht i
      rw [← he, hback] at hargs'
      rw [← he] at hexec hdir
      have hnul : t'.NulFree := ⟨hexec ▸ ht.1, hargs' ▸ ht.2.1, hdir ▸ ht.2.2⟩
      rw [buildChildArgv_eq hnul hargv, argvOf, argvOf, hexec, hargs']
  | addTask | clearPending | clearFinished | removeTask | listPending | listFinished
  | clearPendingFailed | clearFinishedFailed | currentTask | addTaskFailed | addTaskSkipped
  | removeTaskFailed | start | stop | go | polled | picked | notPicked | noExitCode | notMoved
  | copied | dropped | moved => trivial

/-- Without failures a task added to the empty queue and asked for at once is shown as its row
reads. -/
theorem details_after_add (t : Task) :
    ∃ q, Run SQLiteQueue.step OneWorker fresh
      [(.addTask .rowid t, .task .OK { t with ID := 0 }),
        (.pendingDetails .rowid 0 Task.blank, .task .OK (addedRow t 0).task)] q := by
  have hrowid : Env.rowid.Reliable := by simp [Env.Reliable, Env.rowid]
  have hadm : ∀ {q : SQLiteQueue} {a : Action}, a.isStart = false → OneWorker q a := by
    intro q a ha h
    simp [ha] at h
  -- the task gets the ID 0
  obtain ⟨o₁, q₁, hs₁⟩ : ∃ o q, fresh.step (.addTask .rowid t) = some (o, q) := ⟨_, _, rfl⟩
  obtain ⟨L₁, fl₁, href₁, heff₁⟩ := step_refines fresh_refines (by decide) (hadm rfl) hs₁
  cases heff₁ with
  | addTaskFailed _ hrel => exact absurd hrowid hrel
  | addTaskSkipped _ hrel => exact absurd (List.nodup_singleton _) (hrel hrowid)
  | addTask _ =>
      -- and is the only row
      have hrow : (addedRow t emptyLedger.next) ∈
          (emptyLedger.add (addedRow t emptyLedger.next) (nextID emptyLedger.next)).pending :=
        List.mem_singleton.mpr rfl
      obtain ⟨o₂, q₂, hs₂⟩ : ∃ o q, q₁.step (.pendingDetails .rowid 0 Task.blank) = some (o, q) :=
        ⟨_, _, rfl⟩
      obtain ⟨L₂, fl₂, -, heff₂⟩ := step_refines href₁
        (show IsInt32 (nextID 0) by decide) (hadm rfl) hs₂
      cases heff₂ with
      | pendingDetails hread hrel =>
          rw [if_pos ⟨_, hrow, rfl⟩] at hrel
          obtain rfl := hrel hrowid
          obtain ⟨row, hmem, -, rfl⟩ := hread rfl
          obtain rfl : row = addedRow t 0 := List.mem_singleton.mp hmem
          exact ⟨q₂, .snoc (.single (hadm rfl) hs₁) (hadm rfl) hs₂⟩

/-- **What is shown and executed is what was queued, exactly for lossless argument lists.** Over
all runs with one worker at a time and fewer than `2^31 - 1` IDs handed out, with SQLite
failing in any pattern. -/
theorem shown_as_queued_iff (ht : t.NulFree) :
    (∀ es₁ env i es₂ q, Run SQLiteQueue.step OneWorker fresh
        (es₁ ++ (.addTask env t, .task .OK { t with ID := i }) :: es₂) q →
      adds (es₁ ++ (.addTask env t, .task .OK { t with ID := i }) :: es₂) < 2 ^ 31 - 1 →
      ∀ e ∈ es₂, ShownAs t i e) ↔ Lossless t.args := by
  constructor
  · intro h
    -- asking for the details at once shows what the encoding made of the arguments
    obtain ⟨q, hrun⟩ := details_after_add t
    have hshown := h [] .rowid 0 _ q hrun (by show 1 < _; decide) _
      (List.mem_singleton.mpr rfl)
    have hargs := (hshown rfl).2.1
    rw [(task_addedRow ht 0).2.1] at hargs
    exact (lossless_iff _).mp hargs
  · intro hargs es₁ env i es₂ q hrun hadds e he
    obtain ⟨es₃, es₄, rfl⟩ := List.append_of_mem he
    rw [← List.cons_append, ← List.append_assoc] at hrun hadds
    obtain ⟨q₁, L, fl, L', fl', htr, heff⟩ := run_effect hrun
    rw [adds_append] at hadds
    exact heff.shownAs (htr.provenance (by omega)) ⟨env, by simp⟩ ht hargs

theorem shown_as_queued_listing :
    Lossless listing.args ∧
      ∀ es₁ env i es₂ q, Run SQLiteQueue.step OneWorker fresh
          (es₁ ++ (.addTask env listing, .task .OK { listing with ID := i }) :: es₂) q →
        adds (es₁ ++ (.addTask env listing, .task .OK { listing with ID := i }) :: es₂) <
          2 ^ 31 - 1 →
        ∀ e ∈ es₂, ShownAs listing i e :=
  ⟨by decide, (shown_as_queued_iff (t := listing) (by decide)).mpr (by decide)⟩

/-- A task without arguments is shown with one, the empty string. -/
theorem no_args_shown_as_one :
    let t := { listing with args := [] }
    let shown := (Action.pendingDetails .rowid 0 Task.blank,
      Output.task .OK { t with ID := 0, args := [[]] })
    t.NulFree ∧
      (∃ q, Run SQLiteQueue.step OneWorker fresh
        [(.addTask .rowid t, .task .OK { t with ID := 0 }), shown] q) ∧
      ¬ ShownAs t 0 shown := by
  refine ⟨by decide, details_after_add { listing with args := [] }, fun h => ?_⟩
  have hargs := (h rfl).2.1
  simp at hargs

end SimpleTaskQueue
