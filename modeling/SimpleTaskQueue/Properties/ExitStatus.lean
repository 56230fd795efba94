import SimpleTaskQueue.Refinement.LinuxQueue
/-!
# SimpleTaskQueue.Properties.ExitStatus

**Does `done` tell how a task ended?** `LinuxProc` stores the status word of `waitpid` where
the exit code is meant, and nobody ever sets `isSuccess`: the row keeps the flag the task was
queued with. So the row is right exactly when the task was queued as a success and exited with
0, or was not and was killed by a signal.
-/

namespace SimpleTaskQueue

open Sqlite Processes Runs LinuxQueue

variable {s : LinuxQueue} {es es' : List HostEvent} {i : Nat} {env : Env} {pick : Int} {r : Report}
  {t : Task}

/-- The row tells the truth about a process that ended in that way. -/
def Truthful (row : Row) (end_ : Termination) : Prop :=
  (∀ n, end_ = .exited n → row.exitCode = n) ∧ (row.isSuccess = true ↔ end_ = .exited 0)

/-- When it does. -/
def TruthfulWhen (isSuccess : Bool) : Termination → Prop
  | .exited n => n = 0 ∧ isSuccess = true
  | .signaled _ _ => isSuccess = false

theorem isInt32_status (end_ : Termination) : IsInt32 end_.status := by
  cases end_ with
  | exited n =>
      show -2 ^ 31 ≤ n % 256 * 256 ∧ n % 256 * 256 < 2 ^ 31
      omega
  | signaled sig core =>
      obtain ⟨sig, h₁, h₂⟩ := sig
      show -2 ^ 31 ≤ (sig : Int) + (if core then 128 else 0) ∧
        (sig : Int) + (if core then 128 else 0) < 2 ^ 31
      split <;> omega

/-- The exit code of a row holding the status word, or 0, is the number passed to `exit` only
for 0. -/
theorem recorded_eq_iff {w n : Int} (hw : w = (Termination.exited n).status ∨ w = 0) :
    toInt32 w = n ↔ n = 0 := by
  rcases hw with rfl | rfl
  · rw [toInt32_of_isInt32 (isInt32_status _), status_exited_eq_iff]
  · rw [toInt32_of_isInt32 (by decide)]
    exact eq_comm

theorem truthful_iff {w : Int} {end_ : Termination} (hw : w = end_.status ∨ w = 0) (t : Task) :
    Truthful (finishedRow t w) end_ ↔ TruthfulWhen t.isSuccess end_ := by
  have hcode : (finishedRow t w).exitCode = toInt32 w := rfl
  have hsuccess : (finishedRow t w).isSuccess = t.isSuccess := rfl
  rw [Truthful, hcode, hsuccess]
  cases end_ with
  | exited n =>
      have hn := recorded_eq_iff hw
      simp only [TruthfulWhen, Termination.exited.injEq, forall_eq', hn]
      refine and_congr_right fun h0 => ?_
      simp [h0]
  | signaled sig core => simp [TruthfulWhen]

/-- **How a task ended, and what `done` says.** In every run with one worker at a time, each
`mainLoopFin` that moves a task appends one row to `done`. If the process of the task was
started, it has terminated since; and the row tells the truth about that if and only if the
task was queued with `isSuccess` and exited with 0, or was queued without it and was ended by a
signal. -/
theorem done_row_truthful_iff
    (h : Run LinuxQueue.step LinuxQueue.OneWorker LinuxQueue.fresh
      (es ++ (.fin i env pick, r) :: es') s)
    {exitCode : Option Int} (hr : r.outcome = some (t, exitCode, .moved)) :
    ∃ l s₁ s₂ L L' row, lastLaunch es = some l ∧ l.task = t ∧
      Run LinuxQueue.step LinuxQueue.OneWorker LinuxQueue.fresh es s₁ ∧
      Run LinuxQueue.step LinuxQueue.OneWorker s₂ es' s ∧
      s₁.queue.mToken.db = ledgerDB L ∧ s₂.queue.mToken.db = ledgerDB L' ∧
      L'.done = L.done ++ [row] ∧ row.ID = toInt32 t.ID ∧
      (l.rc = 0 → ∃ end_, terminations l.pid l.since = [end_] ∧
        (Truthful row end_ ↔ TruthfulWhen t.isSuccess end_)) := by
  obtain ⟨s₁, s₂, t', n, res, l, L, L', h₁, hout, hlast, htask, -, hrec, htr, heff, href, h₂⟩ :=
    run_fin h
  rw [hr] at hout
  obtain ⟨rfl, rfl, rfl⟩ : t = t' ∧ exitCode = n ∧ .moved = res := by simpa using hout
  -- also when the `DELETE` failed the row is written
  obtain ⟨w, rfl, hdone⟩ : ∃ w, exitCode = some w ∧ L'.done = L.done ++ [finishedRow t w] := by
    cases heff with
    | notMoved _ hr => rcases hr with hr | hr <;> cases hr
    | @copied _ _ _ w hfl | @moved _ _ _ w hfl =>
        cases hfl
        exact ⟨w, rfl, rfl⟩
  refine ⟨l, s₁, s₂, L, L', finishedRow t w, hlast, htask, h₁, h₂, htr.refines.db, href.db, hdone,
    rfl, fun hrc => ?_⟩
  obtain ⟨end_, hend, hw⟩ := hrec hrc w rfl
  exact ⟨end_, hend, truthful_iff (hw.imp_right And.left) t⟩

/-- A task whose process passes 1 to `exit`, up to the end of the process. -/
def exitsWithOne : List HostAction :=
  [.client (.addTask .rowid listing), .client .start, .go 0, .init 0 .rowid, .start 0 .ok,
    .terminate 1 (.exited 1), .isRunning 0 1]

theorem exitsWithOne_runs :
    (script LinuxQueue.step LinuxQueue.OneWorker LinuxQueue.fresh exitsWithOne).isSome := by
  decide +kernel

def exited : List HostEvent × LinuxQueue :=
  (script LinuxQueue.step LinuxQueue.OneWorker LinuxQueue.fresh exitsWithOne).get exitsWithOne_runs

theorem exited_fin : (exited.2.step (.fin 0 .rowid 1)).isSome := by
  decide +kernel

def finished : Report × LinuxQueue := (exited.2.step (.fin 0 .rowid 1)).get exited_fin

theorem run_exited :
    Run LinuxQueue.step LinuxQueue.OneWorker LinuxQueue.fresh exited.1 exited.2 :=
  Run.of_script exitsWithOne_runs

theorem run_finished : Run LinuxQueue.step LinuxQueue.OneWorker LinuxQueue.fresh
    (exited.1 ++ [(.fin 0 .rowid 1, finished.1)]) finished.2 :=
  run_exited.snoc_pair (r := finished) trivial (Option.some_get exited_fin).symm

theorem exited_launched : (lastLaunch exited.1).isSome := by
  decide +kernel

theorem done_row_truthful_iff_exitsWithOne :
    ∃ l s₁ s₂ L L' row, lastLaunch exited.1 = some l ∧ l.task = { listing with ID := 0 } ∧
      Run LinuxQueue.step LinuxQueue.OneWorker LinuxQueue.fresh exited.1 s₁ ∧
      Run LinuxQueue.step LinuxQueue.OneWorker s₂ [] finished.2 ∧
      s₁.queue.mToken.db = ledgerDB L ∧ s₂.queue.mToken.db = ledgerDB L' ∧
      L'.done = L.done ++ [row] ∧ row.ID = toInt32 0 ∧
      (l.rc = 0 → ∃ end_, terminations l.pid l.since = [end_] ∧
        (Truthful row end_ ↔ TruthfulWhen false end_)) := by
  have hmoved : finished.1.outcome = some ({ listing with ID := 0 }, some 256, .moved) := by
    decide +kernel
  exact done_row_truthful_iff run_finished hmoved

/-- The process passes 1 to `exit`; `done` says 256. -/
theorem exit_one_recorded_as_256 :
    ∃ es s r l row, Run LinuxQueue.step LinuxQueue.OneWorker LinuxQueue.fresh
        (es ++ [(.fin 0 .rowid 1, r)]) s ∧
      lastLaunch es = some l ∧ l.rc = 0 ∧ terminations l.pid l.since = [.exited 1] ∧
      s.queue.mToken.db .done = some (taskTable [row]) ∧ row.exitCode = 256 ∧
      ¬ Truthful row (.exited 1) := by
  refine ⟨_, _, _, (lastLaunch exited.1).get exited_launched,
    finishedRow { listing with ID := 0 } 256, run_finished,
    (Option.some_get exited_launched).symm, by decide +kernel, by decide +kernel,
    by decide +kernel, by decide +kernel, ?_⟩
  intro htrue
  obtain ⟨hcode, -⟩ := htrue
  exact absurd (hcode 1 rfl) (by decide +kernel)

end SimpleTaskQueue
