import SimpleTaskQueue.Properties.ExitStatus
import SimpleTaskQueue.Refinement.Provenance
/-!
# SimpleTaskQueue.Properties.StartFailure

**Which tasks are recorded as finished?** The branch of `mainLoop` for a failed
`m_process->start` calls `mainLoopFin` like the other one does. So a task whose start failed
stays in `pending` only if a process is still found running, and is moved to `done` otherwise.
What `done` promises is that the task was handed to `LinuxProc::start`, and if that succeeded,
that the exit code is what the child of that very start left.
-/

namespace SimpleTaskQueue

open Sqlite Processes Runs LinuxQueue

variable {s s₁ s₂ : LinuxQueue} {es es₁ es₂ : List HostEvent} {i : Nat} {env : Env} {pick : Int}
  {r : Report} {L L' : QueueLedger} {row : Row}

/-- The part of the queue in a history. -/
abbrev queueEvents (es : List HostEvent) : List Event := es.flatMap fun e => e.2.events

/-- What `mainLoopFin` does between `s₁` and `s₂` after the history `es`. It is for the task of
the last start, whatever that returned. -/
def Handled (es : List HostEvent) (env : Env) (pick : Int) (r : Report) (s₁ s₂ : LinuxQueue) :
    Prop :=
  ∃ (l : Launch) (exitCode : Option Int) (res : FinResult) (L L' : QueueLedger),
    lastLaunch es = some l ∧ r.outcome = some (l.task, exitCode, res) ∧
    s₁.queue.mToken.db = ledgerDB L ∧ s₂.queue.mToken.db = ledgerDB L' ∧
    (exitCode = none ↔ (s₁.proc.isRunning pick s₁.children).1 = true) ∧
    (exitCode = none → res = .noExitCode ∧ L' = L) ∧
    ((∀ e ∈ queueEvents es, e.1.Reliable) → env.Reliable → adds (queueEvents es) < 2 ^ 31 - 1 →
      ∀ n, exitCode = some n →
        res = .moved ∧ L' = (dropID L (toInt32 l.task.ID)).finish (finishedRow l.task n))

/-- The row was written by a `mainLoopFin` for the task of the last start. If that start
returned 0, the exit code is what its child left. -/
def WrittenFor (es : List HostEvent) (row : Row) : Prop :=
  ∃ es₁ i env pick r es₂ l n, es = es₁ ++ (HostAction.fin i env pick, r) :: es₂ ∧
    lastLaunch es₁ = some l ∧ r.outcome = some (l.task, some n, .moved) ∧
    row = finishedRow l.task n ∧ (l.rc = 0 → Recorded l.pid l.since n)

theorem WrittenFor.mono (h : WrittenFor es row) : WrittenFor (es ++ es₁) row := by
  obtain ⟨es₂, i, env, pick, r, es₃, l, n, rfl, h⟩ := h
  exact ⟨es₂, i, env, pick, r, es₃ ++ es₁, l, n, by simp, h⟩

/-- `exitCode` fails if and only if a process is found running. -/
theorem exitCode_eq_none {p p' : LinuxProc} {k k' : Children} {n : Option Int}
    (h : p.exitCode pick k = (n, p', k')) : n = none ↔ (p.isRunning pick k).1 = true := by
  rcases hrun : p.isRunning pick k with ⟨b, p₁, k₁⟩
  simp only [LinuxProc.exitCode, hrun] at h
  cases b with
  | true =>
      cases h
      simp
  | false =>
      cases h
      simp

theorem handled (h : Run LinuxQueue.step LinuxQueue.OneWorker LinuxQueue.fresh
      (es₁ ++ (.fin i env pick, r) :: es₂) s) :
    ∃ s₁ s₂, Run LinuxQueue.step LinuxQueue.OneWorker LinuxQueue.fresh es₁ s₁ ∧
      Run LinuxQueue.step LinuxQueue.OneWorker s₂ es₂ s ∧ Handled es₁ env pick r s₁ s₂ := by
  obtain ⟨s₁, s₂, t, n, res, l, L, L', h₁, hout, hlast, rfl, hn, -, htr, heff, href, h₂⟩ :=
    run_fin h
  refine ⟨s₁, s₂, h₁, h₂, l, n, res, L, L', hlast, hout, htr.refines.db, href.db,
    exitCode_eq_none hn, ?_, ?_⟩
  · intro hnone
    subst hnone
    cases heff
    exact ⟨rfl, rfl⟩
  · intro hrel henv hadds w hw
    subst hw
    have hv := htr.valid hadds hrel
    obtain ⟨t₀, ht₀, -⟩ := (htr.provenance hadds).flight l.task rfl
    have hid : IsInt32 l.task.ID := ((htr.provenance hadds).below _ _ ht₀).1
    cases heff with
    | notMoved _ _ hf | copied _ _ hf => exact absurd henv hf
    | dropped _ hf => exact absurd (hv.finish_nodup (toInt32_of_isInt32 hid)) (hf henv)
    | moved => exact ⟨rfl, rfl⟩

/-- A finished row after a step was there before, or the step is a `mainLoopFin` that wrote it. -/
theorem done_step {a : HostAction}
    (h : Run LinuxQueue.step LinuxQueue.OneWorker LinuxQueue.fresh es s)
    (hok : LinuxQueue.OneWorker s a) (hs : s.step a = some (r, s₁))
    (hdb : s.queue.mToken.db = ledgerDB L) (hdb' : s₁.queue.mToken.db = ledgerDB L')
    (hrow : row ∈ L'.done) : row ∈ L.done ∨ WrittenFor (es ++ [(a, r)]) row := by
  obtain ⟨M, fl, htr⟩ := run_tracked (run_queue h)
  obtain rfl : M = L := ledgerDB_injective (htr.refines.db.symm.trans hdb)
  -- of the steps of the queue only `mainLoopFin` writes to `done`
  have hquiet : ∀ {qa : Action} {o : Output} {q : SQLiteQueue}, s.queue.step qa = some (o, q) →
      SQLiteQueue.OneWorker s.queue qa → (∀ k e n, qa ≠ .worker k (.fin e n)) →
      q.mToken.db = ledgerDB L' → row ∈ M.done := by
    intro qa o q hq hqok hne hdb'
    obtain ⟨M', fl', href, heff⟩ := step_refines htr.refines htr.isInt32_next hqok hq
    obtain rfl : M' = L' := ledgerDB_injective (href.db.symm.trans hdb')
    rcases heff.done hrow with hrow | ⟨k, e, t, n, rfl, -⟩
    · exact hrow
    · exact absurd rfl (hne k e _)
  have hrun := Run.snoc h hok hs
  cases HostStep.of_step hs with
  | quiet hqa hq =>
      exact .inl (hquiet hq (quietPart_oneWorker hqa hok) (quietPart_ne hqa).2 hdb')
  | start _ hq | isRunning _ hq =>
      exact .inl (hquiet hq (fun h => nomatch h) (fun _ _ _ => nofun) hdb')
  | terminate | fork | collect =>
      obtain rfl : M = L' := ledgerDB_injective (hdb.symm.trans hdb')
      exact .inl hrow
  | @fin i env pick n p k o q =>
      obtain ⟨s₂, s₃, t, n', res, l, N, N', h₂, hout, hlast, rfl, -, hrec, htr₂, heff, href,
        hnil⟩ := run_fin hrun
      -- the run determines the states, and the states the ledgers
      obtain rfl : s = s₂ := h.det h₂
      have hend : Run LinuxQueue.step LinuxQueue.OneWorker s₃ [] s₃ := .nil
      obtain rfl := hend.det hnil
      obtain rfl : M = N := ledgerDB_injective (htr.refines.db.symm.trans htr₂.refines.db)
      obtain rfl : N' = L' := ledgerDB_injective (href.db.symm.trans hdb')
      rcases heff.done hrow with hrow | ⟨k, e, t, w, ha, ho, hfl, rfl⟩
      · exact .inl hrow
      · obtain rfl : n' = some w := (Work.fin.inj (Action.worker.inj ha).2).2
        obtain rfl : res = .moved := (Output.finished.inj ho).2
        obtain rfl : l.task = t := Option.some.inj hfl
        exact .inr ⟨es, i, env, pick, _, [], l, w, rfl, hlast, hout, rfl, fun hrc => hrec hrc w rfl⟩

/-- **Run lemma.** Every finished row was written for a task that was started. -/
theorem done_rows_written (h : Run LinuxQueue.step LinuxQueue.OneWorker LinuxQueue.fresh es s)
    (hdb : s.queue.mToken.db = ledgerDB L) (hrow : row ∈ L.done) : WrittenFor es row := by
  induction h generalizing L with
  | nil =>
      obtain rfl : emptyLedger = L := ledgerDB_injective (newToken_db.symm.trans hdb)
      cases hrow
  | snoc h hok hs ih =>
      obtain ⟨M, fl, htr⟩ := run_tracked (run_queue h)
      rcases done_step h hok hs htr.refines.db hdb hrow with hrow | hw
      · exact (ih htr.refines.db hrow).mono
      · exact hw

/-- A server that runs as the super user: `LinuxProc::start` refuses. -/
def StartEnv.admin : StartEnv := { StartEnv.ok with isAdmin := true }

/-- A task whose start fails. -/
def refusedStart : List HostAction :=
  [.client (.addTask .rowid listing), .client .start, .go 0, .init 0 .rowid, .start 0 .admin,
    .fin 0 .rowid 1]

theorem refusedStart_runs :
    (script LinuxQueue.step LinuxQueue.OneWorker LinuxQueue.fresh refusedStart).isSome := by
  decide +kernel

/-- A task whose process passes 3 to `exit`; another part of the server collects the status. -/
def stolenStatus : List HostAction :=
  [.client (.addTask .rowid listing), .client .start, .go 0, .init 0 .rowid, .start 0 .ok,
    .terminate 1 (.exited 3), .collect 1, .isRunning 0 1, .fin 0 .rowid 1]

theorem stolenStatus_runs :
    (script LinuxQueue.step LinuxQueue.OneWorker LinuxQueue.fresh stolenStatus).isSome := by
  decide +kernel

def refused : List HostEvent × LinuxQueue :=
  (script LinuxQueue.step LinuxQueue.OneWorker LinuxQueue.fresh refusedStart).get refusedStart_runs

def stolen : List HostEvent × LinuxQueue :=
  (script LinuxQueue.step LinuxQueue.OneWorker LinuxQueue.fresh stolenStatus).get stolenStatus_runs

theorem run_refused :
    Run LinuxQueue.step LinuxQueue.OneWorker LinuxQueue.fresh refused.1 refused.2 :=
  Run.of_script refusedStart_runs

theorem run_stolen :
    Run LinuxQueue.step LinuxQueue.OneWorker LinuxQueue.fresh stolen.1 stolen.2 :=
  Run.of_script stolenStatus_runs

theorem refused_launched : (lastLaunch refused.1).isSome := by
  decide +kernel

theorem stolen_launched : (lastLaunch stolen.1).isSome := by
  decide +kernel

end SimpleTaskQueue
