import SimpleTaskQueue.Refinement.Worker
/-!
# SimpleTaskQueue.Properties.Workers

**At most one worker per queue**, in the runs in which no `start` launches a thread while
another one is still in the loop of `mainLoop`. The code does not see to that: `stop` (and an
empty `pending`) clears `m_isRunning` while the thread is in the loop, and the next `start`
sets `m_start` again, so that both threads go on.
-/

namespace SimpleTaskQueue

open Sqlite Runs SQLiteQueue

variable {q u : SQLiteQueue} {a : Action} {o : Output} {es es' : List (Action × Output)}
  {i j : Nat} {p : Pc}

/-- The thread that picks a task in the event. -/
def picker : Action × Output → Option Nat
  | (.worker i (.init _), .inited (.picked _)) => some i
  | _ => none

/-- The thread `i` picks a task. -/
def Picks (es : List (Action × Output)) (i : Nat) : Prop := ∃ e ∈ es, picker e = some i

theorem picker_eq_some {e : Action × Output} (h : picker e = some i) :
    ∃ env, e.1 = .worker i (.init env) := by
  unfold picker at h
  split at h
  · cases h
    exact ⟨_, rfl⟩
  · cases h

/-- The thread `i` was launched and has left the loop. -/
def Left (q : SQLiteQueue) (i : Nat) : Prop := ∃ p, q.threads[i]? = some p ∧ p.InLoop = false

/-- **Step lemma.** A thread that left the loop stays out, and does not pick a task. -/
theorem left_step (h : Left q i) (hs : q.step a = some (o, u)) :
    Left u i ∧ ∀ env, a ≠ .worker i (.init env) := by
  obtain ⟨p, hp, hl⟩ := h
  by_cases hw : ∃ k w, a = .worker k w
  · obtain ⟨k, w, rfl⟩ := hw
    obtain ⟨pc, pc', q', hpc, hstep, rfl⟩ := step_worker hs
    by_cases hk : k = i
    · subst hk
      obtain rfl : pc = p := Option.some.inj (hpc.symm.trans hp)
      have hl' : pc'.InLoop = false := by
        rw [Bool.eq_false_iff]
        exact fun hc => by simp [hstep.inLoop hc] at hl
      refine ⟨⟨pc', by simp [List.getElem?_set_self', hpc], hl'⟩, fun env he => ?_⟩
      cases he
      cases hstep with
      | init => cases hl
    · refine ⟨⟨p, by rw [List.getElem?_set_ne hk]; exact hp, hl⟩, fun env he => ?_⟩
      exact hk (Action.worker.inj he).1
  · refine ⟨⟨p, ?_, hl⟩, fun env he => hw ⟨i, _, he⟩⟩
    by_cases hstart : a = .start
    · subst hstart
      simp only [SQLiteQueue.step, Option.some.injEq, Prod.mk.injEq] at hs
      obtain ⟨-, rfl⟩ := hs
      unfold start
      split
      · exact hp
      · exact (List.getElem?_append_left (List.getElem?_eq_some_iff.mp hp).choose).trans hp
    · rw [step_client_threads hs (fun k w hc => hw ⟨k, w, hc⟩) hstart]
      exact hp

/-- **Run lemma.** Whatever happens afterwards, a thread that left the loop picks nothing. -/
theorem left_run (h : Left q i) (hrun : Run SQLiteQueue.step anyAction q es u) :
    Left u i ∧ ¬ Picks es i := by
  induction hrun with
  | nil =>
      refine ⟨h, fun hpicks => ?_⟩
      obtain ⟨e, he, -⟩ := hpicks
      cases he
  | snoc _ _ hs ih =>
      obtain ⟨hleft, hno⟩ := ih
      obtain ⟨hleft', hinit⟩ := left_step hleft hs
      refine ⟨hleft', fun hpicks => ?_⟩
      obtain ⟨e, he, hpick⟩ := hpicks
      rcases List.mem_append.mp he with he | he
      · exact hno ⟨e, he, hpick⟩
      · obtain ⟨env, ha⟩ := picker_eq_some hpick
        rw [List.mem_singleton.mp he] at ha
        exact hinit env ha

/-- **At most one worker.** In every run in which each `start` that launches a thread finds no
thread in the loop, at most one thread is in the loop at any time; and of two threads at most
one goes on to pick a task. -/
theorem one_worker (h : Run SQLiteQueue.step OneWorker fresh es q) :
    Single q.threads ∧
      ∀ i j es' q', i ≠ j → i < q.threads.length → j < q.threads.length →
        Run SQLiteQueue.step anyAction q es' q' → ¬ (Picks es' i ∧ Picks es' j) := by
  have hsingle := run_single h single_fresh
  refine ⟨hsingle, fun i j es' q' hij hi hj hrun ⟨hpi, hpj⟩ => hij ?_⟩
  -- whoever goes on to pick is still in the loop
  have hin : ∀ {k : Nat} (hk : k < q.threads.length), Picks es' k →
      (q.threads[k]).InLoop = true := by
    intro k hk hpick
    by_contra hout
    exact (left_run ⟨_, List.getElem?_eq_getElem hk, by simpa using hout⟩ hrun).2 hpick
  exact hsingle i j _ _ (List.getElem?_eq_getElem hi) (List.getElem?_eq_getElem hj)
    (hin hi hpi) (hin hj hpj)

/-- Two sessions, the second started after the first `mainLoop` has returned. -/
def twoSessions : List Action :=
  [.start, .worker 0 .go, .worker 0 (.init .rowid), .worker 0 .go, .worker 0 .go, .start]

theorem twoSessions_runs : (script SQLiteQueue.step OneWorker fresh twoSessions).isSome := by
  decide +kernel

theorem one_worker_twoSessions :
    let q := ((script SQLiteQueue.step OneWorker fresh twoSessions).get twoSessions_runs).2
    Single q.threads ∧
      ∀ i j es' q', i ≠ j → i < q.threads.length → j < q.threads.length →
        Run SQLiteQueue.step anyAction q es' q' → ¬ (Picks es' i ∧ Picks es' j) :=
  one_worker (Run.of_script twoSessions_runs)

/-- `stop` and `start` while the first thread polls its process. -/
def restart : List Action :=
  [.addTask .rowid listing, .addTask .rowid listing, .start, .worker 0 .go,
    .worker 0 (.init .rowid), .worker 0 (.start true), .stop, .start]

/-- Both threads go on: the new one picks the task that is being executed, the old one the
next. -/
def bothGoOn : List Action :=
  [.worker 1 .go, .worker 1 (.init .rowid), .worker 0 (.isRunning false),
    .worker 0 (.fin .rowid (some 0)), .worker 0 .go, .worker 0 (.init .rowid)]

theorem restart_runs : (script SQLiteQueue.step anyAction fresh restart).isSome := by
  decide +kernel

theorem bothGoOn_runs :
    (script SQLiteQueue.step anyAction
      ((script SQLiteQueue.step anyAction fresh restart).get restart_runs).2 bothGoOn).isSome := by
  decide +kernel

theorem two_workers_pick :
    ∃ es q es' q', Run SQLiteQueue.step anyAction fresh es q ∧ q.threads = [.poll, .test] ∧
      Run SQLiteQueue.step anyAction q es' q' ∧ Picks es' 0 ∧ Picks es' 1 := by
  refine ⟨_, _, _, _, Run.of_script restart_runs, by decide +kernel,
    Run.of_script bothGoOn_runs, ?_, ?_⟩
  · show ∃ e ∈ _, _
    decide +kernel
  · show ∃ e ∈ _, _
    decide +kernel

end SimpleTaskQueue
