import SimpleTaskQueue.Model.Proc.ReaderThreads
import SimpleTaskQueue.Refinement.LinuxQueue
/-!
# SimpleTaskQueue.Properties.Joining

**Does `LinuxProc::start` return?** It waits for the reader thread of the task before. That one
leaves its loop when it finds the descriptors closed; but `start` has opened new ones by then, and
stored them in the same members. A thread that slept in the meantime finds an open epoll instance
and goes on, as a second reader of the new terminal. Nobody closes the descriptors any more, since
the worker that polls `isRunning` is the one that waits.
-/

namespace SimpleTaskQueue

open Processes Runs
open LinuxQueue (start_eq_zero)

namespace ReaderThreads

variable {size max : Nat} {s t u : ReaderThreads} {a : ThreadsAction} {o : ThreadsOutput}
  {es : List (ThreadsAction × ThreadsOutput)} {pc pc' : ReaderPc} {answer : Answer}

/-- No signal interrupts `epoll_wait`, and the terminal of a child that has ended answers with `EIO`
instead of the end of a file. Descriptors are not negative. -/
def Quiet (_ : ReaderThreads) : ThreadsAction → Prop
  | .start env => env.forkpty ≠ some (-1) ∧ env.epollCreate ≠ some (-1)
  | .reader answer | .oldReader answer => answer ≠ .interrupted ∧ answer ≠ .eof
  | _ => True

instance (s : ReaderThreads) (a : ThreadsAction) : Decidable (Quiet s a) := by
  unfold Quiet
  split <;> infer_instance

/-- A step of a thread leaves the descriptors alone, and may write an event. -/
structure Moved (s u : ReaderThreads) : Prop where
  proc : u.proc = s.proc
  dataFd : u.dataFd = s.dataFd
  eventsFd : u.eventsFd = s.eventsFd ∨ u.eventsFd = s.dataFd
  joining : u.joining = s.joining

theorem moved_of_loop (h : s.readOutputLoop size max pc answer = some (o, u, pc')) : Moved s u := by
  unfold readOutputLoop at h
  split at h <;> try split at h
  all_goals cases h <;> exact ⟨rfl, rfl, by simp, rfl⟩

/-- What a step can do to the object while `start` waits. -/
theorem moved_of_step (h : step size max s a = some (o, u)) (hs : s.joining = some pc) :
    (Moved s u ∧ ∀ answer, a ≠ .oldReader answer) ∨ (a = .joined ∧ pc = .returned) ∨
      ∃ answer v pc', a = .oldReader answer ∧
        s.readOutputLoop size max pc answer = some (o, v, pc') ∧
        u = { v with joining := some pc' } := by
  cases a with
  | write text =>
      obtain ⟨-, h⟩ := Option.ite_none_right_eq_some.mp h
      cases h
      exact .inl ⟨⟨rfl, rfl, .inl rfl, rfl⟩, by simp⟩
  | terminate t =>
      obtain ⟨_, -, h⟩ := Option.map_eq_some_iff.mp h
      cases h
      exact .inl ⟨⟨rfl, rfl, .inl rfl, rfl⟩, by simp⟩
  | start env =>
      obtain ⟨hnone, -⟩ := Option.ite_none_right_eq_some.mp h
      rw [hs] at hnone
      cases hnone
  | joined =>
      obtain ⟨hjoined, -⟩ := Option.ite_none_right_eq_some.mp h
      rw [hs, Option.some.injEq] at hjoined
      exact .inr (.inl ⟨rfl, hjoined⟩)
  | stop =>
      cases h
      exact .inl ⟨⟨rfl, rfl, .inl rfl, rfl⟩, by simp⟩
  | isRunning pick =>
      obtain ⟨hnone, -⟩ := Option.ite_none_right_eq_some.mp h
      rw [hs] at hnone
      cases hnone
  | exitCode pick =>
      obtain ⟨hnone, -⟩ := Option.ite_none_right_eq_some.mp h
      rw [hs] at hnone
      cases hnone
  | readCurrentOutput =>
      cases h
      exact .inl ⟨⟨rfl, rfl, .inl rfl, rfl⟩, by simp⟩
  | reader answer =>
      obtain ⟨⟨o', v, pc'⟩, hloop, he⟩ := Option.map_eq_some_iff.mp h
      obtain ⟨rfl, rfl⟩ := Prod.mk.inj he
      obtain ⟨hproc, hdata, hevents, hjoining⟩ := moved_of_loop hloop
      exact .inl ⟨⟨hproc, hdata, hevents, hjoining⟩, by simp⟩
  | oldReader answer =>
      simp only [step, hs, Option.bind_some] at h
      obtain ⟨⟨o', v, pc'⟩, hloop, he⟩ := Option.map_eq_some_iff.mp h
      obtain ⟨rfl, rfl⟩ := Prod.mk.inj he
      exact .inr (.inr ⟨answer, v, pc', rfl, hloop, rfl⟩)

/-- Only a call of `start` makes the worker wait. -/
theorem start_of_step (h : step size max s a = some (o, u)) (hs : s.joining = none) :
    u.joining = none ∨ ∃ env, a = .start env ∧ s.start env = (o, u) := by
  cases a with
  | write text =>
      obtain ⟨-, h⟩ := Option.ite_none_right_eq_some.mp h
      cases h
      exact .inl hs
  | terminate t =>
      obtain ⟨_, -, h⟩ := Option.map_eq_some_iff.mp h
      cases h
      exact .inl hs
  | start env =>
      obtain ⟨-, h⟩ := Option.ite_none_right_eq_some.mp h
      exact .inr ⟨env, rfl, Option.some.inj h⟩
  | joined =>
      obtain ⟨-, h⟩ := Option.ite_none_right_eq_some.mp h
      cases h
      exact .inl rfl
  | stop | readCurrentOutput =>
      cases h
      exact .inl hs
  | isRunning pick | exitCode pick =>
      obtain ⟨-, h⟩ := Option.ite_none_right_eq_some.mp h
      cases h
      exact .inl hs
  | reader answer =>
      obtain ⟨⟨o', v, pc'⟩, hloop, he⟩ := Option.map_eq_some_iff.mp h
      obtain ⟨rfl, rfl⟩ := Prod.mk.inj he
      exact .inl ((moved_of_loop hloop).joining.trans hs)
  | oldReader answer =>
      simp only [step, hs, Option.bind_none] at h
      cases h

/-! ### A `start` that waits -/

/-- While `start` waits, its descriptors are open. -/
def Opened (s : ReaderThreads) : Prop :=
  s.joining ≠ none →
    s.proc.mEpollFd ≠ -1 ∧ s.proc.mMasterFD ≠ -1 ∧ s.dataFd = s.proc.mMasterFD

theorem Moved.opened (h : Moved s u) (hs : Opened s) : Opened u := by
  intro hjoining
  rw [h.joining] at hjoining
  rw [h.proc, h.dataFd]
  exact hs hjoining

/-- **Step lemma.** -/
theorem opened_step (h : step size max s a = some (o, u)) (hquiet : Quiet s a) (hs : Opened s) :
    Opened u := by
  obtain hjoining | ⟨pc, hjoining⟩ := s.joining.eq_none_or_eq_some
  · rcases start_of_step h hjoining with hnone | ⟨env, rfl, hstart⟩
    · exact fun hsome => absurd hnone hsome
    obtain ⟨hfork, hcreate⟩ := hquiet
    unfold start at hstart
    rcases hres : s.proc.start env s.children with ⟨rc, p, k⟩
    simp only [hres] at hstart
    split at hstart
    · cases hstart
      exact fun hsome => absurd hjoining hsome
    · next hrc =>
      cases hstart
      obtain rfl : rc = 0 := not_not.mp hrc
      obtain ⟨-, -, hmaster, hepoll⟩ := start_eq_zero hres
      refine fun _ => ⟨fun hclosed => hcreate ?_, fun hclosed => hfork ?_, rfl⟩
      · have hclosed : p.mEpollFd = -1 := hclosed
        rw [hepoll, hclosed]
      · have hclosed : p.mMasterFD = -1 := hclosed
        rw [hmaster, hclosed]
  · rcases moved_of_step h hjoining with ⟨hmoved, -⟩ | ⟨rfl, -⟩ | ⟨answer, v, pc', -, hloop, rfl⟩
    · exact hmoved.opened hs
    · obtain ⟨-, h⟩ := Option.ite_none_right_eq_some.mp h
      cases h
      exact fun hnone => absurd rfl hnone
    · have hmoved := moved_of_loop hloop
      intro _
      have hopened := hs (by rw [hjoining]; exact Option.some_ne_none pc)
      show v.proc.mEpollFd ≠ -1 ∧ v.proc.mMasterFD ≠ -1 ∧ v.dataFd = v.proc.mMasterFD
      rw [hmoved.proc, hmoved.dataFd]
      exact hopened

/-- **Run lemma.** -/
theorem run_opened (h : Run (step size max) Quiet fresh es s) : Opened s :=
  h.invariant (I := Opened) (fun hsome => absurd rfl hsome) fun _ _ _ _ hs hquiet hstep =>
    opened_step hstep hquiet hs

/-- The old thread is in its loop, and what it reads is the new terminal. -/
def Hangs (s : ReaderThreads) : Prop :=
  ∃ pc, s.joining = some pc ∧ pc ≠ .returned ∧ (pc = .read → s.eventsFd = s.proc.mMasterFD)

theorem Moved.hangs (h : Moved s u) (hopened : Opened s) (hs : Hangs s) : Hangs u := by
  obtain ⟨pc, hjoining, hpc, hread⟩ := hs
  obtain ⟨-, -, hdata⟩ := hopened (by rw [hjoining]; exact Option.some_ne_none pc)
  refine ⟨pc, h.joining.trans hjoining, hpc, fun he => ?_⟩
  rw [h.proc]
  rcases h.eventsFd with hevents | hevents
  · rw [hevents, hread he]
  · rw [hevents, hdata]

/-- The old thread stays in its loop: the descriptors are open. -/
theorem loop_hangs (h : s.readOutputLoop size max pc answer = some (o, u, pc'))
    (hanswer : answer ≠ .interrupted ∧ answer ≠ .eof) (hepoll : s.proc.mEpollFd ≠ -1)
    (hmaster : s.proc.mMasterFD ≠ -1) (hread : pc = .read → s.eventsFd = s.proc.mMasterFD) :
    pc' ≠ .returned ∧ (pc' = .read → u.eventsFd = u.proc.mMasterFD) := by
  cases pc with
  | wait =>
      cases answer with
      | badFd => exact absurd (Option.ite_none_right_eq_some.mp h).1 hepoll
      | interrupted => exact absurd rfl hanswer.1
      | timeout =>
          cases h
          exact ⟨nofun, nofun⟩
      | event epollin =>
          obtain ⟨-, h⟩ := Option.ite_none_right_eq_some.mp h
          cases h
          exact ⟨nofun, nofun⟩
      | data | again | eof | none => cases h
  | event epollin =>
      cases answer with
      | none =>
          simp only [readOutputLoop] at h
          split at h
          · next hevent =>
            cases h
            exact ⟨nofun, fun _ => hevent.1⟩
          · cases h
            exact ⟨nofun, nofun⟩
      | badFd | interrupted | timeout | event | data | again | eof => cases h
  | read =>
      have hreads : s.Reads := ⟨hread rfl, hmaster⟩
      cases answer with
      | badFd => exact absurd hreads (Option.ite_none_left_eq_some.mp h).1
      | again =>
          obtain ⟨-, h⟩ := Option.ite_none_right_eq_some.mp h
          cases h
          exact ⟨nofun, hread⟩
      | eof => exact absurd rfl hanswer.2
      | data n =>
          obtain ⟨-, h⟩ := Option.ite_none_right_eq_some.mp h
          cases h
          exact ⟨nofun, nofun⟩
      | interrupted | timeout | event | none => cases h
  | push buf | sleep =>
      cases answer with
      | none =>
          cases h
          exact ⟨nofun, nofun⟩
      | badFd | interrupted | timeout | event | data | again | eof => cases h
  | returned => cases answer <;> cases h

/-- **Step lemma.** -/
theorem hangs_step (h : step size max s a = some (o, u)) (hquiet : Quiet s a) (hopened : Opened s)
    (hs : Hangs s) : Hangs u := by
  obtain ⟨pc, hjoining, hpc, hread⟩ := hs
  rcases moved_of_step h hjoining with
    ⟨hmoved, -⟩ | ⟨-, hreturned⟩ | ⟨answer, v, pc', rfl, hloop, rfl⟩
  · exact hmoved.hangs hopened ⟨pc, hjoining, hpc, hread⟩
  · exact absurd hreturned hpc
  · obtain ⟨hepoll, hmaster, -⟩ := hopened (by rw [hjoining]; exact Option.some_ne_none pc)
    obtain ⟨hpc', hread'⟩ := loop_hangs hloop hquiet hepoll hmaster hread
    exact ⟨pc', rfl, hpc', hread'⟩

/-- **Run lemma.** What hangs goes on hanging, whatever child and clients do. -/
theorem run_hangs (h : Run (step size max) Quiet s es t) (hopened : Opened s) (hs : Hangs s) :
    Hangs t :=
  (h.invariant (I := fun s => Opened s ∧ Hangs s) ⟨hopened, hs⟩ fun _ _ _ _ hi hquiet hstep =>
    ⟨opened_step hstep hquiet hi.1, hangs_step hstep hquiet hi.1 hi.2⟩).2

/-- **When `start` returns.** In every state in which `start` waits for the thread of the task
before, over any number of tasks: it can return if and only if this thread has left its loop, or is
about to read from a number that is not the one of the new terminal. Otherwise it never returns. -/
theorem start_returns_iff (h : Run (step size max) Quiet fresh es s)
    (hjoining : s.joining = some pc) :
    (∃ es' t, Run (step size max) Quiet s es' t ∧ t.joining = none) ↔
      pc = .returned ∨ (pc = .read ∧ s.eventsFd ≠ s.proc.mMasterFD) := by
  constructor
  · rintro ⟨es', t, hrun, hnone⟩
    by_contra hnot
    obtain ⟨hpc, hread⟩ := not_or.mp hnot
    have hhangs : Hangs s :=
      ⟨pc, hjoining, hpc, fun he => not_not.mp fun hne => hread ⟨he, hne⟩⟩
    obtain ⟨pc', hjoining', -⟩ := run_hangs hrun (run_opened h) hhangs
    rw [hnone] at hjoining'
    cases hjoining'
  · have hjoin : ∀ v : ReaderThreads, v.joining = some .returned →
        step size max v .joined = some (.code 0, { v with joining := none }) :=
      fun v hv => if_pos hv
    rintro (rfl | ⟨rfl, hevents⟩)
    · exact ⟨_, _, .single (a := ThreadsAction.joined) trivial (hjoin s hjoining), rfl⟩
    · have hreads : ¬ s.Reads := fun hreads => hevents hreads.1
      have hleave : step size max s (.oldReader .badFd) =
          some (.silent, { s with joining := some .returned }) := by
        simp only [step, hjoining, Option.bind_some, readOutputLoop, if_neg hreads,
          Option.map_some]
      have hquiet : Quiet s (.oldReader .badFd) := ⟨by decide, by decide⟩
      exact ⟨_, _, .snoc (a := ThreadsAction.joined) (.single hquiet hleave) trivial (hjoin _ rfl),
        rfl⟩

/-- The first task writes, is read, and ends. The next one is started while the thread sleeps. -/
def secondTask : List ThreadsAction :=
  [.start .ok, .joined, .write "a".toList, .reader (.event true), .reader .none, .reader (.data 1),
    .reader .none, .terminate (.exited 0), .isRunning 1, .exitCode 1, .start .ok]

theorem secondTask_runs : (script (step 4096 1024) Quiet fresh secondTask).isSome := by
  decide +kernel

def secondTaskRun : List (ThreadsAction × ThreadsOutput) × ReaderThreads :=
  (script (step 4096 1024) Quiet fresh secondTask).get secondTask_runs

theorem secondTask_sleeps : secondTaskRun.2.joining = some .sleep := by
  decide +kernel

theorem start_returns_iff_secondTask :
    (∃ es' t, Run (step 4096 1024) Quiet secondTaskRun.2 es' t ∧ t.joining = none) ↔
      ReaderPc.sleep = .returned ∨
        (ReaderPc.sleep = .read ∧ secondTaskRun.2.eventsFd ≠ secondTaskRun.2.proc.mMasterFD) :=
  start_returns_iff (.of_script secondTask_runs) secondTask_sleeps

/-- The `start` of the second task does not return. -/
theorem secondTask_hangs (h : Run (step 4096 1024) Quiet secondTaskRun.2 es t) :
    t.joining ≠ none := by
  have hopened : Opened secondTaskRun.2 := run_opened (.of_script secondTask_runs)
  obtain ⟨pc, hjoining, -⟩ := run_hangs h hopened ⟨.sleep, secondTask_sleeps, nofun, nofun⟩
  rw [hjoining]
  exact Option.some_ne_none pc

end ReaderThreads

end SimpleTaskQueue
