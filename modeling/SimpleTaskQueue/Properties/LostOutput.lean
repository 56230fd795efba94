import SimpleTaskQueue.Refinement.ReadOutput
/-!
# SimpleTaskQueue.Properties.LostOutput

**Does the reader read all that the child wrote?** Not if `isRunning` finds the child ended first:
it closes the descriptors at once, whatever the terminal still holds, and the next system call of
the reader fails. `WinProc::isRunning` waits for its reader thread there.

The books of the reader leave one thing to watch: the terminal at the moment the reader leaves its
loop.
-/

namespace SimpleTaskQueue

open Processes Runs

namespace OutputReader

variable {size max : Nat} {s t u : OutputReader} {a : ReaderAction} {o : ReaderOutput}
  {es : List ReaderEvent}

/-- The step keeps the terminal readable as long as there is something to read: no poll finds the
child ended, and no signal interrupts `epoll_wait`, before all is read. -/
def KeepsOutput (s : OutputReader) : ReaderAction → Prop
  | .isRunning _ => s.Live ∨ s.unread = []
  | .reader .interrupted => s.unread = []
  | _ => True

theorem keepsOutput_of_read (h : s.unread = []) (a : ReaderAction) : KeepsOutput s a := by
  unfold KeepsOutput
  split
  · exact .inr h
  · exact h
  · trivial

/-- A terminal that nobody can read from any more is empty. -/
def Drained (s : OutputReader) : Prop := s.proc.mMasterFD = -1 → s.unread = []

/-- **Step lemma.** -/
theorem ReaderStep.drained (h : ReaderStep size max s a o u) (hw : Watch s) (hd : Drained s)
    (hkeeps : KeepsOutput s a) : Drained u := by
  intro hclosed
  cases h with
  | write hlive => exact absurd hclosed (hw.open_of_live hlive)
  | isRunning hrun =>
      obtain ⟨-, hopen, -⟩ := hw.isRunning hrun
      rcases hkeeps with hlive | hread
      · exact absurd hclosed (hopen hlive)
      · exact hread
  | read _ hopen => exact absurd hclosed hopen
  | terminate | readCurrentOutput | goto | push | leave => exact hd hclosed

/-- Something is left in the terminal, and nobody will read it. -/
def Lost (s : OutputReader) : Prop :=
  s.unread ≠ [] ∧ (s.pc = .returned ∨ s.proc.mMasterFD = -1)

theorem ReaderStep.lost_of_not_keeps (h : ReaderStep size max s a o u) (hw : Watch s)
    (hkeeps : ¬ KeepsOutput s a) : Lost u := by
  cases h with
  | isRunning hrun =>
      obtain ⟨-, -, hclosed⟩ := hw.isRunning hrun
      obtain ⟨hdead, hunread⟩ := not_or.mp hkeeps
      exact ⟨hunread, .inr (hclosed hdead)⟩
  | @leave answer =>
      cases answer with
      | interrupted => exact ⟨hkeeps, .inl rfl⟩
      | badFd | timeout | event | data | again | eof | none => exact absurd trivial hkeeps
  | @goto answer _ hanswer =>
      cases answer with
      | interrupted => exact absurd rfl hanswer
      | badFd | timeout | event | data | again | eof | none => exact absurd trivial hkeeps
  | write | terminate | readCurrentOutput | read | push => exact absurd trivial hkeeps

theorem ReaderStep.lost (h : ReaderStep size max s a o u) (hw : Watch s) (hl : Lost s) :
    Lost u := by
  obtain ⟨hunread, hwhy⟩ := hl
  cases h with
  | write => exact ⟨fun hnil => hunread (List.append_eq_nil_iff.mp hnil).1, hwhy⟩
  | isRunning hrun =>
      obtain ⟨-, -, hclosed⟩ := hw.isRunning hrun
      refine ⟨hunread, hwhy.imp_right fun hmaster => hclosed fun hlive => ?_⟩
      exact hw.open_of_live hlive hmaster
  | read hpc hopen =>
      rcases hwhy with hpc' | hmaster
      · cases hpc.symm.trans hpc'
      · exact absurd hmaster hopen
  | goto _ hpc => exact ⟨hunread, .inr (hwhy.resolve_left hpc)⟩
  | push hpc =>
      refine ⟨hunread, .inr (hwhy.resolve_left fun hpc' => ?_)⟩
      cases hpc.symm.trans hpc'
  | leave => exact ⟨hunread, .inl rfl⟩
  | terminate | readCurrentOutput => exact ⟨hunread, hwhy⟩

/-- **Run lemma.** Either every step kept the output, or some of it is lost. -/
theorem run_keeps_or_lost (h : Run (step size max) anyAction s es t) (hw : Watch s) :
    Run (step size max) KeepsOutput s es t ∨ Lost t := by
  induction h with
  | nil => exact .inl .nil
  | @snoc es t u a o h _ hs ih =>
      have hwt : Watch t := run_watch h hw
      have hstep : ReaderStep size max t a o u := .of_step hs
      rcases ih with hrun | hl
      · by_cases hkeeps : KeepsOutput t a
        · exact .inl (.snoc hrun hkeeps hs)
        · exact .inr (hstep.lost_of_not_keeps hwt hkeeps)
      · exact .inr (hstep.lost hwt hl)

/-- The reader of a run that kept the output leaves an empty terminal. -/
theorem read_of_keeps (h : Run (step size max) KeepsOutput s (es ++ [(a, .returned)]) t)
    (hw : Watch s) (hd : Drained s) :
    ∃ v, Run (step size max) KeepsOutput s es v ∧ v.unread = [] := by
  obtain ⟨v, hv, hkeeps, hs⟩ := h.snoc_inv
  have hinv : Watch v ∧ Drained v := by
    refine hv.invariant (I := fun v => Watch v ∧ Drained v) ⟨hw, hd⟩ fun _ _ _ _ hi hkeeps hs => ?_
    have hstep := ReaderStep.of_step hs
    exact ⟨hstep.watch hi.1, hstep.drained hi.1 hi.2 hkeeps⟩
  refine ⟨v, hv, ?_⟩
  cases ReaderStep.of_step hs with
  | leave _ _ hwhy =>
      rcases hwhy with hepoll | hmaster | hread | rfl
      · exact hinv.2 (hinv.1.master_of_epoll hepoll)
      · exact hinv.2 hmaster
      · exact hread
      · exact hkeeps

/-- **No output is thrown away unread**, if and only if no step gives it up. In every run from a
successful `start` to the return of the reader, the reader has pushed all that the child wrote if
and only if in every step the terminal was kept readable: `isRunning` found the child alive, or
nothing was left to read; and no signal interrupted `epoll_wait` while something was left. -/
theorem all_pushed_iff {p₀ p : LinuxProc} {k₀ k : Children} {env : StartEnv} {mDeque : List Str}
    (hstart : p₀.start env k₀ = (0, p, k))
    (hfds : env.forkpty ≠ some (-1) ∧ env.epollCreate ≠ some (-1))
    (h : Run (step size max) anyAction (begin p k mDeque) (es ++ [(a, .returned)]) t) :
    pushedText es = written es ↔
      Run (step size max) KeepsOutput (begin p k mDeque) (es ++ [(a, .returned)]) t := by
  have hw : Watch (begin p k mDeque) := watch_begin hstart hfds mDeque
  obtain ⟨v, hv, -, hs⟩ := h.snoc_inv
  have hbooks : written es = pushedText es ++ v.unread := by
    have hb : written es = pushedText es ++ v.pc.held ++ v.unread := run_books hv rfl rfl
    cases ReaderStep.of_step hs with
    | leave _ hheld => rwa [hheld, List.append_nil] at hb
  have hread : pushedText es = written es ↔ v.unread = [] := by
    rw [hbooks, List.self_eq_append_right]
  rw [hread]
  constructor
  · intro hnil
    have hkeeps : Run (step size max) KeepsOutput (begin p k mDeque) es v :=
      (run_keeps_or_lost hv hw).resolve_right fun hl => hl.1 hnil
    exact .snoc hkeeps (keepsOutput_of_read hnil a) hs
  · intro hkeeps
    obtain ⟨v', hv', hnil⟩ := read_of_keeps hkeeps hw fun _ => rfl
    rwa [hv.det hv']

/-- The first task of a process object. -/
def started : OutputReader :=
  begin (LinuxProc.init.start .ok .none).2.1 (LinuxProc.init.start .ok .none).2.2 []

/-- The child writes two characters and ends; the reader has a buffer for one. -/
def readOut : List ReaderAction :=
  [.write "ab".toList, .reader (.event true), .reader .none, .reader (.data 1), .reader .none,
    .terminate (.exited 0), .reader .none, .reader (.event true), .reader .none, .reader (.data 1),
    .reader .none, .isRunning 1, .reader .none]

theorem readOut_runs : (script (step 1 1) anyAction started readOut).isSome := by
  decide +kernel

def readOutEnd : List ReaderEvent × OutputReader :=
  (script (step 1 1) anyAction started readOut).get readOut_runs

theorem started_start :
    LinuxProc.init.start .ok .none = (0, started.proc, started.children) := by
  decide

theorem all_pushed_iff_readOut :
    pushedText readOutEnd.1 = written readOutEnd.1 ↔
      Run (step 1 1) KeepsOutput started (readOutEnd.1 ++ [(.reader .badFd, .returned)])
        { readOutEnd.2 with pc := .returned } :=
  all_pushed_iff started_start ⟨by decide, by decide⟩
    (.snoc (.of_script readOut_runs) trivial (by decide +kernel))

/-- The child writes and ends before the reader looks. -/
def endsEarly : List ReaderAction := [.write "a".toList, .terminate (.exited 0), .isRunning 1]

theorem endsEarly_runs : (script (step 4096 1024) anyAction started endsEarly).isSome := by
  decide +kernel

/-- **The reader leaves with the output unread**: the poll has closed the descriptors. -/
theorem output_thrown_away :
    ∃ es t, LinuxProc.init.start .ok .none = (0, started.proc, started.children) ∧
      Run (step 4096 1024) anyAction started (es ++ [(.reader .badFd, .returned)]) t ∧
      written es = "a".toList ∧ pushedText es = [] ∧ t.mDeque = [] := by
  let r := (script (step 4096 1024) anyAction started endsEarly).get endsEarly_runs
  have hrun : Run (step 4096 1024) anyAction started r.1 r.2 := .of_script endsEarly_runs
  have hs : step 4096 1024 r.2 (.reader .badFd) =
      some (.returned, { r.2 with pc := .returned }) := by
    decide +kernel
  exact ⟨r.1, _, started_start, .snoc hrun trivial hs, by decide +kernel, by decide +kernel,
    by decide +kernel⟩

end OutputReader

end SimpleTaskQueue
