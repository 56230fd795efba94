import SimpleTaskQueue.Model.Proc.ReadOutput
import SimpleTaskQueue.Refinement.LinuxQueue
/-!
# SimpleTaskQueue.Refinement.ReadOutput

What holds in every run of the reader thread and those around it. Its books are kept (`run_books`):
what the child wrote is what was pushed, what the reader holds, and what the terminal holds. The
buffer is the one of the pushes and the calls of `readCurrentOutput` alone (`run_buffer`). And the
descriptors are open as long as nobody collected the child (`run_watch`).
-/

namespace SimpleTaskQueue

open Processes Runs
open LinuxQueue (isRunning_of_get start_eq_zero)

/-- An event of the reader and those around it. -/
abbrev ReaderEvent := ReaderAction × ReaderOutput

/-- What the child writes in a step. -/
def ReaderAction.text : ReaderAction → Str
  | .write text => text
  | _ => []

/-- What the reader pushes to `m_deque` in a step. -/
def ReaderOutput.text : ReaderOutput → Str
  | .pushed buf => buf
  | _ => []

/-- What the child wrote. -/
def written (es : List ReaderEvent) : Str := es.flatMap fun e => e.1.text

/-- What the reader pushed to `m_deque`. -/
def pushedText (es : List ReaderEvent) : Str := es.flatMap fun e => e.2.text

theorem written_snoc (es : List ReaderEvent) (a : ReaderAction) (o : ReaderOutput) :
    written (es ++ [(a, o)]) = written es ++ a.text := by
  simp [written]

theorem pushedText_snoc (es : List ReaderEvent) (a : ReaderAction) (o : ReaderOutput) :
    pushedText (es ++ [(a, o)]) = pushedText es ++ o.text := by
  simp [pushedText]

/-- What the reader holds in `buf`. -/
def ReaderPc.held : ReaderPc → Str
  | .push buf => buf
  | _ => []

namespace OutputReader

variable {size max : Nat} {s t u : OutputReader} {a : ReaderAction} {o : ReaderOutput}
  {es : List ReaderEvent}

/-- What a step does. -/
inductive ReaderStep (size max : Nat) (s : OutputReader) :
    ReaderAction → ReaderOutput → OutputReader → Prop
  | write {text : Str} (hlive : s.Live) :
      ReaderStep size max s (.write text) .silent { s with unread := s.unread ++ text }
  | terminate {t : Termination} (hlive : s.Live) :
      ReaderStep size max s (.terminate t) .silent
        { s with children := s.children.set s.proc.mPid (.zombie t.status) }
  | isRunning {pick : Int} {b : Bool} {p : LinuxProc} {k : Children}
      (hrun : s.proc.isRunning pick s.children = (b, p, k)) :
      ReaderStep size max s (.isRunning pick) (.polled b) { s with proc := p, children := k }
  | readCurrentOutput {out mDeque : List Str}
      (hout : LinuxProc.readCurrentOutput s.mDeque = (out, mDeque)) :
      ReaderStep size max s .readCurrentOutput (.delivered out) { s with mDeque }
  /-- The reader goes on, with nothing in its hands before or after. -/
  | goto {answer : Answer} {pc : ReaderPc} (hanswer : answer ≠ .interrupted)
      (hpc : s.pc ≠ .returned) (hheld : s.pc.held = []) (hheld' : pc.held = []) :
      ReaderStep size max s (.reader answer) .silent { s with pc }
  | read {n : Nat} (hpc : s.pc = .read) (hopen : s.proc.mMasterFD ≠ -1)
      (hn : 0 < n ∧ n ≤ size ∧ n ≤ s.unread.length) :
      ReaderStep size max s (.reader (.data n)) .silent
        { s with unread := s.unread.drop n, pc := .push (s.unread.take n) }
  | push {buf : Str} (hpc : s.pc = .push buf) :
      ReaderStep size max s (.reader .none) (.pushed buf)
        { s with mDeque := pushChunk max s.mDeque buf, pc := .sleep }
  | leave {answer : Answer} (hpc : s.pc ≠ .returned) (hheld : s.pc.held = [])
      (hwhy : s.proc.mEpollFd = -1 ∨ s.proc.mMasterFD = -1 ∨ s.unread = [] ∨
        answer = .interrupted) :
      ReaderStep size max s (.reader answer) .returned { s with pc := .returned }

theorem ReaderStep.of_readOutputLoop {answer : Answer}
    (h : s.readOutputLoop size max s.pc answer = some (o, u)) :
    ReaderStep size max s (.reader answer) o u := by
  generalize hpc : s.pc = pc at h
  have hne : pc ≠ .returned → s.pc ≠ .returned := fun hne => hpc ▸ hne
  have hheld : pc.held = [] → s.pc.held = [] := fun hheld => hpc ▸ hheld
  cases pc with
  | wait =>
      cases answer with
      | badFd =>
          obtain ⟨hfd, h⟩ := Option.ite_none_right_eq_some.mp h
          cases h
          exact .leave (hne nofun) (hheld rfl) (.inl hfd)
      | interrupted =>
          cases h
          exact .leave (hne nofun) (hheld rfl) (.inr (.inr (.inr rfl)))
      | timeout =>
          cases h
          exact .goto nofun (hne nofun) (hheld rfl) rfl
      | event epollin =>
          obtain ⟨-, h⟩ := Option.ite_none_right_eq_some.mp h
          cases h
          exact .goto nofun (hne nofun) (hheld rfl) rfl
      | data | again | eof | none => cases h
  | event epollin =>
      cases answer with
      | none =>
          simp only [readOutputLoop] at h
          split at h <;> cases h <;> exact .goto nofun (hne nofun) (hheld rfl) rfl
      | badFd | interrupted | timeout | event | data | again | eof => cases h
  | read =>
      cases answer with
      | badFd =>
          obtain ⟨hfd, h⟩ := Option.ite_none_right_eq_some.mp h
          cases h
          exact .leave (hne nofun) (hheld rfl) (.inr (.inl hfd))
      | again =>
          obtain ⟨-, h⟩ := Option.ite_none_right_eq_some.mp h
          cases h
          exact .goto nofun (hne nofun) (hheld rfl) rfl
      | eof =>
          obtain ⟨⟨-, hread, -⟩, h⟩ := Option.ite_none_right_eq_some.mp h
          cases h
          exact .leave (hne nofun) (hheld rfl) (.inr (.inr (.inl hread)))
      | data n =>
          obtain ⟨⟨hopen, hn⟩, h⟩ := Option.ite_none_right_eq_some.mp h
          cases h
          exact .read hpc hopen hn
      | interrupted | timeout | event | none => cases h
  | push buf =>
      cases answer with
      | none =>
          cases h
          exact .push hpc
      | badFd | interrupted | timeout | event | data | again | eof => cases h
  | sleep =>
      cases answer with
      | none =>
          cases h
          exact .goto nofun (hne nofun) (hheld rfl) rfl
      | badFd | interrupted | timeout | event | data | again | eof => cases h
  | returned => cases answer <;> cases h

theorem ReaderStep.of_step (h : step size max s a = some (o, u)) :
    ReaderStep size max s a o u := by
  cases a with
  | write text =>
      obtain ⟨hlive, h⟩ := Option.ite_none_right_eq_some.mp h
      cases h
      exact .write hlive
  | terminate t =>
      simp only [step, Children.terminate] at h
      split at h
      · next hlive =>
        cases h
        exact .terminate hlive
      · cases h
  | isRunning pick =>
      cases h
      exact .isRunning rfl
  | readCurrentOutput =>
      cases h
      exact .readCurrentOutput rfl
  | reader answer => exact .of_readOutputLoop h

/-! ### The books of the reader -/

/-- What was written was pushed, or is in the hands of the reader, or in the terminal. -/
def Books (es : List ReaderEvent) (s : OutputReader) : Prop :=
  written es = pushedText es ++ s.pc.held ++ s.unread

/-- **Step lemma.** -/
theorem ReaderStep.books (h : ReaderStep size max s a o u) (hb : Books es s) :
    Books (es ++ [(a, o)]) u := by
  have hb : written es = pushedText es ++ s.pc.held ++ s.unread := hb
  rw [Books, written_snoc, pushedText_snoc, hb]
  cases h with
  | write => simp [ReaderAction.text, ReaderOutput.text]
  | terminate | isRunning | readCurrentOutput => simp [ReaderAction.text, ReaderOutput.text]
  | goto _ _ hheld hheld' => simp [ReaderAction.text, ReaderOutput.text, hheld, hheld']
  | read hpc => simp [ReaderAction.text, ReaderOutput.text, ReaderPc.held, hpc]
  | push hpc => simp [ReaderAction.text, ReaderOutput.text, ReaderPc.held, hpc]
  | leave _ hheld =>
      have hheld' : ReaderPc.held .returned = [] := rfl
      simp [ReaderAction.text, ReaderOutput.text, hheld, hheld']

/-- **Run lemma.** -/
theorem run_books {ok : OutputReader → ReaderAction → Prop} (h : Run (step size max) ok s es t)
    (hheld : s.pc.held = []) (hunread : s.unread = []) : Books es t := by
  induction h with
  | nil => simp [Books, written, pushedText, hheld, hunread]
  | snoc _ _ hs ih => exact (ReaderStep.of_step hs).books ih

/-! ### The buffer -/

/-- What a step does to `m_deque`. -/
def bufferOps : ReaderOutput → List (DropOldest.Op Str)
  | .pushed buf => [.push buf]
  | .delivered _ => [.read]
  | _ => []

/-- What a client gets in a step. -/
def chunks : ReaderOutput → List Str
  | .delivered out => out
  | _ => []

/-- **Refinement.** Clients and buffer are in the state to which the pushes and the calls of
`readCurrentOutput` lead, in their order. -/
theorem run_buffer {ok : OutputReader → ReaderAction → Prop} (h : Run (step size max) ok s es t)
    (hbuffer : s.mDeque = []) :
    IProc.linuxProc.outputRun max (es.flatMap fun e => bufferOps e.2) =
      ⟨es.flatMap fun e => chunks e.2, t.mDeque⟩ := by
  induction h with
  | nil =>
      rw [hbuffer]
      rfl
  | @snoc es t u a o _ _ hs ih =>
      rw [IProc.outputRun] at ih
      rw [IProc.outputRun, List.flatMap_append, List.foldl_append, ih, List.flatMap_append]
      cases ReaderStep.of_step hs with
      | readCurrentOutput hout =>
          simp [bufferOps, chunks, IProc.outputStep, IProc.readCurrentOutput, hout]
      | push => simp [bufferOps, chunks, IProc.outputStep]
      | write | terminate | isRunning | goto | read | leave => simp [bufferOps, chunks]

/-! ### Child and descriptors -/

/-- The child and the descriptors of the object. They are closed when the child is collected. -/
inductive Watch (s : OutputReader) : Prop
  | live (hget : s.children.get s.proc.mPid = some .live) (hepoll : s.proc.mEpollFd ≠ -1)
      (hmaster : s.proc.mMasterFD ≠ -1)
  | zombie {w : Int} (hget : s.children.get s.proc.mPid = some (.zombie w))
      (hepoll : s.proc.mEpollFd ≠ -1) (hmaster : s.proc.mMasterFD ≠ -1)
  | closed (hget : s.children.get s.proc.mPid = some .collected) (hepoll : s.proc.mEpollFd = -1)
      (hmaster : s.proc.mMasterFD = -1)

/-- The three cases of `isRunning`. -/
theorem Watch.isRunning {pick : Int} {b : Bool} {p : LinuxProc} {k : Children} (h : Watch s)
    (hrun : s.proc.isRunning pick s.children = (b, p, k)) :
    Watch { s with proc := p, children := k } ∧
      (s.Live → p.mMasterFD ≠ -1) ∧ (¬ s.Live → p.mMasterFD = -1) := by
  cases h with
  | live hget hepoll hmaster =>
      rw [isRunning_of_get pick hget] at hrun
      cases hrun
      exact ⟨.live hget hepoll hmaster, fun _ => hmaster, fun hdead => absurd hget hdead⟩
  | zombie hget =>
      have hdead : ¬ s.Live := fun hlive => by cases hget.symm.trans hlive
      rw [isRunning_of_get pick hget] at hrun
      cases hrun
      refine ⟨.closed ?_ rfl rfl, fun hlive => absurd hlive hdead, fun _ => rfl⟩
      split <;> exact Children.get_set_self hget _
  | closed hget =>
      have hdead : ¬ s.Live := fun hlive => by cases hget.symm.trans hlive
      rw [isRunning_of_get pick hget] at hrun
      cases hrun
      exact ⟨.closed hget rfl rfl, fun hlive => absurd hlive hdead, fun _ => rfl⟩

/-- **Step lemma.** -/
theorem ReaderStep.watch (h : ReaderStep size max s a o u) (hw : Watch s) : Watch u := by
  cases h with
  | isRunning hrun => exact (hw.isRunning hrun).1
  | terminate hlive =>
      cases hw with
      | live _ hepoll hmaster =>
          exact .zombie (Children.get_set_self hlive _) hepoll hmaster
      | zombie hget | closed hget => cases hget.symm.trans hlive
  | write | readCurrentOutput | goto | read | push | leave =>
      cases hw with
      | live hget hepoll hmaster => exact .live hget hepoll hmaster
      | zombie hget hepoll hmaster => exact .zombie hget hepoll hmaster
      | closed hget hepoll hmaster => exact .closed hget hepoll hmaster

theorem run_watch {ok : OutputReader → ReaderAction → Prop} (h : Run (step size max) ok s es t)
    (hw : Watch s) : Watch t :=
  h.invariant hw fun _ _ _ _ hw _ hs => (ReaderStep.of_step hs).watch hw

theorem Watch.open_of_live (h : Watch s) (hlive : s.Live) : s.proc.mMasterFD ≠ -1 := by
  cases h with
  | live _ _ hmaster => exact hmaster
  | zombie hget | closed hget => cases hget.symm.trans hlive

/-- The descriptors are closed together. -/
theorem Watch.master_of_epoll (h : Watch s) (hepoll : s.proc.mEpollFd = -1) :
    s.proc.mMasterFD = -1 := by
  cases h with
  | live _ hne | zombie _ hne => exact absurd hepoll hne
  | closed _ _ hmaster => exact hmaster

/-- A successful `start` leaves the child alive and the descriptors open. -/
theorem watch_begin {p₀ p : LinuxProc} {k₀ k : Children} {env : StartEnv}
    (hstart : p₀.start env k₀ = (0, p, k))
    (hfds : env.forkpty ≠ some (-1) ∧ env.epollCreate ≠ some (-1)) (mDeque : List Str) :
    Watch (begin p k mDeque) := by
  obtain ⟨-, hget, hfork, hcreate⟩ := start_eq_zero hstart
  refine .live hget (fun hepoll => hfds.2 ?_) fun hmaster => hfds.1 ?_
  · have hepoll : p.mEpollFd = -1 := hepoll
    rw [hcreate, hepoll]
  · have hmaster : p.mMasterFD = -1 := hmaster
    rw [hfork, hmaster]

end OutputReader

end SimpleTaskQueue
