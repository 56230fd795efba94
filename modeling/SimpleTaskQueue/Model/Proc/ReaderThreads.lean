import SimpleTaskQueue.Model.Proc.ReadOutput
/-!
# SimpleTaskQueue.Model.Proc.ReaderThreads

`LinuxProc` with its **reader threads**, over any number of tasks. `start` assigns a new thread to
`m_thread`: the new one runs at once, and the assignment waits for the one before. So there are two
of them in `readOutputLoop` until the old one has left it, and both read the members of the one
object: `m_epoll_fd`, `m_masterFD`, and `m_events`, in which either may overwrite what the other has
got.

* The calls of `start`, `isRunning` and `exitCode` come from one worker thread. While it waits in
  `start` it makes no others.
* A number that is not that of the terminal is closed, or is that of the epoll instance; `read`
  fails for both, and the reader leaves the loop (`badFd`).
* `m_event.data.fd` is kept as of the last `start` that returned 0, or is about to: behind one that
  failed there is no epoll instance.
-/

namespace SimpleTaskQueue

open Processes Runs

/-- A process object, its reader threads and its terminal, and the children of the server. -/
structure ReaderThreads where
  proc : LinuxProc
  children : Children
  /-- `m_event.data.fd`. -/
  dataFd : Int
  /-- `m_events[0].data.fd`. -/
  eventsFd : Int
  /-- What nobody has read yet from the terminal of the last child. -/
  unread : Str
  mDeque : List Str
  /-- The thread in `m_thread`; `returned` if there is none. -/
  mThread : ReaderPc
  /-- The thread that `start` waits for. -/
  joining : Option ReaderPc
  deriving Repr, DecidableEq

inductive ThreadsAction
  /-- The child writes. -/
  | write (text : Str)
  /-- The child ends. -/
  | terminate (t : Termination)
  | start (env : StartEnv)
  /-- The thread that `start` waits for has ended, and `start` returns. -/
  | joined
  | stop
  | isRunning (pick : Int)
  | exitCode (pick : Int)
  | readCurrentOutput
  /-- A step of the thread in `m_thread`. -/
  | reader (answer : Answer)
  /-- A step of the thread that `start` waits for. -/
  | oldReader (answer : Answer)
  deriving Repr, DecidableEq

inductive ThreadsOutput
  | silent
  /-- `start` returned. -/
  | code (rc : Nat)
  | running (b : Bool)
  | exitCode (out : Option Int)
  | delivered (out : List Str)
  | pushed (buf : Str)
  deriving Repr, DecidableEq

namespace ReaderThreads

variable (s : ReaderThreads)

/-- A new object. -/
def fresh : ReaderThreads := ⟨LinuxProc.init, Children.none, 0, 0, [], [], .returned, none⟩

/-- The child of the last `start` lives. -/
def Live : Prop := s.children.get s.proc.mPid = some .live

instance : Decidable s.Live := inferInstanceAs (Decidable (_ = _))

/-- `m_events[0].data.fd` is the number of the open terminal. -/
def Reads : Prop := s.eventsFd = s.proc.mMasterFD ∧ s.proc.mMasterFD ≠ -1

instance : Decidable s.Reads := inferInstanceAs (Decidable (_ ∧ _))

/-- `LinuxProc::readOutputLoop`, one step of a thread; `size` is `STQ_READ_BUFFER_SIZE` and `max` is
`STQ_MAX_READ_QUEUE_SIZE`. -/
def readOutputLoop (size max : Nat) :
    ReaderPc → Answer → Option (ThreadsOutput × ReaderThreads × ReaderPc)
  | .wait, .badFd => if s.proc.mEpollFd = -1 then some (.silent, s, .returned) else none
  | .wait, .interrupted => some (.silent, s, .returned)
  | .wait, .timeout => some (.silent, s, .sleep)
  | .wait, .event epollin =>
    if s.proc.mEpollFd ≠ -1 then some (.silent, { s with eventsFd := s.dataFd }, .event epollin)
    else none
  | .event epollin, .none =>
    some (.silent, s, if s.eventsFd = s.proc.mMasterFD ∧ epollin then .read else .sleep)
  | .read, .badFd => if s.Reads then none else some (.silent, s, .returned)
  | .read, .again => if s.Reads then some (.silent, s, .read) else none
  | .read, .eof =>
    if s.Reads ∧ s.unread = [] ∧ ¬ s.Live then some (.silent, s, .returned) else none
  | .read, .data n =>
    if s.Reads ∧ 0 < n ∧ n ≤ size ∧ n ≤ s.unread.length then
      some (.silent, { s with unread := s.unread.drop n }, .push (s.unread.take n))
    else none
  | .push buf, .none =>
    some (.pushed buf, { s with mDeque := pushChunk max s.mDeque buf }, .sleep)
  | .sleep, .none => some (.silent, s, .wait)
  | _, _ => none

/-- `LinuxProc::start` up to the assignment to `m_thread`; a new child has a new terminal. -/
def start (env : StartEnv) : ThreadsOutput × ReaderThreads :=
  let (rc, p, k) := s.proc.start env s.children
  let s' := { s with
    proc := p, children := k, unread := if p.mPid = s.proc.mPid then s.unread else [] }
  if rc ≠ 0 then (.code rc, s')
  else
    (.silent, { s' with dataFd := p.mMasterFD, mThread := .wait, joining := some s.mThread })

/-- One step of anybody. -/
def step (size max : Nat) : Machine ReaderThreads ThreadsAction ThreadsOutput
  | s, .write text => if s.Live then some (.silent, { s with unread := s.unread ++ text }) else none
  | s, .terminate t =>
    (s.children.terminate s.proc.mPid t).map fun k => (.silent, { s with children := k })
  | s, .start env => if s.joining = none then some (s.start env) else none
  | s, .joined =>
    if s.joining = some .returned then some (.code 0, { s with joining := none }) else none
  | s, .stop => some (.silent, { s with children := s.proc.stopImpl s.children })
  | s, .isRunning pick =>
    let (b, p, k) := s.proc.isRunning pick s.children
    if s.joining = none then some (.running b, { s with proc := p, children := k }) else none
  | s, .exitCode pick =>
    let (n, p, k) := s.proc.exitCode pick s.children
    if s.joining = none then some (.exitCode n, { s with proc := p, children := k }) else none
  | s, .readCurrentOutput =>
    let (out, mDeque) := LinuxProc.readCurrentOutput s.mDeque
    some (.delivered out, { s with mDeque })
  | s, .reader answer =>
    (s.readOutputLoop size max s.mThread answer).map fun r =>
      (r.1, { r.2.1 with mThread := r.2.2 })
  | s, .oldReader answer =>
    s.joining.bind fun pc => (s.readOutputLoop size max pc answer).map fun r =>
      (r.1, { r.2.1 with joining := some r.2.2 })

end ReaderThreads

end SimpleTaskQueue
