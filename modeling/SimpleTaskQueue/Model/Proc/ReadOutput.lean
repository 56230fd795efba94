import SimpleTaskQueue.Core.Runs
import SimpleTaskQueue.Model.Proc.LinuxProc
import SimpleTaskQueue.Model.Proc.OutputBuffer
/-!
# SimpleTaskQueue.Model.Proc.ReadOutput

`LinuxProc::readOutputLoop`, and whom it meets: the child, which writes to its terminal and ends;
the worker, which polls `isRunning`; the clients of `readCurrentOutput`. Every system call of the
loop is a step, and what it answers is part of the action, so that the others can come between
any two of them. A call that was made before the descriptors were closed may still time out or be
interrupted afterwards.

There is one reader thread. The terminal is the text nobody has read yet; it ends (`eof`) only when
the child has ended and nothing is left.
-/

namespace SimpleTaskQueue

open Processes Runs

/-- Where `readOutputLoop` is. -/
inductive ReaderPc
  /-- Before `epoll_wait`. -/
  | wait
  /-- At the test of the one event there is; `epollin` is its bit `EPOLLIN`. -/
  | event (epollin : Bool)
  /-- Before `read`. -/
  | read
  /-- `buf` is filled, and `m_mutex` not yet taken. -/
  | push (buf : Str)
  | sleep
  | returned
  deriving Repr, DecidableEq

/-- A process object, its reader thread and its terminal, and the children of the server. -/
structure OutputReader where
  proc : LinuxProc
  children : Children
  /-- `m_event.data.fd`. -/
  dataFd : Int
  unread : Str
  mDeque : List Str
  pc : ReaderPc
  deriving Repr, DecidableEq

/-- What the next system call of the reader answers. -/
inductive Answer
  /-- `EBADF`, of either call. -/
  | badFd
  /-- `epoll_wait` meets a signal. -/
  | interrupted
  | timeout
  | event (epollin : Bool)
  | data (n : Nat)
  /-- `EINTR`, `EAGAIN` or `EIO`, of `read`. -/
  | again
  | eof
  /-- There is no call in this step. -/
  | none
  deriving Repr, DecidableEq

inductive ReaderAction
  /-- The child writes. -/
  | write (text : Str)
  /-- The child ends. -/
  | terminate (t : Termination)
  | isRunning (pick : Int)
  | readCurrentOutput
  /-- A step of `readOutputLoop`. -/
  | reader (answer : Answer)
  deriving Repr, DecidableEq

inductive ReaderOutput
  | silent
  | polled (running : Bool)
  | delivered (out : List Str)
  /-- The reader pushed a chunk. -/
  | pushed (buf : Str)
  /-- The reader left `readOutputLoop`. -/
  | returned
  deriving Repr, DecidableEq

namespace OutputReader

/-- The child of the last `start` lives. -/
def Live (s : OutputReader) : Prop := s.children.get s.proc.mPid = some .live

instance (s : OutputReader) : Decidable s.Live := inferInstanceAs (Decidable (_ = _))

/-- The reader goes on at `pc`. -/
def goto (s : OutputReader) (pc : ReaderPc) : Option (ReaderOutput × OutputReader) :=
  some (.silent, { s with pc })

/-- The reader leaves the loop. -/
def leave (s : OutputReader) : Option (ReaderOutput × OutputReader) :=
  some (.returned, { s with pc := .returned })

/-- `LinuxProc::readOutputLoop`, one step; `size` is `STQ_READ_BUFFER_SIZE` and `max` is
`STQ_MAX_READ_QUEUE_SIZE`. -/
def readOutputLoop (size max : Nat) (s : OutputReader) :
    ReaderPc → Answer → Option (ReaderOutput × OutputReader)
  | .wait, .badFd => if s.proc.mEpollFd = -1 then s.leave else none
  | .wait, .interrupted => s.leave
  | .wait, .timeout => s.goto .sleep
  | .wait, .event epollin => if s.proc.mEpollFd ≠ -1 then s.goto (.event epollin) else none
  | .event epollin, .none =>
    if s.dataFd = s.proc.mMasterFD ∧ epollin then s.goto .read else s.goto .sleep
  | .read, .badFd => if s.proc.mMasterFD = -1 then s.leave else none
  | .read, .again => if s.proc.mMasterFD ≠ -1 then s.goto .read else none
  | .read, .eof => if s.proc.mMasterFD ≠ -1 ∧ s.unread = [] ∧ ¬ s.Live then s.leave else none
  | .read, .data n =>
    if s.proc.mMasterFD ≠ -1 ∧ 0 < n ∧ n ≤ size ∧ n ≤ s.unread.length then
      { s with unread := s.unread.drop n }.goto (.push (s.unread.take n))
    else none
  | .push buf, .none =>
    some (.pushed buf, { s with mDeque := pushChunk max s.mDeque buf, pc := .sleep })
  | .sleep, .none => s.goto .wait
  | _, _ => none

/-- One step of anybody. -/
def step (size max : Nat) : Machine OutputReader ReaderAction ReaderOutput
  | s, .write text => if s.Live then some (.silent, { s with unread := s.unread ++ text }) else none
  | s, .terminate t =>
    (s.children.terminate s.proc.mPid t).map fun k => (.silent, { s with children := k })
  | s, .isRunning pick =>
    let (running, p, k) := s.proc.isRunning pick s.children
    some (.polled running, { s with proc := p, children := k })
  | s, .readCurrentOutput =>
    let (out, mDeque) := LinuxProc.readCurrentOutput s.mDeque
    some (.delivered out, { s with mDeque })
  | s, .reader answer => s.readOutputLoop size max s.pc answer

/-- `LinuxProc::start` has just returned 0. -/
def begin (p : LinuxProc) (k : Children) (mDeque : List Str) : OutputReader where
  proc := p
  children := k
  dataFd := p.mMasterFD
  unread := []
  mDeque := mDeque
  pc := .wait

end OutputReader

end SimpleTaskQueue
