import SimpleTaskQueue.Core.DropOldest
/-!
# SimpleTaskQueue.Model.Proc.OutputBuffer

The output buffer `m_deque` of a process object (`model/proc/linuxproc.cpp`,
`model/proc/winproc.cpp`): the reader thread pushes chunks, clients take them. Both sides hold
`m_mutex` all the while, so a push and a call of `readCurrentOutput` are one step each, in any
order.

Nothing looks into a chunk, so their type is left open; in the source it is `std::string`.
-/

namespace SimpleTaskQueue

open DropOldest

variable {β : Type}

/-- The loop of `readCurrentOutput`, with `index`, `out` and `m_deque`: its bound is the size of the
deque in this round. The result is `out` and `m_deque`. -/
def readLoop : Nat → List β → List β → List β × List β
  | _, out, [] => (out, [])
  | index, out, chunk :: mDeque =>
    if index < mDeque.length + 1 then readLoop (index + 1) (out ++ [chunk]) mDeque
    else (out, chunk :: mDeque)

/-- The body of `readCurrentOutput` in both classes. -/
def readChunks (mDeque : List β) : List β × List β :=
  if mDeque.isEmpty then ([], mDeque) else readLoop 0 [] mDeque

/-- `LinuxProc::readCurrentOutput`: what is left in `out`, and `m_deque` then. -/
def LinuxProc.readCurrentOutput (mDeque : List β) : List β × List β := readChunks mDeque

/-- `WinProc::readCurrentOutput`. -/
def WinProc.readCurrentOutput (mDeque : List β) : List β × List β := readChunks mDeque

/-- The push in `readOutputLoop` of both classes; `max` is `STQ_MAX_READ_QUEUE_SIZE` in `LinuxProc`
and `FF_MAX_READ_QUEUE_SIZE` in `WinProc`. -/
def pushChunk (max : Nat) (mDeque : List β) (buf : β) : List β :=
  let mDeque := if mDeque.length = max then mDeque.tail else mDeque
  mDeque ++ [buf]

/-- The implementations of `IProc`. -/
inductive IProc
  | linuxProc
  | winProc
  deriving Repr, DecidableEq

def IProc.readCurrentOutput : IProc → List β → List β × List β
  | linuxProc => LinuxProc.readCurrentOutput
  | winProc => WinProc.readCurrentOutput

/-- A push by the reader thread, or a call of `readCurrentOutput`. -/
def IProc.outputStep (p : IProc) (max : Nat) (s : State β) : Op β → State β
  | .push buf => { s with buffer := pushChunk max s.buffer buf }
  | .read =>
    let r := p.readCurrentOutput s.buffer
    ⟨s.delivered ++ r.1, r.2⟩

/-- What the clients got so far, and the buffer, after pushes and calls in this order. -/
def IProc.outputRun (p : IProc) (max : Nat) (ops : List (Op β)) : State β :=
  ops.foldl (p.outputStep max) ⟨[], []⟩

end SimpleTaskQueue
