import SimpleTaskQueue.Model.Proc.Host
import SimpleTaskQueue.Model.Proc.OutputBuffer
/-!
# SimpleTaskQueue.Model.Proc.TaskOutput

The tasks run one after the other on one process object, and the chunks in its `m_deque`. Every
chunk carries the number of the task whose child wrote it, counted in calls of `start`; no function
looks at it.

A call of `start` and its return are two steps: in between the reader thread of the task before may
still push, and `start` returns 0 only after it has joined it. From then on there is one reader
thread, and it reads from the new child. `m_deque` is cleared by `init` and by nothing else.
-/

namespace SimpleTaskQueue

open Runs

/-- A server with one object of a class that implements `IProc`. -/
structure ProcHost where
  {σ ε π κ ν : Type}
  fresh : σ
  step : Machine σ (ProcAction ε π κ) (ProcOutput ν)

def IProc.host : IProc → ProcHost
  | linuxProc => ⟨LinuxHost.fresh, LinuxHost.step⟩
  | winProc => ⟨WinHost.fresh, WinHost.step⟩

/-- A chunk, with the number of the task that it comes from. -/
abbrev Chunk := Nat × Str

inductive StartPhase
  | idle
  /-- `start` is about to return `rc`. -/
  | starting (rc : Nat)
  /-- `start` returned 0. -/
  | serving
  deriving Repr, DecidableEq

structure TaskOutput (p : IProc) where
  host : p.host.σ
  mDeque : List Chunk
  /-- The calls of `start` so far. -/
  starts : Nat
  phase : StartPhase

inductive TaskAction (p : IProc)
  | init
  | start (env : p.host.ε)
  /-- The running call of `start` returns. -/
  | returned
  /-- Another call on the object, or a child ends. -/
  | call (a : ProcAction p.host.ε p.host.π p.host.κ)
  /-- The reader thread pushes a chunk. -/
  | push (chunk : Chunk)
  | readCurrentOutput

inductive TaskReport
  | silent
  | returned (rc : Nat)
  | chunks (out : List Chunk)
  deriving Repr, DecidableEq

namespace TaskOutput

variable {p : IProc}

def fresh : TaskOutput p := ⟨p.host.fresh, [], 0, .idle⟩

/-- The tasks whose output a reader thread may have at hand. -/
def Readable (s : TaskOutput p) (task : Nat) : Prop :=
  if s.phase = .serving then task = s.starts else 1 ≤ task ∧ task ≤ s.starts

instance (s : TaskOutput p) (task : Nat) : Decidable (s.Readable task) :=
  inferInstanceAs (Decidable (if s.phase = .serving then task = s.starts else 1 ≤ task ∧ _))

/-- No call of `start` is under way. -/
def Free (s : TaskOutput p) : Prop := s.phase = .idle ∨ s.phase = .serving

instance (s : TaskOutput p) : Decidable s.Free := inferInstanceAs (Decidable (_ ∨ _))

/-- **The machine.** -/
def step (max : Nat) (s : TaskOutput p) : TaskAction p → Option (TaskReport × TaskOutput p)
  | .init =>
    if s.Free then
      (p.host.step s.host .init).map fun r => (.silent, { s with host := r.2, mDeque := [] })
    else none
  | .start env =>
    if s.Free then
      match p.host.step s.host (.start env) with
      | some (.code rc, host) =>
        some (.silent, { s with host := host, starts := s.starts + 1, phase := .starting rc })
      | _ => none
    else none
  | .returned =>
    match s.phase with
    | .starting rc =>
      some (.returned rc, { s with phase := if rc = 0 then .serving else .idle })
    | _ => none
  | .call (.start _) | .call .init => none
  | .call a => (p.host.step s.host a).map fun r => (.silent, { s with host := r.2 })
  | .push chunk =>
    if s.Readable chunk.1 then
      some (.silent, { s with mDeque := pushChunk max s.mDeque chunk })
    else none
  | .readCurrentOutput =>
    let (out, mDeque) := p.readCurrentOutput s.mDeque
    some (.chunks out, { s with mDeque := mDeque })

end TaskOutput

end SimpleTaskQueue
