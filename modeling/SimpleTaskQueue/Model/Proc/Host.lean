import SimpleTaskQueue.Core.Runs
import SimpleTaskQueue.Model.Proc.LinuxProc
import SimpleTaskQueue.Model.Proc.WinProc
/-!
# SimpleTaskQueue.Model.Proc.Host

A server process with one process object, `LinuxProc` or `WinProc`: the calls of the interface
`IProc` (`model/proc/iproc.hpp`) in any order, and between them the children, which end by
themselves.
-/

namespace SimpleTaskQueue

open Processes Runs

/-- The calls on a process object, with what the system answers: `ε` to `start`, `π` to a poll. -/
inductive ProcAction (ε π κ : Type)
  | init
  | start (env : ε)
  | stop
  | isRunning (pick : π)
  | exitCode (pick : π)
  /-- A child ends; `κ` says which one, and how. -/
  | ends (child : κ)
  deriving Repr, DecidableEq

/-- What a call returns; `ν` is the type of exit codes. -/
inductive ProcOutput (ν : Type)
  | silent
  /-- `init` and `start`: 0 or 1. -/
  | code (rc : Nat)
  | running (b : Bool)
  /-- `exitCode`: `none` is an error, 1. -/
  | exitCode (out : Option ν)
  deriving Repr, DecidableEq

/-- The object and the children of the server. -/
structure LinuxHost where
  proc : LinuxProc
  children : Children
  deriving Repr, DecidableEq

abbrev LinuxAction := ProcAction StartEnv Int (Int × Termination)

namespace LinuxHost

/-- A new object. -/
def fresh : LinuxHost := ⟨LinuxProc.init, Children.none⟩

def step : Machine LinuxHost LinuxAction (ProcOutput Int)
  | s, .init => some (.code 0, { s with proc := { s.proc with mExitCode := 0 } })
  | s, .start env =>
    let (rc, p, k) := s.proc.start env s.children
    some (.code rc, ⟨p, k⟩)
  | s, .stop => some (.silent, { s with children := s.proc.stopImpl s.children })
  | s, .isRunning pick =>
    let (b, p, k) := s.proc.isRunning pick s.children
    some (.running b, ⟨p, k⟩)
  | s, .exitCode pick =>
    let (n, p, k) := s.proc.exitCode pick s.children
    some (.exitCode n, ⟨p, k⟩)
  | s, .ends (pid, t) =>
    (s.children.terminate pid t).map fun k => (.silent, { s with children := k })

end LinuxHost

structure WinHost where
  proc : WinProc
  children : WinChildren
  deriving Repr, DecidableEq

abbrev WinAction := ProcAction (WinStartEnv × Task) Unit (Nat × DWord)

namespace WinHost

def fresh : WinHost := ⟨WinProc.new, []⟩

def step : Machine WinHost WinAction (ProcOutput DWord)
  | s, .init =>
    let (p, k) := s.proc.init s.children
    some (.code 0, ⟨p, k⟩)
  | s, .start (env, task) =>
    let (rc, p, k) := s.proc.start env task s.children
    some (.code rc, ⟨p, k⟩)
  | s, .stop =>
    let (p, k) := s.proc.stopImpl s.children
    some (.silent, ⟨p, k⟩)
  | s, .isRunning () =>
    let (b, p) := s.proc.isRunning s.children
    some (.running b, { s with proc := p })
  | s, .exitCode () =>
    let (n, p) := s.proc.exitCode s.children
    some (.exitCode n, { s with proc := p })
  | s, .ends (i, code) => (s.children.ends i code).map fun k => (.silent, { s with children := k })

end WinHost

end SimpleTaskQueue
