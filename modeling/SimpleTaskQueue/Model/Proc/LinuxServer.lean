import SimpleTaskQueue.Core.ProcessGroups
import SimpleTaskQueue.Model.Proc.Host
/-!
# SimpleTaskQueue.Model.Proc.LinuxServer

A server process with any number of `LinuxProc` objects, which share its children. `waitpid` gets
`m_pid` whatever its value: 0 in a new object, and -1 after a `forkpty` that failed. The methods are
those of `SimpleTaskQueue.Model.Proc.LinuxProc`, cut at the calls of the system (`polled`,
`startPolled`) to run them on these children. `kill` shows only in that a child ends.

An object keeps the pid of its last child in `m_pid` when the status of it was collected. The system
may give it to the child of another object later, and `waitpid` would then wait for that one; here a
pid is not given out again.
-/

namespace SimpleTaskQueue

open Processes Runs

namespace LinuxProc

/-- What `isRunning` does with the answer of `waitpid`. -/
def polled (p : LinuxProc) (ret status : Int) : Bool × LinuxProc :=
  if ret = -1 then (false, p.epollFin)
  else if ret = 0 then (true, p)
  else if wIfExited status || wIfSignaled status then
    (false, { p with mExitCode := status }.epollFin)
  else (false, p.epollFin)

theorem isRunning_eq_polled (p : LinuxProc) (pick : Int) (k : Children) :
    p.isRunning pick k =
      let (ret, status, k) := k.waitpid p.mPid pick
      let (b, p) := p.polled ret status
      (b, p, k) := by
  simp only [isRunning, polled]
  split
  · rfl
  split
  · rfl
  split <;> rfl

/-- What `start` does: its result, the object, and whether a child was created, and killed. -/
structure StartResult where
  rc : Nat
  proc : LinuxProc
  forked : Bool
  killed : Bool

/-- `start` behind its `isRunning`, which answered `running`; a new child gets the pid `pid`. -/
def startPolled (p : LinuxProc) (running : Bool) (env : StartEnv) (pid : Int) : StartResult :=
  if running then ⟨1, p, false, false⟩
  else if env.isAdmin then ⟨1, p, false, false⟩
  else
    let p := { p with mMasterFD := -1, mExitCode := 0 }
    match env.forkpty with
    | none => ⟨1, { p with mPid := -1 }, false, false⟩
    | some fd =>
      let p := { p with mPid := pid, mMasterFD := fd }
      if !env.getFlOk then ⟨1, p, true, true⟩
      else if !env.setFlOk then ⟨1, p, true, true⟩
      else
        let (rc, p) := p.epollInit env
        if rc ≠ 0 then ⟨1, p.epollFin, true, true⟩
        else ⟨0, p, true, false⟩

theorem start_eq_startPolled (p : LinuxProc) (env : StartEnv) (k : Children) :
    p.start env k =
      let (running, p, k) := p.isRunning env.pick k
      let r := p.startPolled running env k.fork.1
      (r.rc, r.proc,
        if r.killed then k.fork.2.kill k.fork.1 else if r.forked then k.fork.2 else k) := by
  simp only [start, startPolled]
  split
  · rfl
  split
  · rfl
  cases env.forkpty with
  | none => rfl
  | some fd =>
      dsimp only
      split
      · rfl
      split
      · rfl
      split <;> rfl

end LinuxProc

structure LinuxServer where
  procs : List LinuxProc
  children : Family
  deriving Repr, DecidableEq

inductive ServerAction
  /-- A new object. -/
  | new
  | start (i : Nat) (env : StartEnv)
  | isRunning (i : Nat) (pick : Nat)
  | exitCode (i : Nat) (pick : Nat)
  /-- The child at position `n` leaves the process group of the server, in `forkpty`. -/
  | setsid (n : Nat)
  | terminate (n : Nat) (t : Termination)
  deriving Repr, DecidableEq

namespace LinuxServer

/-- A server without objects. -/
def fresh : LinuxServer := ⟨[], []⟩

/-- `LinuxProc::isRunning` of the object `i`, which is `p`. -/
def isRunning (s : LinuxServer) (i : Nat) (p : LinuxProc) (pick : Nat) :
    Bool × LinuxProc × Family :=
  let (ret, status, k) := s.children.waitpid i p.mPid pick
  let (b, p) := p.polled ret status
  (b, p, k)

def exitCode (s : LinuxServer) (i : Nat) (p : LinuxProc) (pick : Nat) :
    Option Int × LinuxProc × Family :=
  let (running, p, k) := s.isRunning i p pick
  if running then (none, p, k) else (some p.mExitCode, p, k)

def start (s : LinuxServer) (i : Nat) (p : LinuxProc) (env : StartEnv) :
    Nat × LinuxProc × Family :=
  let (running, p, k) := s.isRunning i p env.pick.toNat
  let (pid, k') := k.fork i
  let r := p.startPolled running env pid
  (r.rc, r.proc, if r.forked then k' else k)

/-- **The machine.** -/
def step : Machine LinuxServer ServerAction (ProcOutput Int)
  | s, .new => some (.silent, { s with procs := s.procs ++ [LinuxProc.init] })
  | s, .start i env => (s.procs[i]?).map fun p =>
    let (rc, p, k) := s.start i p env
    (.code rc, ⟨s.procs.set i p, k⟩)
  | s, .isRunning i pick => (s.procs[i]?).map fun p =>
    let (b, p, k) := s.isRunning i p pick
    (.running b, ⟨s.procs.set i p, k⟩)
  | s, .exitCode i pick => (s.procs[i]?).map fun p =>
    let (n, p, k) := s.exitCode i p pick
    (.exitCode n, ⟨s.procs.set i p, k⟩)
  | s, .setsid n => (s.children.setsid n).map fun k => (.silent, { s with children := k })
  | s, .terminate n t => (s.children.terminate n t).map fun k => (.silent, { s with children := k })

end LinuxServer

end SimpleTaskQueue
