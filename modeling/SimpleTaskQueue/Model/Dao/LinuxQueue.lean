import SimpleTaskQueue.Model.Dao.SQLiteQueue.Queue
import SimpleTaskQueue.Model.Proc.LinuxProc
/-!
# SimpleTaskQueue.Model.Dao.LinuxQueue

A `SQLiteQueue` whose `m_process` is a `LinuxProc`, as `SQLiteQueueList::createQueue` builds it
on Linux, together with the children of the server process. What the queue's machine leaves
open, the answers of `m_process`, is computed by `LinuxProc`; what stays open are the answers
of the system.

Children terminate at any moment. The rest of the server (the other queues) creates children
and collects their status words as well, and may collect any.
-/

namespace SimpleTaskQueue

open Sqlite Processes Runs

structure LinuxQueue where
  queue : SQLiteQueue
  proc : LinuxProc
  children : Children

/-- The actions; in those of the worker `i` the process answers are replaced by what the system
answers to `LinuxProc`. -/
inductive HostAction
  /-- A client call other than `stop`. -/
  | client (a : Action)
  | stop
  | go (i : Nat)
  | init (i : Nat) (env : Env)
  | start (i : Nat) (env : StartEnv)
  | isRunning (i : Nat) (pick : Int)
  | fin (i : Nat) (env : Env) (pick : Int)
  /-- The child terminates. -/
  | terminate (pid : Int) (t : Termination)
  /-- Another part of the server creates a child. -/
  | fork
  /-- Another part of the server collects the status word of the child. -/
  | collect (pid : Int)

/-- What a step lets an observer see: the event of the queue, and what `LinuxProc` did. -/
inductive Report
  | queue (e : Action × Output)
  /-- `LinuxProc::start` was called for `t`: its result, and `m_pid` then. -/
  | started (e : Action × Output) (t : Task) (rc : Nat) (pid : Int)
  /-- `mainLoopFin` ran for `t`, and got that from `LinuxProc::exitCode`. -/
  | finished (e : Action × Output) (t : Task) (exitCode : Option Int)
  | system

/-- The event of the queue in a step, if there is one. -/
def Report.events : Report → List (Action × Output)
  | queue e | started e _ _ _ | finished e _ _ => [e]
  | system => []

/-- What came of `mainLoopFin`: the task, the answer of `exitCode`, the result. -/
def Report.outcome : Report → Option (Task × Option Int × FinResult)
  | finished (_, .finished _ res) t exitCode => some (t, exitCode, res)
  | _ => none

namespace LinuxQueue

/-- A queue on a new file in a process without children. -/
def fresh : LinuxQueue := ⟨SQLiteQueue.fresh, LinuxProc.init, Children.none⟩

/-- Is this one of the calls of a client that do not reach `m_process`? -/
def isCall : Action → Bool
  | .worker _ _ | .stop => false
  | _ => true

/-- Let the queue make its step. -/
def lift (s : LinuxQueue) (a : Action) (proc : LinuxProc) (children : Children)
    (report : Action × Output → Report) : Option (Report × LinuxQueue) :=
  (s.queue.step a).map fun r => (report (a, r.1), ⟨r.2, proc, children⟩)

/-- **The machine.** -/
def step (s : LinuxQueue) : HostAction → Option (Report × LinuxQueue)
  | .client a => if isCall a then s.lift a s.proc s.children .queue else none
  | .stop =>
    let children := if s.queue.mIsRunning then s.proc.stopImpl s.children else s.children
    s.lift .stop s.proc children .queue
  | .go i => s.lift (.worker i .go) s.proc s.children .queue
  | .init i env => s.lift (.worker i (.init env)) s.proc s.children .queue
  | .start i env =>
    let (rc, proc, children) := s.proc.start env s.children
    s.lift (.worker i (.start (rc == 0))) proc children
      fun e => .started e s.queue.mCurrentTask rc proc.mPid
  | .isRunning i pick =>
    let (running, proc, children) := s.proc.isRunning pick s.children
    s.lift (.worker i (.isRunning running)) proc children .queue
  | .fin i env pick =>
    let (exitCode, proc, children) := s.proc.exitCode pick s.children
    s.lift (.worker i (.fin env exitCode)) proc children
      fun e => .finished e s.queue.mCurrentTask exitCode
  | .terminate pid t =>
    (s.children.terminate pid t).map fun children => (.system, { s with children := children })
  | .fork => some (.system, { s with children := s.children.fork.2 })
  | .collect pid =>
    (s.children.collect pid).map fun children => (.system, { s with children := children })

end LinuxQueue

end SimpleTaskQueue
