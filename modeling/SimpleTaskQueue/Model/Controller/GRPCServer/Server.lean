import SimpleTaskQueue.Core.Runs
/-!
# SimpleTaskQueue.Model.Controller.GRPCServer.Server

The life of the `Server` object (`controller/grpcserver/server.cpp`, `servermain.cpp`): `start`
builds the server and waits for `m_exitRequested`; the signal handlers call `stop`, which fulfils
it; and so does the destructor. `start` is cut where it can be interrupted or waits. A function that
lets an exception of `std::promise` out ends the process.
-/

namespace SimpleTaskQueue

open Runs

/-- `std::promise<void>` with its shared state. -/
structure StdPromise where
  /-- `set_value` was called. -/
  satisfied : Bool
  /-- `get_future` was called. -/
  retrieved : Bool
  deriving Repr, DecidableEq

namespace StdPromise

def new : StdPromise := ⟨false, false⟩

/-- `set_value`: `none` is the exception `promise_already_satisfied`. -/
def setValue (p : StdPromise) : Option StdPromise :=
  if p.satisfied then none else some { p with satisfied := true }

/-- `get_future`: `none` is the exception `future_already_retrieved`. -/
def getFuture (p : StdPromise) : Option StdPromise :=
  if p.retrieved then none else some { p with retrieved := true }

end StdPromise

/-- Where `Server::start` is. -/
inductive ServerPc
  | notCalled
  /-- The server is built and `m_thread` serves. -/
  | serving
  /-- In `m_future.wait()`. -/
  | waiting
  | returned (rc : Nat)
  deriving Repr, DecidableEq

/-- What comes of `BuildAndStart` and the calls before it. -/
inductive BuildResult
  | built
  /-- A null pointer, which the serving thread dereferences. -/
  | null
  | exception
  deriving Repr, DecidableEq

structure Server where
  mExitRequested : StdPromise
  /-- `m_server` is not null. -/
  mServer : Bool
  pc : ServerPc
  /-- The object or the process is gone. -/
  gone : Bool
  deriving Repr, DecidableEq

inductive LifeAction
  | start (build : BuildResult)
  | getFuture
  /-- `wait` returns. -/
  | wake
  /-- `Server::stop`, called by a signal handler. -/
  | stop
  /-- `Server::~Server`, after `start` returned if it was called. -/
  | destroy
  deriving Repr, DecidableEq

inductive LifeOutput
  | silent
  | returned (rc : Nat)
  /-- `set_value` threw `std::future_error`. -/
  | futureError
  /-- A null pointer was dereferenced. -/
  | crashed
  deriving Repr, DecidableEq

namespace Server

/-- `Server::Server`. -/
def new : Server := ⟨StdPromise.new, false, .notCalled, false⟩

/-- `Server::stop`. -/
def stop (s : Server) : Option Server :=
  s.mExitRequested.setValue.map fun p => { s with mExitRequested := p }

/-- `Server::start` catches an exception. -/
def startFailed (s : Server) : Server := { s with mServer := false, pc := .returned 1 }

/-- **The machine.** -/
def step (s : Server) (a : LifeAction) : Option (LifeOutput × Server) :=
  if s.gone then none
  else
    match a with
    | .start build =>
      if s.pc = .notCalled then
        match build with
        | .built => some (.silent, { s with mServer := true, pc := .serving })
        | .null => some (.crashed, { s with gone := true })
        | .exception => some (.returned 1, s.startFailed)
      else none
    | .getFuture =>
      if s.pc = .serving then
        match s.mExitRequested.getFuture with
        | some p => some (.silent, { s with mExitRequested := p, pc := .waiting })
        | none => some (.returned 1, s.startFailed)
      else none
    | .wake =>
      if s.pc = .waiting ∧ s.mExitRequested.satisfied = true then
        some (.returned 0, { s with mServer := false, pc := .returned 0 })
      else none
    | .stop =>
      match s.stop with
      | some s => some (.silent, s)
      | none => some (.futureError, { s with gone := true })
    | .destroy =>
      if s.pc = .serving ∨ s.pc = .waiting then none
      else
        match s.stop with
        | some s => some (.silent, { s with gone := true })
        | none => some (.futureError, { s with gone := true })

end Server

end SimpleTaskQueue
