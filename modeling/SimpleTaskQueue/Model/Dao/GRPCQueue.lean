import SimpleTaskQueue.Model.Controller.QueueImpl
/-!
# SimpleTaskQueue.Model.Dao.GRPCQueue

`GRPCQueue` (`model/dao/grpcqueue.cpp`): the implementation of `IQueue` that calls a server. Every
operation fills in a request, calls the stub, and reads the response; requests, messages and
statuses arrive as they were sent.

`GRPCQueue.step` takes the same actions as `SQLiteQueue.step`, so that the two implementations can
be compared call by call.
-/

namespace SimpleTaskQueue

open Sqlite Protos

/-- The members of the class, less the stub. -/
structure GRPCQueue where
  mQueueName : Str

/-- What a remote operation comes to: the status the stub gives to the client, what the client
returns, and the server then. -/
structure Remote (β : Type) where
  status : Status
  out : β
  server : SQLiteQueueList

namespace Remote

/-- The reading of a stream. The status of `Finish` is thrown away. -/
def stream {ρ β : Type} (r : Reply (List ρ) × SQLiteQueueList) (read : ρ → β) :
    Remote (ErrCode × List β) :=
  ⟨r.1.status, (.OK, r.1.res.map read), r.2⟩

/-- A unary call: `ok` reads the response, `out` is what the caller's variable holds before. -/
def unary {ρ β : Type} (r : Reply ρ × SQLiteQueueList) (ok : ρ → β) (out : β) :
    Remote (ErrCode × β) :=
  ⟨r.1.status, if r.1.status.ok then (.OK, ok r.1.res) else (.OS_ERROR, out), r.2⟩

/-- The result as an output of the machine. -/
def output {β : Type} (r : Remote (ErrCode × β)) (out : ErrCode → β → Output) : Remote Output :=
  ⟨r.status, out r.out.1 r.out.2, r.server⟩

end Remote

namespace GRPCQueue

/-- `GRPCQueue::buildTask`: `isSuccess` is not in the response. -/
def buildTask (res : TaskDetailsRes) (task : Task) : Task :=
  { task with
    workDir := res.workDir, execName := res.execName, args := res.args
    exitCode := res.exitCode, ID := res.ID }

variable (g : GRPCQueue) (s : SQLiteQueueList) (env : Env)

def listPending : Remote (ErrCode × List Int) :=
  .stream (QueueImpl.listPending s env ⟨g.mQueueName⟩) ListTaskRes.ID

def listFinished : Remote (ErrCode × List Int) :=
  .stream (QueueImpl.listFinished s env ⟨g.mQueueName⟩) ListTaskRes.ID

def pendingDetails (id : Int) (out : Task) : Remote (ErrCode × Task) :=
  .unary (QueueImpl.pendingDetails s env ⟨g.mQueueName, toInt32 id⟩) (buildTask · out) out

def finishedDetails (id : Int) (out : Task) : Remote (ErrCode × Task) :=
  .unary (QueueImpl.finishedDetails s env ⟨g.mQueueName, toInt32 id⟩) (buildTask · out) out

def clearPending : Remote (ErrCode × Unit) :=
  .unary (QueueImpl.clearPending s env ⟨g.mQueueName⟩) (fun _ => ()) ()

def clearFinished : Remote (ErrCode × Unit) :=
  .unary (QueueImpl.clearFinished s env ⟨g.mQueueName⟩) (fun _ => ()) ()

def currentTask (out : Task) : Remote (ErrCode × Task) :=
  .unary (QueueImpl.currentTask s ⟨g.mQueueName⟩) (buildTask · out) out

def addTask (t : Task) : Remote (ErrCode × Task) :=
  .unary (QueueImpl.addTask s env ⟨g.mQueueName, t.workDir, t.execName, t.args⟩)
    (fun res => { t with ID := res.ID }) t

def removeTask (id : Int) : Remote (ErrCode × Unit) :=
  .unary (QueueImpl.removeTask s env ⟨g.mQueueName, toInt32 id⟩) (fun _ => ()) ()

def start : Remote (ErrCode × Unit) :=
  .unary (QueueImpl.start s ⟨g.mQueueName⟩) (fun _ => ()) ()

/-- The operations of `IQueue` that return a code, on the remote queue. -/
def step : Action → Option (Remote Output)
  | .listPending env => some ((g.listPending s env).output .ids)
  | .listFinished env => some ((g.listFinished s env).output .ids)
  | .pendingDetails env id out => some ((g.pendingDetails s env id out).output .task)
  | .finishedDetails env id out => some ((g.finishedDetails s env id out).output .task)
  | .clearPending env => some ((g.clearPending s env).output fun rc _ => .code rc)
  | .clearFinished env => some ((g.clearFinished s env).output fun rc _ => .code rc)
  | .currentTask out => some ((g.currentTask s out).output .task)
  | .addTask env t => some ((g.addTask s env t).output .task)
  | .removeTask env id => some ((g.removeTask s env id).output fun rc _ => .code rc)
  | .start => some ((g.start s).output fun rc _ => .code rc)
  | .stop | .worker _ _ => none

end GRPCQueue

end SimpleTaskQueue
