import SimpleTaskQueue.Model.Dao.SQLiteQueueList
import SimpleTaskQueue.Model.Protos
/-!
# SimpleTaskQueue.Model.Controller.QueueImpl

The handlers of the `Queue` service (`controller/grpcserver/queueimpl.cpp`) that report an error
code. Each looks the queue up by its name, makes one call on it, and turns the code into a status
(`handle`); they differ in the call, the text of the error, and the response.

* The requests and the response objects are never null here: the generated service passes the
  addresses of its own.
* The handlers run on the whole server, the `SQLiteQueueList`. A queue whose file is gone from the
  directory goes on with the file it holds open.
-/

namespace SimpleTaskQueue

open Sqlite Protos

namespace SQLiteQueueList

/-- The queue object of an entry, the content of its file read in. -/
def loaded (s : SQLiteQueueList) (h : Handle) : SQLiteQueue :=
  h.queue.load ((s.dir.database h.file).getD h.queue.mToken.db)

/-- The server after a call on the queue of an entry. -/
def stored (s : SQLiteQueueList) (name : Str) (h : Handle) (q : SQLiteQueue) : SQLiteQueueList :=
  { s with
    dir := if (s.dir.database h.file).isSome then
        s.dir.insert h.file (.file (some q.mToken.db))
      else s.dir
    mQueueList := s.mQueueList.insert name { h with queue := q } }

end SQLiteQueueList

namespace QueueImpl

/-- The shape of the handlers: `call` is the call on the queue, `code` the error code in its
result, `msg` the text of the error, `build` the response. -/
def handle {β ρ : Type} [Inhabited ρ] (s : SQLiteQueueList) (name : Str)
    (call : SQLiteQueue → β × SQLiteQueue) (code : β → ErrCode) (msg : String) (build : β → ρ) :
    Reply ρ × SQLiteQueueList :=
  match s.getQueue name with
  | none => (⟨⟨.NOT_FOUND, "Fail to get queue".toList⟩, default⟩, s)
  | some h =>
    let r := call (s.loaded h)
    (if code r.1 ≠ .OK then ⟨toGRPCStatus (code r.1) msg.toList, default⟩
      else ⟨Status.OK, build r.1⟩, s.stored name h r.2)

/-- The messages `ListPending` and `ListFinished` write. -/
def buildListTaskRes (out : List Int) : List ListTaskRes := out.map fun id => ⟨toInt32 id⟩

/-- `buildTaskDetailsRes`. -/
def buildTaskDetailsRes (task : Task) : TaskDetailsRes where
  workDir := task.workDir
  execName := task.execName
  args := task.args
  exitCode := toInt32 task.exitCode
  ID := toInt32 task.ID

/-- The task `AddTask` hands on: the fields a request does not have keep their defaults. -/
def taskOfReq (req : AddTaskReq) : Task :=
  { Task.blank with execName := req.execName, workDir := req.workDir, args := req.args }

variable (s : SQLiteQueueList) (env : Env)

def listPending (req : QueueReq) : Reply (List ListTaskRes) × SQLiteQueueList :=
  handle s req.name (fun q => q.call env SimpleTaskQueue.listPending) Prod.fst
    "Fail to list pending" fun r => buildListTaskRes r.2

def listFinished (req : QueueReq) : Reply (List ListTaskRes) × SQLiteQueueList :=
  handle s req.name (fun q => q.call env SimpleTaskQueue.listFinished) Prod.fst
    "Fail to list finished" fun r => buildListTaskRes r.2

def pendingDetails (req : TaskDetailsReq) : Reply TaskDetailsRes × SQLiteQueueList :=
  handle s req.name (fun q => q.call env (SimpleTaskQueue.pendingDetails req.ID Task.blank))
    Prod.fst "Fail to get pending detailes" fun r => buildTaskDetailsRes r.2

def finishedDetails (req : TaskDetailsReq) : Reply TaskDetailsRes × SQLiteQueueList :=
  handle s req.name (fun q => q.call env (SimpleTaskQueue.finishedDetails req.ID Task.blank))
    Prod.fst "Fail to get pending detailes" fun r => buildTaskDetailsRes r.2

def clearPending (req : QueueReq) : Reply Protos.Empty × SQLiteQueueList :=
  handle s req.name (fun q => q.call env SimpleTaskQueue.clearPending) id
    "Fail to clean pending" fun _ => ⟨⟩

def clearFinished (req : QueueReq) : Reply Protos.Empty × SQLiteQueueList :=
  handle s req.name (fun q => q.call env SimpleTaskQueue.clearFinished) id
    "Fail to clean finished" fun _ => ⟨⟩

def currentTask (req : QueueReq) : Reply TaskDetailsRes × SQLiteQueueList :=
  handle s req.name (fun q => (q.currentTask Task.blank, q)) Prod.fst
    "Fail to get current task" fun r => buildTaskDetailsRes r.2

def addTask (req : AddTaskReq) : Reply ListTaskRes × SQLiteQueueList :=
  handle s req.name (fun q => q.call env (SimpleTaskQueue.addTask (taskOfReq req))) Prod.fst
    "Fail to add task" fun r => ⟨toInt32 r.2.ID⟩

def removeTask (req : TaskDetailsReq) : Reply Protos.Empty × SQLiteQueueList :=
  handle s req.name (fun q => q.call env (SimpleTaskQueue.removeTask q.mCurrentTask req.ID)) id
    "Fail to remove task" fun _ => ⟨⟩

def start (req : QueueReq) : Reply Protos.Empty × SQLiteQueueList :=
  handle s req.name SQLiteQueue.start id "Fail to start queue" fun _ => ⟨⟩

end QueueImpl

end SimpleTaskQueue
