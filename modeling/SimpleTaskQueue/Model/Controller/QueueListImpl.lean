import SimpleTaskQueue.Model.Dao.IQueueList
import SimpleTaskQueue.Model.Protos
/-!
# SimpleTaskQueue.Model.Controller.QueueListImpl

The handlers of the `QueueList` service (`controller/grpcserver/queuelistimpl.cpp`), on the list
`sqliteQueueList` of the server. Three of them refuse empty names before they call it (`handle`);
`GetQueue` does not.

The requests and the writer are never null here: the generated service passes the addresses of its
own.
-/

namespace SimpleTaskQueue

open Protos

namespace QueueListImpl

variable {κ σ : Type} (L : IQueueList κ σ)

/-- The shape of `Create`, `Rename` and `Delete`: `isEmpty` says whether a name in the request is
empty, `empty` and `msg` are the texts of the errors. -/
def handle (isEmpty : Bool) (empty msg : String) (call : σ → ErrCode × σ) (s : σ) : Status × σ :=
  if isEmpty then (⟨.INVALID_ARGUMENT, empty.toList⟩, s)
  else
    let r := call s
    (if r.1 ≠ .OK then toGRPCStatus r.1 msg.toList else Status.OK, r.2)

def create (env : CreateEnv) (req : QueueReq) : σ → Status × σ :=
  handle req.name.isEmpty "\"name\" is empty string" "Fail to create queue"
    (L.createQueue env req.name)

def rename (req : RenameQueueReq) : σ → Status × σ :=
  handle (req.oldname.isEmpty || req.newName.isEmpty) "\"oldName\" or \"newName\" is empty string"
    "Fail to rename" (L.renameQueue req.oldname req.newName)

def delete (req : QueueReq) : σ → Status × σ :=
  handle req.name.isEmpty "\"name\" is empty string" "Fail to delete" (L.deleteQueue req.name)

def list (s : σ) : Reply (List ListQueueRes) :=
  let r := L.listQueue s
  if r.1 ≠ .OK then ⟨toGRPCStatus r.1 "Fail to list queue".toList, []⟩
  else ⟨Status.OK, r.2.map fun name => ⟨name⟩⟩

def getQueue (req : QueueReq) (s : σ) : Status :=
  if (L.getQueue true req.name s).isSome then Status.OK else ⟨.NOT_FOUND, "No such queue".toList⟩

end QueueListImpl

end SimpleTaskQueue
