import SimpleTaskQueue.Model.Controller.QueueListImpl
/-!
# SimpleTaskQueue.Model.Dao.GRPCQueueList

`GRPCQueueList` (`model/dao/grpcqueuelist.cpp`): the list of a server, through its `QueueList`
service. Requests, messages and statuses arrive as they were sent; the stub and the `GRPCQueue`
that `getQueue` makes are there.
-/

namespace SimpleTaskQueue

open Protos

namespace GRPCQueueList

variable {κ σ : Type}

/-- The code for a status. -/
def code (status : Status) : ErrCode := if status.ok then .OK else .OS_ERROR

/-- The list on a server that has the list `L`. A `GRPCQueue` has the name it is made for, which
cannot be empty. -/
def queueList (L : IQueueList κ σ) : IQueueList Str σ where
  createQueue env name s :=
    let r := QueueListImpl.create L env ⟨name⟩ s
    (code r.1, r.2)
  listQueue s :=
    let r := QueueListImpl.list L s
    (code r.status, r.res.map ListQueueRes.name)
  deleteQueue name s :=
    let r := QueueListImpl.delete L ⟨name⟩ s
    (code r.1, r.2)
  renameQueue oldName newName s :=
    let r := QueueListImpl.rename L ⟨oldName, newName⟩ s
    (code r.1, r.2)
  getQueue alloc name s :=
    if (QueueListImpl.getQueue L ⟨name⟩ s).ok && alloc && !name.isEmpty then some name else none

end GRPCQueueList

end SimpleTaskQueue
