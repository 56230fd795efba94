import SimpleTaskQueue.Model.Dao.SQLiteQueueList
/-!
# SimpleTaskQueue.Model.Dao.IQueueList

The interfaces `IQueue` (`model/dao/iqueue.hpp`) and `IQueueList` (`model/dao/iqueuelist.hpp`).
Their implementations are values of one type, on the states `σ` of whatever holds the queues, so
that a client of an interface can be run on any of them. A `std::shared_ptr<IQueue>` is a `κ`.
-/

namespace SimpleTaskQueue

/-- `IQueue`, less `init`. -/
structure IQueue (κ σ : Type) where
  /-- The operations that are calls of the machine of a queue. -/
  call : κ → Action → σ → Option (Output × σ)
  isRunning : κ → σ → Bool
  /-- The lines, of those that the process of the queue gives out. -/
  readCurrentOutput : κ → List Str → σ → List Str

/-- `IQueueList`, less `init`. -/
structure IQueueList (κ σ : Type) where
  /-- `CreateEnv` has the answers of the system. -/
  createQueue : CreateEnv → Str → σ → ErrCode × σ
  listQueue : σ → ErrCode × List Str
  deleteQueue : Str → σ → ErrCode × σ
  renameQueue : Str → Str → σ → ErrCode × σ
  /-- The flag says whether an object can be allocated, where one is. -/
  getQueue : Bool → Str → σ → Option κ

end SimpleTaskQueue
