import SimpleTaskQueue.Core.Linearizable
import SimpleTaskQueue.Model.Controller.QueueListImpl
/-!
# SimpleTaskQueue.Model.Controller.GRPCServer.Service

**The server with all its queues**: clients send requests, the handlers look queues up and call
them, the threads of the queues run, queues are created, renamed, deleted, and destroyed, and the
process ends and starts again on the same directory.

* A queue object is known by its number; the list has a `std::shared_ptr` on one for each name.
  `find` is the `getQueue` of a handler and `act` the rest of it: in between the handler has a
  pointer of its own (`Pointers`), and other handlers are called. On the sequential server
  (`server.seq`) nothing comes in between.
* `~SQLiteQueue` runs when the last pointer goes. It is a step of its own, of an object that the
  list does not have: `stopImpl`, behind which the threads of the object go on to their ends. It
  waits for them before it closes the connection.
* A call on a queue is one step, and so is a change of the list. `SQLiteQueueList` has no mutex:
  two handlers in the list at the same time, which is a data race, are left out.
* Names with a `/` lead out of the directory and are not covered by `create`.
* When the process ends, the directory stays; `SQLiteQueueList::init` calls `createQueue` for the
  files in it, so that the next start is a number of creations.
-/

namespace SimpleTaskQueue

open Sqlite Protos Runs

inductive Stage
  | alive
  /-- `~SQLiteQueue` was called. -/
  | destroyed
  /-- Its process has ended. -/
  | gone
  deriving Repr, DecidableEq

/-- A queue object. -/
structure QueueObject extends Handle where
  stage : Stage

/-- Its connection is open. -/
def QueueObject.isOpen (h : QueueObject) : Bool :=
  match h.stage with
  | .alive => true
  | .destroyed => h.queue.threads.any fun pc => pc != .returned
  | .gone => false

structure Service where
  /-- The directory with the database files. -/
  dir : Directory
  /-- The queue objects built so far. -/
  objects : List QueueObject
  mQueueList : AList fun _ : Str => Nat

/-- What a client can ask for; of the handlers of `Queue`, the call on the queue. -/
inductive Request
  | create (env : CreateEnv) (req : QueueReq)
  | rename (req : RenameQueueReq)
  | delete (req : QueueReq)
  | list
  | getQueue (req : QueueReq)
  | call (name : Str) (a : Action)
  | isRunning (name : Str)

inductive ServiceAction
  | request (r : Request)
  /-- `~SQLiteQueue`. -/
  | destroy (k : Nat)
  /-- A step of a thread of the object `k`. -/
  | worker (k i : Nat) (w : Work)
  /-- The process ends, and starts again with an empty list. -/
  | restart

inductive ServiceOutput
  | status (st : Status)
  | names (r : Reply (List ListQueueRes))
  /-- `getQueue` found no queue. -/
  | noQueue
  | running (b : Bool)
  /-- The object `k`, which has the file `f` open, made a step. -/
  | called (k : Nat) (f : FileName) (e : Action × Output)
  | silent

namespace ServiceAction

def isRequest : ServiceAction → Bool
  | request _ => true
  | _ => false

/-- The object that the step destroys. -/
def destroyed : ServiceAction → Option Nat
  | destroy k => some k
  | _ => none

end ServiceAction

/-- A call of a client, not a step of a thread. -/
def Action.isCall : Action → Bool
  | .worker _ _ => false
  | _ => true

namespace Service

variable (s : Service)

/-- A server on a directory, before its first queue. -/
def new (d : Directory) : Service := ⟨d, [], ∅⟩

/-- The queue object, the content of its file read in. -/
def load (h : QueueObject) : SQLiteQueue :=
  h.queue.load ((s.dir.database h.file).getD h.queue.mToken.db)

/-- The object `k`, which is `h`, after a step. -/
def store (k : Nat) (h : QueueObject) (q : SQLiteQueue) : Service :=
  { s with
    dir := s.dir.insert h.file (.file (some q.mToken.db))
    objects := s.objects.set k { h with queue := q } }

/-- A step of the object `k`. -/
def onObject (k : Nat) (a : Action) : Option (ServiceOutput × Service) :=
  match s.objects[k]? with
  | none => none
  | some h =>
    if h.stage = .gone then none
    else ((s.load h).step a).map fun r => (.called k h.file (a, r.1), s.store k h r.2)

/-- `~SQLiteQueue`, less the waiting for the threads. -/
def destroy (k : Nat) : Option (ServiceOutput × Service) :=
  match s.objects[k]? with
  | none => none
  | some h =>
    if h.stage ≠ .alive then none
    else ((s.load h).step .stop).map fun r =>
      (.called k h.file (.stop, r.1), s.store k { h with stage := .destroyed } r.2)

/-! ### `sqliteQueueList` -/

/-- `SQLiteQueueList::createQueue`. -/
def createQueue (env : CreateEnv) (name : Str) : ErrCode × Service :=
  if !env.allocProc then (.OS_ERROR, s)
  else if !env.allocQueue then (.OS_ERROR, s)
  else
    match s.dir.initQueue env name, fileOf name with
    | (.OK, some queue, dir), some f =>
      (.OK, ⟨dir, s.objects ++ [⟨⟨f, queue⟩, .alive⟩], s.mQueueList.insert name s.objects.length⟩)
    | (_, _, dir), _ => (.OS_ERROR, { s with dir := dir })

/-- `SQLiteQueueList::listQueue`. -/
def listQueue : ErrCode × List Str :=
  if s.mQueueList.keys.isEmpty then (.NOT_FOUND, []) else (.OK, s.mQueueList.keys)

/-- `SQLiteQueueList::deleteQueue`. -/
def deleteQueue (name : Str) : ErrCode × Service :=
  if name ∈ s.mQueueList then (.OK, { s with mQueueList := s.mQueueList.erase name })
  else (.NOT_FOUND, s)

/-- `SQLiteQueueList::renameQueue`. -/
def renameQueue (oldName newName : Str) : ErrCode × Service :=
  match s.mQueueList.lookup oldName with
  | some it => (.OK, { s with mQueueList := (s.mQueueList.insert newName it).erase oldName })
  | none => (.NOT_FOUND, s)

/-- `SQLiteQueueList::getQueue`. -/
def getQueue (name : Str) : Option Nat := s.mQueueList.lookup name

def queueList : IQueueList Nat Service where
  createQueue env name s := s.createQueue env name
  listQueue s := s.listQueue
  deleteQueue name s := s.deleteQueue name
  renameQueue oldName newName s := s.renameQueue oldName newName
  getQueue _ name s := s.getQueue name

/-- A call on the object `k`, for who has a pointer on it. -/
def callObject (k : Nat) (a : Action) : Option (Output × Service) :=
  match s.objects[k]? with
  | none => none
  | some h =>
    if h.stage = .gone ∨ a.isCall = false then none
    else ((s.load h).step a).map fun r => (r.1, s.store k h r.2)

def queue : IQueue Nat Service where
  call k a s := s.callObject k a
  isRunning k s := s.objects[k]?.any fun h => h.queue.mIsRunning
  readCurrentOutput _ lines _ := lines

/-! ### The machine -/

/-- Is the object in the list? -/
def listed (k : Nat) : Bool := s.mQueueList.entries.any fun e => e.2 == k

/-- The `getQueue` of a handler of the `Queue` service. -/
def find : ServiceAction → Option Nat
  | .request (.call name _) | .request (.isRunning name) => s.getQueue name
  | _ => none

/-- The object that a step is about, which the handler has found in `k`, and what it does. -/
def target (k : Option Nat) : ServiceAction → Option (Nat × Action)
  | .request (.call _ a) => k.map (·, a)
  | .destroy k => some (k, .stop)
  | .worker k i w => some (k, .worker i w)
  | _ => none

/-- The step itself; `k` is what the handler has found. -/
def act (k : Option Nat) : ServiceAction → Option (ServiceOutput × Service)
  | .request (.create env req) =>
    if '/' ∈ req.name then none
    else
      let r := QueueListImpl.create queueList env req s
      some (.status r.1, r.2)
  | .request (.rename req) =>
    let r := QueueListImpl.rename queueList req s
    some (.status r.1, r.2)
  | .request (.delete req) =>
    let r := QueueListImpl.delete queueList req s
    some (.status r.1, r.2)
  | .request .list => some (.names (QueueListImpl.list queueList s), s)
  | .request (.getQueue req) => some (.status (QueueListImpl.getQueue queueList req s), s)
  | .request (.call name a) =>
    if !a.isCall then none
    else
      match target k (.request (.call name a)) with
      | none => some (.noQueue, s)
      | some (k, a) => s.onObject k a
  | .request (.isRunning _) =>
    match k with
    | none => some (.noQueue, s)
    | some k =>
      match s.objects[k]? with
      | none => none
      | some h => if h.stage = .gone then none else some (.running h.queue.mIsRunning, s)
  | .destroy k => if s.listed k then none else s.destroy k
  | .worker k i w => s.onObject k (.worker i w)
  | .restart => some (.silent, ⟨s.dir, s.objects.map fun h => { h with stage := .gone }, ∅⟩)

/-- The handlers and the threads. -/
def server : Linearizable.Server Service ServiceAction (Option Nat) ServiceOutput := ⟨find, act⟩

/-- The server with the calls of its clients. -/
abbrev Session := Linearizable.State Service ServiceAction (Option Nat) ServiceOutput

abbrev SessionMove := Linearizable.Move ServiceAction

abbrev SessionEvent := SessionMove × Linearizable.Event ServiceAction ServiceOutput

/-- Clients send requests, and an object is not destroyed while a handler has a pointer on it. -/
def Pointers (s : Session) : SessionMove → Prop
  | .send a => a.isRequest = true
  | .own a => a.isRequest = false ∧
    ∀ k ∈ a.destroyed, ∀ c ∈ s.calls, c.key ≠ some (some k)
  | _ => True

instance (s : Session) (m : SessionMove) : Decidable (Pointers s m) :=
  match m with
  | .send _ => inferInstanceAs (Decidable (_ = _))
  | .own _ => inferInstanceAs (Decidable (_ ∧ ∀ _ ∈ _, ∀ _ ∈ _, _))
  | .find _ | .act _ | .answer _ => .isTrue trivial

/-- **The machine.** -/
def session : Machine Session SessionMove (Linearizable.Event ServiceAction ServiceOutput) :=
  Linearizable.step server

end Service

end SimpleTaskQueue
