import Mathlib.Data.List.AList
import SimpleTaskQueue.Model.Dao.SQLiteQueue.Queue
/-!
# SimpleTaskQueue.Model.Dao.SQLiteQueueList

`SQLiteQueueList` (`model/dao/sqlitequeuelist.cpp`): the queues of a server by name, each on a
database file in one directory. The directory outlives the object, and `init` builds a new
list from it.

* A file is identified by its name in the directory; links between entries are left out.
* A queue reads and writes its file in every call. Its worker threads are left out: the calls
  of a client are the ones `getQueue` hands on here.
* Names with a `/` lead out of the directory and are not covered by `createQueue`.
-/

namespace SimpleTaskQueue

open Sqlite Runs

/-! ### The directory -/

/-- The last component of a path. `.` and `..` name directories that are always there. -/
structure IsFileName (s : Str) : Prop where
  nonempty : s ≠ []
  nulFree : NulFree s
  slash : '/' ∉ s
  dot : s ≠ ".".toList
  dotdot : s ≠ "..".toList

instance (s : Str) : Decidable (IsFileName s) :=
  decidable_of_iff (s ≠ [] ∧ NulFree s ∧ '/' ∉ s ∧ s ≠ ".".toList ∧ s ≠ "..".toList)
    ⟨fun ⟨h₁, h₂, h₃, h₄, h₅⟩ => ⟨h₁, h₂, h₃, h₄, h₅⟩,
      fun h => ⟨h.nonempty, h.nulFree, h.slash, h.dot, h.dotdot⟩⟩

abbrev FileName := { s : Str // IsFileName s }

inductive Entry
  | directory
  /-- Neither a directory nor a regular file. -/
  | special
  /-- A regular file; `none` if it is not a database. -/
  | file (content : Option QueueDB)

abbrev Directory := AList fun _ : FileName => Entry

/-- A regular file. -/
def Directory.IsFile (d : Directory) (f : FileName) : Prop := ∃ c, d.lookup f = some (.file c)

/-- The database in a file. -/
def Directory.database (d : Directory) (f : FileName) : Option QueueDB :=
  match d.lookup f with
  | some (.file c) => c
  | _ => none

/-- The file that `targetPath + "/" + name + ".db"` names, read as a C string: `none` if it is
the directory itself, or leads out of it. -/
def fileOf (name : Str) : Option FileName :=
  if h : IsFileName (cstr (name ++ ".db".toList)) then some ⟨_, h⟩ else none

/-- `std::string::find_last_of` for one character. -/
def findLastOf (s : Str) (c : Char) : Option Nat :=
  (s.reverse.idxOf? c).map fun i => s.length - 1 - i

/-- The name `init` reads off a file name, `none` if it ignores the file. Without a dot `index`
is `npos`, and `index + 1` is 0. -/
def queueName (f : FileName) : Option Str :=
  let index := findLastOf f.val '.'
  let extension := match index with
    | some i => f.val.drop (i + 1)
    | none => f.val
  if extension ≠ "db".toList then none
  else
    match index with
    | some i => some (f.val.take i)
    | none => some f.val

/-! ### The list -/

/-- A queue in the list: the file its connection is opened on, and the object. What
`queue.mToken.db` holds is the content of the file, read in before each call. -/
structure Handle where
  file : FileName
  queue : SQLiteQueue

/-- The members of the class, and the directory at `m_conn->targetPath()`. -/
structure SQLiteQueueList where
  dir : Directory
  /-- Is `m_conn` set? -/
  mConn : Bool
  mQueueList : AList fun _ : Str => Handle

/-- The answers of the system during `createQueue`. -/
structure CreateEnv where
  allocProc : Bool
  allocQueue : Bool
  allocToken : Bool
  /-- Does `sqlite3_open` succeed? It cannot on what is not a regular file. -/
  opens : Bool
  sqlite : Env

/-- Every call succeeds, and rows come in rowid order. -/
def CreateEnv.ok : CreateEnv := ⟨true, true, true, true, Env.rowid⟩

/-- The answers of the system during `init`. -/
structure InitEnv where
  /-- `connect` is not null. -/
  connect : Bool
  /-- `DirUtils::verifyDir` succeeds. -/
  verifyDir : Bool
  /-- The order in which the directory is iterated over. -/
  order : List FileName → List FileName
  perm : ∀ l, (order l).Perm l
  create : FileName → CreateEnv

/-- Every call succeeds. -/
def InitEnv.ok : InitEnv where
  connect := true
  verifyDir := true
  order := id
  perm := fun _ => .refl _
  create := fun _ => .ok

/-- `SQLiteQueue::connectToDB` on a path: the result, the connection, and the directory then.
Opening creates the file; on a file that is no database the first statement fails. -/
def Directory.connectToDB (d : Directory) (env : CreateEnv) (path : Option FileName) :
    Nat × Conn TableName × Directory :=
  let on (f : FileName) (db : QueueDB) :=
    let r := SimpleTaskQueue.connectToDB true ((Conn.open db).given env.sqlite)
    (r.1, r.2, d.insert f (.file (some r.2.db)))
  let failed := (1, Conn.open emptyDB, d)
  match path with
  | none => failed
  | some f =>
    if !env.opens then failed
    else
      match d.lookup f with
      | none => on f emptyDB
      | some (.file (some db)) => on f db
      | some (.file none) | some .directory | some .special => failed

/-- `SQLiteQueue::init`: the code, the object if it is `OK`, and the directory then. -/
def Directory.initQueue (d : Directory) (env : CreateEnv) (name : Str) :
    ErrCode × Option SQLiteQueue × Directory :=
  if name.isEmpty then (.INVALID_ARGUMENT, none, d)
  else if !env.allocToken then (.OS_ERROR, none, d)
  else
    let r := d.connectToDB env (fileOf name)
    if r.1 ≠ 0 then (.OS_ERROR, none, r.2.2)
    else (.OK, some ⟨r.2.1, Task.blank, false, false, []⟩, r.2.2)

namespace SQLiteQueueList

variable (s : SQLiteQueueList)

/-- `createQueue`; `m_conn` must be set. A queue of that name is replaced. -/
def createQueue (env : CreateEnv) (name : Str) : ErrCode × SQLiteQueueList :=
  if !env.allocProc then (.OS_ERROR, s)
  else if !env.allocQueue then (.OS_ERROR, s)
  else
    match s.dir.initQueue env name, fileOf name with
    | (.OK, some queue, dir), some f =>
      (.OK, { s with dir := dir, mQueueList := s.mQueueList.insert name ⟨f, queue⟩ })
    | (_, _, dir), _ => (.OS_ERROR, { s with dir := dir })

/-- `listQueue`: the names, in no particular order. -/
def listQueue : ErrCode × List Str :=
  if s.mQueueList.keys.isEmpty then (.NOT_FOUND, []) else (.OK, s.mQueueList.keys)

def deleteQueue (name : Str) : ErrCode × SQLiteQueueList :=
  if name ∈ s.mQueueList then (.OK, { s with mQueueList := s.mQueueList.erase name })
  else (.NOT_FOUND, s)

/-- `renameQueue`: only the key changes. -/
def renameQueue (oldName newName : Str) : ErrCode × SQLiteQueueList :=
  match s.mQueueList.lookup oldName with
  | some it =>
    (.OK, { s with mQueueList := (s.mQueueList.insert newName it).erase oldName })
  | none => (.NOT_FOUND, s)

/-- `getQueue`. -/
def getQueue (name : Str) : Option Handle := s.mQueueList.lookup name

/-- The loop of `init` over the files of the directory. -/
def scan (env : FileName → CreateEnv) : List FileName → SQLiteQueueList → ErrCode × SQLiteQueueList
  | [], s => (.OK, s)
  | f :: fs, s =>
    match s.dir.lookup f, queueName f with
    | some (.file _), some name =>
      let r := s.createQueue (env f) name
      if r.1 ≠ .OK then (.OS_ERROR, { r.2 with mConn := false, mQueueList := ∅ })
      else scan env fs r.2
    | _, _ => scan env fs s

/-- `init`. -/
def init (env : InitEnv) : ErrCode × SQLiteQueueList :=
  if !env.connect then (.INVALID_ARGUMENT, s)
  else if !env.verifyDir then (.INVALID_ARGUMENT, s)
  else scan env.create (env.order s.dir.keys) ⟨s.dir, true, ∅⟩

end SQLiteQueueList

/-- A new object on a directory. -/
def newList (d : Directory) : SQLiteQueueList := ⟨d, false, ∅⟩

/-! ### The machine -/

/-- The calls of a client that do not concern the worker. -/
def Action.isDatabaseCall : Action → Bool
  | .start | .stop | .worker _ _ => false
  | _ => true

/-- Read the content of the file in. -/
def SQLiteQueue.load (q : SQLiteQueue) (db : QueueDB) : SQLiteQueue :=
  { q with mToken := { q.mToken with db := db } }

inductive ListAction
  | createQueue (env : CreateEnv) (name : Str)
  | listQueue
  | deleteQueue (name : Str)
  | renameQueue (oldName newName : Str)
  /-- A call on the queue that `getQueue` finds. -/
  | call (name : Str) (a : Action)

inductive ListOutput
  | code (rc : ErrCode)
  | names (rc : ErrCode) (names : List Str)
  | call (o : Output)
  /-- `getQueue` found no queue. -/
  | noQueue
  deriving Repr, DecidableEq

namespace SQLiteQueueList

/-- A call on a queue of the list. -/
def call (s : SQLiteQueueList) (name : Str) (a : Action) :
    Option (ListOutput × SQLiteQueueList) :=
  match s.getQueue name with
  | none => some (.noQueue, s)
  | some h =>
    if a.isDatabaseCall then
      match s.dir.database h.file with
      | none => none
      | some db =>
        ((h.queue.load db).step a).map fun r =>
          (.call r.1, { s with
            dir := s.dir.insert h.file (.file (some r.2.mToken.db))
            mQueueList := s.mQueueList.insert name { h with queue := r.2 } })
    else none

/-- **The machine.** -/
def step (s : SQLiteQueueList) : ListAction → Option (ListOutput × SQLiteQueueList)
  | .createQueue env name =>
    if s.mConn ∧ '/' ∉ name then
      let r := s.createQueue env name
      some (.code r.1, r.2)
    else none
  | .listQueue => some (.names s.listQueue.1 s.listQueue.2, s)
  | .deleteQueue name =>
    let r := s.deleteQueue name
    some (.code r.1, r.2)
  | .renameQueue oldName newName =>
    let r := s.renameQueue oldName newName
    some (.code r.1, r.2)
  | .call name a => s.call name a

/-- A list that `init` has built on some directory. -/
def Initialised (s : SQLiteQueueList) : Prop := ∃ d env, (newList d).init env = (.OK, s)

end SQLiteQueueList

end SimpleTaskQueue
