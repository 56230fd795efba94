import SimpleTaskQueue.Core.Paths
import SimpleTaskQueue.Model.Dao.SQLiteQueueList
/-!
# SimpleTaskQueue.Model.Dao.FileSystem

`SQLiteQueueList` on a **file system** instead of one directory: the file of a queue is the one to
which the path `targetPath + "/" + name + ".db"` leads, whatever the name. The calls are those of
`SimpleTaskQueue.Model.Dao.SQLiteQueueList`; `createQueue` takes every name here.

* Paths are read as the system reads them: empty components and `.` stay, `..` goes up, every
  component needs a directory, and the path ends at a NUL. Links are left out.
* `std::filesystem::directory_iterator` gives every `FileName` of a directory, neither `.` nor `..`.
-/

namespace SimpleTaskQueue

open Sqlite Paths

/-- The directories and files of the machine, and the working directory of the server. -/
structure FileSystem where
  node : Location Str → Option Entry
  cwd : Location Str

/-- The components of a path. -/
def moves (path : Str) : List (Move Str) :=
  (path.splitOn '/').map fun c =>
    if c = [] ∨ c = ".".toList then .stay
    else if c = "..".toList then .up
    else .down c

namespace FileSystem

variable (fs : FileSystem)

def isDirectory (l : Location Str) : Bool :=
  match fs.node l with
  | some .directory => true
  | _ => false

/-- The place a path leads to. The empty path leads nowhere. -/
def resolve (path : Str) : Option (Location Str) :=
  match cstr path with
  | [] => none
  | c :: cs => walk fs.isDirectory (moves (c :: cs)) (if c = '/' then [] else fs.cwd)

/-- The file system with an entry. -/
def write (l : Location Str) (e : Entry) : FileSystem :=
  { fs with node := Function.update fs.node l (some e) }

/-- `SQLiteQueue::connectToDB` on a path, which leads to `loc`. -/
def connectToDB (env : CreateEnv) (loc : Option (Location Str)) :
    Nat × Conn TableName × FileSystem :=
  let on (l : Location Str) (db : QueueDB) :=
    let r := SimpleTaskQueue.connectToDB true ((Conn.open db).given env.sqlite)
    (r.1, r.2, fs.write l (.file (some r.2.db)))
  let failed := (1, Conn.open emptyDB, fs)
  match loc with
  | none => failed
  | some l =>
    if !env.opens then failed
    else
      match fs.node l with
      | none => on l emptyDB
      | some (.file (some db)) => on l db
      | some (.file none) | some .directory | some .special => failed

/-- `SQLiteQueue::init`. -/
def initQueue (env : CreateEnv) (name : Str) (loc : Option (Location Str)) :
    ErrCode × Option SQLiteQueue × FileSystem :=
  if name.isEmpty then (.INVALID_ARGUMENT, none, fs)
  else if !env.allocToken then (.OS_ERROR, none, fs)
  else
    let r := fs.connectToDB env loc
    if r.1 ≠ 0 then (.OS_ERROR, none, r.2.2)
    else (.OK, some ⟨r.2.1, Task.blank, false, false, []⟩, r.2.2)

end FileSystem

/-- A queue in the list, and the file its connection is opened on. -/
structure PathHandle where
  location : Location Str
  queue : SQLiteQueue

/-- The members of the class, and the file system. -/
structure PathQueueList where
  fs : FileSystem
  /-- `m_conn->targetPath()`. -/
  targetPath : Str
  mQueueList : AList fun _ : Str => PathHandle

namespace PathQueueList

variable (s : PathQueueList)

/-- Where the file of a queue is. -/
def fileOf (name : Str) : Option (Location Str) :=
  s.fs.resolve (s.targetPath ++ "/".toList ++ name ++ ".db".toList)

/-- `createQueue`. -/
def createQueue (env : CreateEnv) (name : Str) : ErrCode × PathQueueList :=
  if !env.allocProc then (.OS_ERROR, s)
  else if !env.allocQueue then (.OS_ERROR, s)
  else
    match s.fs.initQueue env name (s.fileOf name), s.fileOf name with
    | (.OK, some queue, fs), some l =>
      (.OK, { s with fs := fs, mQueueList := s.mQueueList.insert name ⟨l, queue⟩ })
    | (_, _, fs), _ => (.OS_ERROR, { s with fs := fs })

/-- What the target directory has under a name. -/
def entry (f : FileName) : Option Entry :=
  (s.fs.resolve (s.targetPath ++ "/".toList ++ f.val)).bind s.fs.node

/-- The loop of `init` over the files of the directory. -/
def scan (env : FileName → CreateEnv) : List FileName → PathQueueList → ErrCode × PathQueueList
  | [], s => (.OK, s)
  | f :: fs, s =>
    match s.entry f, queueName f with
    | some (.file _), some name =>
      let r := s.createQueue (env f) name
      if r.1 ≠ .OK then (.OS_ERROR, { r.2 with mQueueList := ∅ })
      else scan env fs r.2
    | _, _ => scan env fs s

/-- `init`; `files` is what the target directory has. -/
def init (env : InitEnv) (files : List FileName) : ErrCode × PathQueueList :=
  if !env.connect then (.INVALID_ARGUMENT, s)
  else if !env.verifyDir then (.INVALID_ARGUMENT, s)
  else scan env.create (env.order files) { s with mQueueList := ∅ }

end PathQueueList

end SimpleTaskQueue
