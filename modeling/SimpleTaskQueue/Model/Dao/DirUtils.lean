import SimpleTaskQueue.Model.Proc.Task
/-!
# SimpleTaskQueue.Model.Dao.DirUtils

The checks of `model/dao/dirutils.cpp` on a disk. What a path leads to is a function of the path;
what else `create_directory` changes is left to the environment.
-/

namespace SimpleTaskQueue

inductive DiskNode
  | file
  | directory
  /-- A device, a socket and so on. -/
  | special
  deriving Repr, DecidableEq

/-- What the paths lead to. -/
abbrev Disk := Str → Option DiskNode

namespace DirUtils

/-- `DirUtils::convertPath` does nothing on Linux. -/
def convertPath (toConvert : Str) : Str := toConvert

/-- `DirUtils::verifyDir`: 0 or 1, and the disk then; `createDirectory` is
`std::filesystem::create_directory`, `none` if it fails. -/
def verifyDir (createDirectory : Disk → Str → Option Disk) (disk : Disk) (in_ : Str) : Nat × Disk :=
  if in_.isEmpty then (1, disk)
  else
    match disk in_ with
    | none =>
      match createDirectory disk in_ with
      | none => (1, disk)
      | some disk => (0, disk)
    | some .directory => (0, disk)
    | some .file | some .special => (1, disk)

/-- `DirUtils::verifyFile`. -/
def verifyFile (disk : Disk) (in_ : Str) : Nat :=
  if in_.isEmpty then 1
  else
    match disk in_ with
    | some .file => 0
    | none | some .directory | some .special => 1

end DirUtils

end SimpleTaskQueue
