import SimpleTaskQueue.Core.Blocks
import SimpleTaskQueue.Model.Proc.LinuxProc
/-!
# SimpleTaskQueue.Model.Proc.ChildArgv

`LinuxProc::buildChildArgv` and `startChild` (`model/proc/linuxproc.cpp`) on the memory of the child
process: every allocation, every write into a block, and the clean-up when an allocation fails.
`Model.Proc.LinuxProc` has the same two functions without the memory.

`alloc` says which allocations succeed: 0 is that of the array, 1 that of `argv[0]`, and `i + 2` the
one in round `i` of the loop.
-/

namespace SimpleTaskQueue

open Blocks

/-- A cell of the memory: a character, or a pointer to a block; `none` is `nullptr`. -/
inductive Cell
  | char (c : Char)
  | pointer (p : Option Nat)
  deriving Repr, DecidableEq

/-- The array behind `s.c_str()`. -/
def cStr (s : Str) : List Cell := (s ++ [nul]).map .char

namespace LinuxProc

/-- `new (std::nothrow) char *[n]()`. -/
def newPointers (ok : Bool) (n : Nat) : Memory Cell (Option Nat) :=
  new ok (List.replicate n (.pointer none))

/-- `new (std::nothrow) char[n]()`. -/
def newChars (ok : Bool) (n : Nat) : Memory Cell (Option Nat) :=
  new ok (List.replicate n (.char nul))

/-- Read the entry `i` of an array of pointers. -/
def loadPointer (p i : Nat) : Memory Cell (Option Nat) := do
  match ← load p i with
  | .pointer q => pure q
  | .char _ => fault

/-- The loop of `buildChildArgv` that frees the strings, for `n` entries from `j` on. -/
def cleanLoop (argv : Nat) : Nat → Nat → Memory Cell Unit
  | 0, _ => pure ()
  | n + 1, j => do
    delete (← loadPointer argv j)
    cleanLoop argv n (j + 1)

/-- The loop of `buildChildArgv` that copies the arguments, from `i` on. It is left with `false`
behind the clean-up. -/
def argLoop (alloc : Nat → Bool) (argv : Nat) : Nat → List Str → Memory Cell Bool
  | _, [] => pure true
  | i, arg :: args => do
    let index := i + 1
    store argv index (.pointer (← newChars (alloc (i + 2)) (arg.length + 1)))
    match ← loadPointer argv index with
    | none =>
      cleanLoop argv index 0
      delete (some argv)
      pure false
    | some p =>
      copy p (cStr arg) arg.length
      store p arg.length (.char nul)
      argLoop alloc argv (i + 1) args

/-- `LinuxProc::buildChildArgv`. -/
def buildChildArgv (alloc : Nat → Bool) (task : Task) : Memory Cell (Option Nat) := do
  let size := task.args.length
  let argv ← (if size ≠ 0 then newPointers (alloc 0) (size + 2) else newPointers (alloc 0) 2)
  match argv with
  | none => pure none
  | some argv =>
    let nameLen := task.execName.length + 1
    store argv 0 (.pointer (← newChars (alloc 1) nameLen))
    match ← loadPointer argv 0 with
    | none =>
      delete (some argv)
      pure none
    | some name =>
      copy name (cStr task.execName) nameLen
      if size ≠ 0 then
        if ← argLoop alloc argv 0 task.args then
          store argv (size + 1) (.pointer none)
          pure (some argv)
        else pure none
      else
        store argv 1 (.pointer none)
        pure (some argv)

/-- The characters before the first NUL, if the cells have one. -/
def untilNul : List Cell → Option Str
  | [] | .pointer _ :: _ => none
  | .char c :: cs => if c = nul then some [] else (untilNul cs).map fun s => c :: s

/-- What `execve` reads at `p`. -/
def readString (p : Nat) : Memory Cell Str := access p fun cs => (untilNul cs).map fun s => (s, cs)

/-- What `execve` reads in an array of pointers, up to the first null pointer. -/
def readArgv : List Cell → Memory Cell (List (Option Str))
  | [] | .char _ :: _ => fault
  | .pointer none :: _ => pure [none]
  | .pointer (some p) :: entries => do
    let s ← readString p
    let argv ← readArgv entries
    pure (some s :: argv)

/-- `LinuxProc::startChild`; `chdirOk` says whether `chdir(task.workDir)` succeeds. -/
def startChild (chdirOk : Bool) (alloc : Nat → Bool) (task : Task) : Memory Cell ChildAction := do
  if !chdirOk then pure (.exit 1)
  else
    match ← buildChildArgv alloc task with
    | none => pure (.exit 1)
    | some argv =>
      let entries ← access argv fun cs => some (cs, cs)
      pure (.execve (cstr task.execName) (← readArgv entries))

end LinuxProc

end SimpleTaskQueue
