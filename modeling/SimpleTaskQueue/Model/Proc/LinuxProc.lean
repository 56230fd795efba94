import SimpleTaskQueue.Core.Processes
import SimpleTaskQueue.Model.Proc.Task
/-!
# SimpleTaskQueue.Model.Proc.LinuxProc

`LinuxProc` (`model/proc/linuxproc.cpp`): the process interface of the queue over `forkpty`,
`waitpid` and `kill`. Every function takes the children of the server process and returns
them. What the system calls answer is an argument (`StartEnv`, and `pick` for the child that
`waitpid(-1)` delivers). The reader thread and its buffer are not part of this module.
-/

namespace SimpleTaskQueue

open Processes

/-- The members of the class. -/
structure LinuxProc where
  mPid : Int
  mMasterFD : Int
  mExitCode : Int
  mEpollFd : Int
  deriving Repr, DecidableEq

/-- The answers of the system during `LinuxProc::start`. -/
structure StartEnv where
  isAdmin : Bool
  /-- The file descriptor of the terminal, or `none` if `forkpty` fails. -/
  forkpty : Option Int
  getFlOk : Bool
  setFlOk : Bool
  /-- The file descriptor, or `none` if `epoll_create1` fails. -/
  epollCreate : Option Int
  epollCtlOk : Bool
  pick : Int
  deriving Repr, DecidableEq

/-- A system in which every call succeeds. -/
def StartEnv.ok : StartEnv where
  isAdmin := false
  forkpty := some 3
  getFlOk := true
  setFlOk := true
  epollCreate := some 4
  epollCtlOk := true
  pick := 1

/-- What the child process does. -/
inductive ChildAction
  | exit (n : Int)
  /-- `argv` is an array of C strings; `none` is the null pointer. -/
  | execve (path : Str) (argv : List (Option Str))
  deriving Repr, DecidableEq

/-- The copies of the arguments made by `buildChildArgv`; `alloc i` says whether the `i`-th
allocation succeeds. -/
def copyArgs (alloc : Nat → Bool) : Nat → List Str → Option (List (Option Str))
  | _, [] => some []
  | i, a :: as =>
    if alloc i then (copyArgs alloc (i + 1) as).map fun l => some (cstr a) :: l
    else none

/-- `LinuxProc::buildChildArgv`: the array, the copy of `execName`, the copies of the
arguments, and the terminating null pointer. -/
def buildChildArgv (alloc : Nat → Bool) (task : Task) : Option (List (Option Str)) :=
  if !alloc 0 then none
  else if !alloc 1 then none
  else (copyArgs alloc 2 task.args).map fun l => some (cstr task.execName) :: l ++ [none]

theorem copyArgs_eq_some_iff {alloc : Nat → Bool} {n : Nat} {args : List Str}
    {argv : List (Option Str)} :
    copyArgs alloc n args = some argv ↔
      (∀ j < args.length, alloc (n + j) = true) ∧ argv = args.map fun a => some (cstr a) := by
  induction args generalizing n argv with
  | nil =>
      rw [copyArgs, Option.some.injEq, eq_comm]
      simp
  | cons a args ih =>
      have hfirst : (∀ j < args.length + 1, alloc (n + j) = true) ↔
          alloc n = true ∧ ∀ j < args.length, alloc (n + 1 + j) = true := by
        rw [Nat.forall_lt_succ_left]
        simp only [Nat.add_zero, Nat.add_assoc, Nat.add_comm 1]
      rw [copyArgs, List.length_cons, hfirst]
      cases alloc n with
      | false => simp
      | true =>
          simp only [if_true, true_and, Option.map_eq_some_iff, ih, and_assoc, exists_and_left,
            exists_eq_left, List.map_cons, eq_comm (b := argv)]

/-- `buildChildArgv` returns a vector if all allocations succeed, and it has every string up to its
first NUL. -/
theorem buildChildArgv_eq_some_iff {alloc : Nat → Bool} {task : Task} {argv : List (Option Str)} :
    buildChildArgv alloc task = some argv ↔
      (∀ i < task.args.length + 2, alloc i = true) ∧
        argv = (task.execName :: task.args).map (fun s => some (cstr s)) ++ [none] := by
  have hfirst : (∀ i < task.args.length + 2, alloc i = true) ↔
      alloc 0 = true ∧ alloc 1 = true ∧ ∀ j < task.args.length, alloc (2 + j) = true := by
    rw [Nat.forall_lt_succ_left, Nat.forall_lt_succ_left]
    simp only [Nat.zero_add, Nat.add_comm 2, Nat.add_assoc]
  rw [buildChildArgv, hfirst]
  cases alloc 0 with
  | false => simp
  | true =>
      cases alloc 1 with
      | false => simp
      | true =>
          simp only [Bool.not_true, Bool.false_eq_true, if_false, true_and, Option.map_eq_some_iff,
            copyArgs_eq_some_iff, and_assoc, exists_and_left, exists_eq_left, List.map_cons,
            eq_comm (b := argv)]

/-- `LinuxProc::startChild`; `chdirOk` says whether `chdir(task.workDir)` succeeds. -/
def startChild (chdirOk : Bool) (alloc : Nat → Bool) (task : Task) : ChildAction :=
  if !chdirOk then .exit 1
  else
    match buildChildArgv alloc task with
    | none => .exit 1
    | some argv => .execve (cstr task.execName) argv

namespace LinuxProc

/-- `LinuxProc::LinuxProc` and `LinuxProc::init`. -/
def init : LinuxProc := ⟨0, -1, 0, -1⟩

/-- `LinuxProc::epollFin`. -/
def epollFin (p : LinuxProc) : LinuxProc := { p with mEpollFd := -1, mMasterFD := -1 }

/-- `LinuxProc::isRunning`. -/
def isRunning (p : LinuxProc) (pick : Int) (k : Children) : Bool × LinuxProc × Children :=
  let (ret, status, k) := k.waitpid p.mPid pick
  if ret = -1 then (false, p.epollFin, k)
  else if ret = 0 then (true, p, k)
  else if wIfExited status || wIfSignaled status then
    (false, { p with mExitCode := status }.epollFin, k)
  else (false, p.epollFin, k)

/-- `LinuxProc::exitCode`: `none` is an error. -/
def exitCode (p : LinuxProc) (pick : Int) (k : Children) : Option Int × LinuxProc × Children :=
  let (running, p, k) := p.isRunning pick k
  if running then (none, p, k) else (some p.mExitCode, p, k)

/-- `LinuxProc::epollInit`: 0 or 1, and the member it sets. -/
def epollInit (p : LinuxProc) (env : StartEnv) : Nat × LinuxProc :=
  match env.epollCreate with
  | none => (1, { p with mEpollFd := -1 })
  | some fd => (if env.epollCtlOk then 0 else 1, { p with mEpollFd := fd })

/-- `LinuxProc::start` in the parent process: 0 or 1. -/
def start (p : LinuxProc) (env : StartEnv) (k : Children) : Nat × LinuxProc × Children :=
  let (running, p, k) := p.isRunning env.pick k
  if running then (1, p, k)
  else if env.isAdmin then (1, p, k)
  else
    let p := { p with mMasterFD := -1, mExitCode := 0 }
    match env.forkpty with
    | none => (1, { p with mPid := -1 }, k)
    | some fd =>
      let (pid, k) := k.fork
      let p := { p with mPid := pid, mMasterFD := fd }
      if !env.getFlOk then (1, p, k.kill pid)
      else if !env.setFlOk then (1, p, k.kill pid)
      else
        let (rc, p) := p.epollInit env
        if rc ≠ 0 then (1, p.epollFin, k.kill pid)
        else (0, p, k)

/-- `LinuxProc::stopImpl`. -/
def stopImpl (p : LinuxProc) (k : Children) : Children := k.kill p.mPid

end LinuxProc

end SimpleTaskQueue
