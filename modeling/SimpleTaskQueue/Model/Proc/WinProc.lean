import SimpleTaskQueue.Model.Proc.Task
/-!
# SimpleTaskQueue.Model.Proc.WinProc

`WinProc` (`model/proc/winproc.cpp`): the process interface of the queue over pipes, a pseudo
console and `CreateProcessA`. As in `SimpleTaskQueue.Model.Proc.LinuxProc` every function takes
the children of the server process and returns them, and what the system calls answer is an
argument (`WinStartEnv`). Of the handle of a pipe only that it is `NULL` or not is kept; the handle
of a process is the number of the child, and so is that of the pseudo console it is created on. The
reader thread and its buffer are not part of this module.
-/

namespace SimpleTaskQueue

/-- A `DWORD`. The `i32` of Windows has the same 32 bits. -/
abbrev DWord := BitVec 32

/-- `STILL_ACTIVE`. -/
def stillActive : DWord := 259

/-- A child of the server. -/
structure WinChild where
  /-- Its console was closed while it ran. -/
  consoleClosed : Bool
  /-- Its exit code, once it ended. -/
  code : Option DWord
  deriving Repr, DecidableEq

/-- The children in the order of their creation. -/
abbrev WinChildren := List WinChild

/-- `GetExitCodeProcess`: `none` is `FALSE`. -/
def WinChildren.getExitCodeProcess (k : WinChildren) (hProcess : Nat) : Option DWord :=
  k[hProcess]?.map fun child => child.code.getD stillActive

/-- `ClosePseudoConsole`. -/
def WinChildren.closePseudoConsole (k : WinChildren) (console : Nat) : WinChildren :=
  k.modify console fun child => if child.code = none then { child with consoleClosed := true }
    else child

/-- A child ends. -/
def WinChildren.ends (k : WinChildren) (i : Nat) (code : DWord) : Option WinChildren :=
  match k[i]? with
  | some ⟨closed, none⟩ => some (k.set i ⟨closed, some code⟩)
  | _ => none

/-- The members of the class. -/
structure WinProc where
  mChildStdoutRead : Bool
  mChildStdoutWrite : Bool
  mChildStdinRead : Bool
  mChildStdinWrite : Bool
  hProcess : Option Nat
  hThread : Option Nat
  mPseudoConsole : Option Nat
  mExitCode : DWord
  deriving Repr, DecidableEq

/-- The answers of the system during `WinProc::start`. -/
structure WinStartEnv where
  isAdmin : Bool
  createStdoutPipe : Bool
  createStdinPipe : Bool
  createPseudoConsole : Bool
  heapAlloc : Bool
  initializeAttributeList : Bool
  updateAttribute : Bool
  /-- The allocation of the command line. -/
  alloc : Bool
  createProcess : Bool
  deriving Repr, DecidableEq

/-- A system in which every call succeeds. -/
def WinStartEnv.ok : WinStartEnv := ⟨false, true, true, true, true, true, true, true, true⟩

/-- The command line that `WinProc::CreateChildProcess` builds. -/
def WinProc.cmdLine (task : Task) : Str :=
  if task.args.isEmpty then task.execName
  else task.args.foldl (fun cmdLine arg => cmdLine ++ arg ++ [' ']) (task.execName ++ [' '])

namespace WinProc

/-- `WinProc::WinProc`. -/
def new : WinProc := ⟨false, false, false, false, none, none, none, 0⟩

/-- `WinProc::resetHandle`. -/
def resetHandle (p : WinProc) (k : WinChildren) : WinProc × WinChildren :=
  ({ new with mExitCode := p.mExitCode },
    match p.mPseudoConsole with
    | none => k
    | some console => k.closePseudoConsole console)

/-- `WinProc::init`; `m_deque` is not part of this module. -/
def init (p : WinProc) (k : WinChildren) : WinProc × WinChildren :=
  { p with hProcess := none, hThread := none }.resetHandle k

/-- `WinProc::isRunning`. -/
def isRunning (p : WinProc) (k : WinChildren) : Bool × WinProc :=
  match p.hProcess with
  | none => (false, p)
  | some hProcess =>
    match k.getExitCodeProcess hProcess with
    | none => (true, p)
    | some currentExitCode =>
      if currentExitCode = stillActive then (true, p)
      else (false, { p with mExitCode := currentExitCode })

/-- `WinProc::exitCode`: `none` is an error. -/
def exitCode (p : WinProc) (k : WinChildren) : Option DWord × WinProc :=
  let (running, p) := p.isRunning k
  if running then (none, p) else (some p.mExitCode, p)

/-- `WinProc::prepareStartupInformation`: 0 or 1. -/
def prepareStartupInformation (env : WinStartEnv) : Nat :=
  if !env.heapAlloc then 1
  else if !env.initializeAttributeList then 1
  else if !env.updateAttribute then 1
  else 0

/-- `WinProc::CreateChildProcess`: 0 or 1, and the command line that `CreateProcessA` got. -/
def createChildProcess (p : WinProc) (env : WinStartEnv) (task : Task) (k : WinChildren) :
    Nat × WinProc × WinChildren × Option Str :=
  if task.execName.isEmpty then (1, p, k, none)
  else if prepareStartupInformation env ≠ 0 then (1, p, k, none)
  else if !env.alloc then (1, p, k, none)
  else if !env.createProcess then (1, p, k, some (cmdLine task))
  else
    (0, { p with hProcess := some k.length, hThread := some k.length }, k ++ [⟨false, none⟩],
      some (cmdLine task))

/-- `WinProc::start`: 0 or 1. -/
def start (p : WinProc) (env : WinStartEnv) (task : Task) (k : WinChildren) :
    Nat × WinProc × WinChildren :=
  let (running, p) := p.isRunning k
  if running then (1, p, k)
  else if env.isAdmin then (1, p, k)
  else
    let (p, k) := p.resetHandle k
    if !env.createStdoutPipe then (1, p, k)
    else
      let p := { p with mChildStdoutRead := true, mChildStdoutWrite := true }
      if !env.createStdinPipe then (1, p, k)
      else
        let p := { p with mChildStdinRead := true, mChildStdinWrite := true }
        if !env.createPseudoConsole then (1, p.resetHandle k)
        else
          let p := { p with mPseudoConsole := some k.length }
          let (rc, p, k, _) := p.createChildProcess env task k
          if rc ≠ 0 then (1, p.resetHandle k)
          else (0, { p with mChildStdoutWrite := false, mExitCode := stillActive }, k)

/-- `WinProc::stopImpl`. -/
def stopImpl (p : WinProc) (k : WinChildren) : WinProc × WinChildren :=
  match p.mPseudoConsole with
  | none => p.resetHandle k
  | some console => { p with mPseudoConsole := none }.resetHandle (k.closePseudoConsole console)

end WinProc

end SimpleTaskQueue
