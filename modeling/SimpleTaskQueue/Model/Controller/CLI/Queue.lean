import SimpleTaskQueue.Model.Controller.CLI.Args
import SimpleTaskQueue.Model.Dao.IQueueList
/-!
# SimpleTaskQueue.Model.Controller.CLI.Queue

The commands of the client on the queue it has entered (`Queue`, `controller/cli/queue.cpp`). A
command reads its arguments (`Early`) and asks something of the queue (`Job`), of which it prints
the outcome. Where the queue is does not matter: a `Job` runs on any `IQueue`.

* cxxopts is not part of the repository: of its `Options` we have the text of the help and the
  function `parse`, of the result what the commands ask it.
* What is logged is left out.
-/

namespace SimpleTaskQueue

open Sqlite

/-- `fmt::println`. -/
def println (s : Str) : Str := s ++ ['\n']

/-- `fmt::println` of an integer. -/
def printInt (n : Int) : Str := println (toString n).toList

/-- `Task::print`. -/
def Task.print (t : Task) : Str :=
  println ("execName: ".toList ++ t.execName) ++ println "args: ".toList ++
    t.args.flatMap println ++ println [] ++ println ("workDir: ".toList ++ t.workDir) ++
    "ID: ".toList ++ printInt t.ID ++ "exitCode: ".toList ++ printInt t.exitCode ++
    println ("isSuccess: ".toList ++ if t.isSuccess then ['1'] else ['0'])

namespace CLI

/-! ### Arguments -/

/-- `cxxopts::ParseResult`: how often an option was given, and its value as a type. An error is the
`what()` of the exception. -/
structure ParseResult where
  count : String → Nat
  string : String → Except Str Str
  u8 : String → Except Str Nat
  i32 : String → Except Str Int
  strings : String → Except Str (List Str)
  i32s : String → Except Str (List Int)

/-- `cxxopts::Options`. -/
structure Options where
  help : Str
  parse : List Str → Except Str ParseResult

/-- The part of a command before it asks for something: it can return, with what it has printed. -/
abbrev Early := Except (Str × Int)

variable {α : Type}

/-- Print the help, and return. -/
def usage (o : Options) (ret : Int) : Early α := .error (o.help, ret)

/-- `parse` sees C strings; the option `help` comes first. -/
def parse (o : Options) (words : List Str) : Early ParseResult :=
  match o.parse (words.map cstr) with
  | .error e => .error (println e, 1)
  | .ok result => if result.count "help" ≠ 0 then usage o 0 else .ok result

/-- `as`. -/
def value : Except Str α → Early α
  | .error e => .error (println e, 1)
  | .ok a => .ok a

/-! ### Functions by name -/

/-- `m_funcs`; `none` is a `std::function` without a target. -/
abbrev Funcs (C : Type) := AList fun _ : Str => Option C

/-- `m_funcs` after the assignments of `init`. -/
def Funcs.of {C : Type} (l : List (String × C)) : Funcs C :=
  l.foldl (fun mFuncs p => mFuncs.insert p.1.toList (some p.2)) ∅

/-- `m_funcs[word]`: a word that is not there gets a function without a target. -/
def Funcs.at {C : Type} (mFuncs : Funcs C) (word : Str) : Option C × Funcs C :=
  match mFuncs.lookup word with
  | some f => (f, mFuncs)
  | none => (none, mFuncs.insert word none)

/-! ### Commands -/

/-- The answers of the system to a line. -/
structure LineEnv where
  create : CreateEnv
  /-- For the calls on a queue, in their order. -/
  sqlite : Nat → Env
  /-- Can a `GRPCQueue` be allocated? -/
  newQueue : Bool
  /-- `getcwd`. -/
  cwd : Option Str
  /-- What the process of the queue gives out. -/
  output : List Str

/-- What a command asks of the queue. -/
inductive Job
  /-- A call; what is printed before it, and what of its output. -/
  | call (before : Str) (a : Action) (shown : Output → Option (Str × Int))
  | remove (ids : List Int)
  | isRunning
  | output

/-- A command. -/
abbrev QueueCommand := LineEnv → List Str → Early Job

namespace Queue

/-- The members of the class for the arguments; of `m_addOpts`, for the working directory. -/
structure Opts where
  mListOpts : Options
  mDetailsOpts : Options
  mClearOpts : Options
  mCurrentOpts : Options
  mAddOpts : Str → Options
  mRemoveOpts : Options
  mIsRunningOpts : Options
  mStartOpts : Options
  mStopOpts : Options
  mOutputOpts : Options

/-- The texts behind a call: `failed` if it returned an error. -/
def done (failed : String) : Output → Option (Str × Int)
  | .code rc | .task rc _ =>
    some (if rc ≠ .OK then (println failed.toList, 1) else (println "done".toList, 0))
  | _ => none

/-- The task, or `failed`. -/
def showTask (failed : String) : Output → Option (Str × Int)
  | .task rc out => some (if rc ≠ .OK then (println failed.toList, 1) else (out.print, 0))
  | _ => none

def printList (name : String) : Output → Option (Str × Int)
  | .ids exitCode out =>
    some (if exitCode ≠ .OK then (println "Fail to list tasks".toList, 1)
      else (println [] ++
        if out.isEmpty then println (name.toList ++ " list is empty".toList)
        else out.flatMap printInt, 0))
  | _ => none

/-- The argument `PENDING` of a command. -/
def PENDING : Nat := 1

/-- The argument `FINISHED` of a command. -/
def FINISHED : Nat := 2

variable (o : Opts)

def list : QueueCommand := fun env words => do
  if words.length = 1 then usage o.mListOpts 0
  let result ← parse o.mListOpts words
  let mode ← value (result.u8 "mode")
  if mode = PENDING then
    return .call (println "listing pending list...".toList) (.listPending (env.sqlite 0))
      (printList "pending")
  if mode = FINISHED then
    return .call (println "listing finished list...".toList) (.listFinished (env.sqlite 0))
      (printList "finished")
  usage o.mListOpts 1

def details : QueueCommand := fun env words => do
  if words.length = 1 then usage o.mDetailsOpts 0
  let result ← parse o.mDetailsOpts words
  let mode ← value (result.u8 "mode")
  let id ← value (result.i32 "id")
  if mode = PENDING then
    return .call (println "pending task details...".toList)
      (.pendingDetails (env.sqlite 0) id Task.blank) (showTask "Fail to get task details")
  if mode = FINISHED then
    return .call (println "finished task details...".toList)
      (.finishedDetails (env.sqlite 0) id Task.blank) (showTask "Fail to get task details")
  usage o.mDetailsOpts 1

def clear : QueueCommand := fun env words => do
  if words.length = 1 then usage o.mClearOpts 0
  let result ← parse o.mClearOpts words
  let mode ← value (result.u8 "mode")
  if mode = PENDING then
    return .call [] (.clearPending (env.sqlite 0)) (done "Fail to clear tasks")
  if mode = FINISHED then
    return .call [] (.clearFinished (env.sqlite 0)) (done "Fail to clear tasks")
  usage o.mClearOpts 1

/-- The arguments of a command that has none but the help. -/
def noArguments (opts : Options) (words : List Str) : Early Unit := do
  if words.length > 2 then usage opts 1
  let _ ← parse opts words

def current : QueueCommand := fun _ words => do
  noArguments o.mCurrentOpts words
  return .call [] (.currentTask Task.blank) (showTask "Fail to get current task")

def add (workDir : Str) : QueueCommand := fun env words => do
  if words.length = 1 then usage (o.mAddOpts workDir) 0
  let result ← parse (o.mAddOpts workDir) words
  if result.count "exec" < 1 then .error (println "No file to execute".toList, 1)
  let workDir ← value (result.string "workDir")
  let execName ← value (result.string "exec")
  let args ← if result.count "args" ≠ 0 then value (result.strings "args") else pure []
  let task := { Task.blank with workDir := workDir, execName := execName, args := args }
  return .call [] (.addTask (env.sqlite 0) task) (done "Fail to add task")

def remove : QueueCommand := fun _ words => do
  if words.length = 1 then usage o.mRemoveOpts 0
  let result ← parse o.mRemoveOpts words
  if result.count "id" = 0 then usage o.mRemoveOpts 1
  let id ← value (result.i32s "id")
  return .remove id

def isRunning : QueueCommand := fun _ words => do
  noArguments o.mIsRunningOpts words
  return .isRunning

def start : QueueCommand := fun _ words => do
  noArguments o.mStartOpts words
  return .call [] .start (done "Fail to start the queue")

def stop : QueueCommand := fun _ words => do
  noArguments o.mStopOpts words
  return .call [] .stop fun _ => some (println "done".toList, 0)

def output : QueueCommand := fun _ words => do
  noArguments o.mOutputOpts words
  return .output

/-- `m_funcs` after `Queue::init`, in the directory `cwd`. -/
def init (cwd : Str) : Funcs QueueCommand :=
  .of [("list", list o), ("details", details o), ("clear", clear o), ("remove", remove o),
    ("current", current o), ("add", add o cwd), ("isRunning", isRunning o), ("start", start o),
    ("stop", stop o), ("output", output o)]

end Queue

/-! ### The queue -/

variable {κ σ : Type} (Q : IQueue κ σ) (mQueue : κ)

/-- The loop of `Queue::remove` from the call `i` on. -/
def removeLoop (sqlite : Nat → Env) : Nat → List Int → σ → Option (Str × σ)
  | _, [], s => some (println "done".toList, s)
  | i, id :: ids, s =>
    match Q.call mQueue (.removeTask (sqlite i) id) s with
    | some (.code rc, s) =>
      (removeLoop sqlite (i + 1) ids s).map fun r =>
        ((if rc ≠ .OK then "Fail to remove task: ".toList ++ printInt id else []) ++ r.1, r.2)
    | _ => none

/-- What the command prints, and its code. -/
def Job.run (env : LineEnv) : Job → σ → Option ((Str × Int) × σ)
  | call before a shown, s =>
    (Q.call mQueue a s).bind fun r => (shown r.1).map fun p => ((before ++ p.1, p.2), r.2)
  | remove ids, s => (removeLoop Q mQueue env.sqlite 0 ids s).map fun r => ((r.1, 0), r.2)
  | isRunning, s => some ((println (if Q.isRunning mQueue s then "ture" else "false").toList, 0), s)
  | output, s => some (((Q.readCurrentOutput mQueue env.output s).flatMap println, 0), s)

end CLI

end SimpleTaskQueue
