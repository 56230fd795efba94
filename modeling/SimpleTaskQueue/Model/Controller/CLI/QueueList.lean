import SimpleTaskQueue.Model.Controller.CLI.Queue
/-!
# SimpleTaskQueue.Model.Controller.CLI.QueueList

The prompts of the client behind `connect` (`QueueList`, `controller/cli/queuelist.cpp`, and
`Queue::run`, `controller/cli/queue.cpp`). A word that is no command of the list is the name of a
queue to enter (`enter`), which has a prompt of its own until `exit`.

The two nested loops are a machine that reads a line in each step. Between the lines the queues make
steps of their own. An empty line is no line: `getArgs` goes on reading.
-/

namespace SimpleTaskQueue

open Runs Sqlite

namespace CLI

/-- What a command asks of the list. -/
inductive ListJob
  | create (name : Str)
  | delete (name : Str)
  | list
  | rename (source target : Str)

/-- A command. -/
abbrev ListCommand := List Str → Early ListJob

namespace QueueList

/-- The members of the class for the arguments. -/
structure Opts where
  mCreateOpts : Options
  mDeleteOpts : Options
  mListOpts : Options
  mRenameOpts : Options

/-- The value of an option that must be there and not be empty. -/
def required (o : Options) (result : ParseResult) (option : String) : Early Str := do
  if result.count option = 0 then usage o 1
  let name ← value (result.string option)
  if name.isEmpty then usage o 1
  return name

/-- The shape of `create` and `Delete`. -/
def nameOf (o : Options) (words : List Str) : Early Str := do
  if words.length = 1 then usage o 0
  let result ← parse o words
  required o result "name"

variable (o : Opts)

def create : ListCommand := fun words => do
  let name ← nameOf o.mCreateOpts words
  return .create name

def delete : ListCommand := fun words => do
  let name ← nameOf o.mDeleteOpts words
  return .delete name

def list : ListCommand := fun words => do
  if words.length > 1 then usage o.mListOpts 1
  let _ ← parse o.mListOpts words
  return .list

def rename : ListCommand := fun words => do
  if words.length = 1 then usage o.mRenameOpts 0
  let result ← parse o.mRenameOpts words
  let source ← required o.mRenameOpts result "source"
  let target ← required o.mRenameOpts result "target"
  return .rename source target

/-- `m_funcs` after `QueueList::init`. -/
def init : Funcs ListCommand :=
  .of [("create", create o), ("delete", delete o), ("list", list o), ("rename", rename o)]

end QueueList

section Run

variable {κ σ β : Type}

/-- What a call on the list prints, and its code. -/
def shownCode (failed : String) (r : ErrCode × σ) : (Str × Int) × σ :=
  (if r.1 ≠ .OK then (println failed.toList, 1) else (println "done".toList, 0), r.2)

/-- What the command prints, and its code. A name with a `/` leads out of the directory, and is not
covered. -/
def ListJob.run (L : IQueueList κ σ) (env : LineEnv) : ListJob → σ → Option ((Str × Int) × σ)
  | create name, s =>
    if '/' ∈ name then none
    else some (shownCode "Fail to create queue" (L.createQueue env.create name s))
  | delete name, s => some (shownCode "Fail to delete queue" (L.deleteQueue name s))
  | list, s =>
    let r := L.listQueue s
    some (if r.1 ≠ .OK then (println "Fail to list queue".toList, 1)
      else (println [] ++ r.2.flatMap println, 0), s)
  | rename source target, s =>
    some (shownCode "Fail to rename queue" (L.renameQueue source target s))

/-- Where the client is. -/
inductive Where (κ : Type)
  /-- In `QueueList::run`, with its `ret`. -/
  | atList (ret : Int)
  /-- In `Queue::run`, which `enter` has called, with the members and the `ret` of it. -/
  | inQueue (name : Str) (mQueue : κ) (mFuncs : Funcs QueueCommand) (ret : Int)
  /-- `QueueList::run` has returned. -/
  | returned (ret : Int)

/-- The members of `QueueList`, the place in its run, and what holds the queues. -/
structure QueueList (κ σ : Type) where
  mPrefix : Str
  mFuncs : Funcs ListCommand
  place : Where κ
  queues : σ

/-- What there is behind `connect`: the options, the interfaces, and the steps of the queues. -/
structure Terminal (κ σ β : Type) where
  listOpts : QueueList.Opts
  queueOpts : Queue.Opts
  queueList : IQueueList κ σ
  queue : IQueue κ σ
  own : β → σ → Option σ

inductive CLIAction (β : Type)
  /-- `getArgs` reads a line. -/
  | line (env : LineEnv) (line : Str)
  /-- `getArgs` fails. -/
  | failed
  /-- A step of the queues. -/
  | own (b : β)

/-- What a step prints, and the code of the command if there is one. -/
abbrev Shown := Str × Option Int

/-- The prompt and the outcome of a command. -/
def shown (at_ : Str) (p : Str × Int) : Shown := (at_ ++ p.1, some p.2)

namespace QueueList

def helpText : Str :=
  println "Valid command: create delete list rename help exit".toList ++
    println "Please type \"<command> -h\" for more details.".toList ++
    println "Please type \"help\" to show this message.".toList ++
    println "Please type \"exit\" to exit.".toList ++
    println "Or just type queue name which you want to enter".toList

variable (T : Terminal κ σ β)

/-- `QueueList::enter`; `at_` is the prompt. -/
def enter (env : LineEnv) (at_ word : Str) (s : QueueList κ σ) : Shown × QueueList κ σ :=
  let failed := (shown at_ (println "Fail to enter the queue".toList, 1),
    { s with place := .atList 1 })
  match T.queueList.getQueue env.newQueue word s.queues with
  | none => failed
  | some ptr =>
    match env.cwd with
    | none => failed
    | some cwd => ((at_, some 0),
      { s with place := .inQueue word ptr (Queue.init T.queueOpts cwd) 0 })

/-- A round of the loop of `run`, with the words of the line. -/
def round (env : LineEnv) (words : List Str) (ret : Int) (s : QueueList κ σ) :
    Option (Shown × QueueList κ σ) :=
  let at_ := s.mPrefix ++ "> ".toList
  match words with
  | [] => none
  | word :: _ =>
    if words = ["help".toList] then
      some (shown at_ (helpText, 0), { s with place := .atList 0 })
    else if words = ["exit".toList] then some ((at_, none), { s with place := .returned ret })
    else
      match s.mFuncs.at word with
      | (none, mFuncs) => some (enter T env at_ word { s with mFuncs := mFuncs })
      | (some f, mFuncs) =>
        match f words with
        | .error p => some (shown at_ p, { s with mFuncs := mFuncs, place := .atList p.2 })
        | .ok job => (job.run T.queueList env s.queues).map fun r =>
          (shown at_ r.1, ⟨s.mPrefix, mFuncs, .atList r.1.2, r.2⟩)

end QueueList

namespace Queue

def helpText : Str :=
  "Vaild commands: list details clear ".toList ++ "remove current add isRunning ".toList ++
    println "start stop output help exit".toList ++
    println "Please type \"<command> -h\" for more details.".toList ++
    println "Please type \"help\" to show this message.".toList ++
    println "Please type \"exit\" to exit.".toList

variable (T : Terminal κ σ β)

/-- The prompt of the queue. -/
def prompt (s : QueueList κ σ) (name : Str) : Str :=
  s.mPrefix ++ "/".toList ++ name ++ "> ".toList

/-- A round of the loop of `run`, with the words of the line. -/
def round (env : LineEnv) (words : List Str) (name : Str) (mQueue : κ) (mFuncs : Funcs QueueCommand)
    (ret : Int) (s : QueueList κ σ) : Option (Shown × QueueList κ σ) :=
  let at_ := prompt s name
  match words with
  | [] => none
  | word :: _ =>
    if words = ["help".toList] then
      some (shown at_ (helpText, 0), { s with place := .inQueue name mQueue mFuncs 0 })
    else if words = ["exit".toList] then some ((at_, none), { s with place := .atList ret })
    else
      match mFuncs.at word with
      | (none, mFuncs) =>
        some (shown at_ (println ("Invalid command: ".toList ++ word) ++
            println "Please type \"help\" for more info".toList, 1),
          { s with place := .inQueue name mQueue mFuncs 1 })
      | (some f, mFuncs) =>
        match f env words with
        | .error p => some (shown at_ p, { s with place := .inQueue name mQueue mFuncs p.2 })
        | .ok job => (job.run T.queue mQueue env s.queues).map fun r =>
          (shown at_ r.1, { s with place := .inQueue name mQueue mFuncs r.1.2, queues := r.2 })

end Queue

namespace QueueList

/-- Behind `init`, at the first prompt of `run`. -/
def start (T : Terminal κ σ β) (address : Str) (port : Nat) (queues : σ) : QueueList κ σ :=
  ⟨address ++ ":".toList ++ (toString port).toList, init T.listOpts, .atList 0, queues⟩

/-- **The machine.** -/
def step (T : Terminal κ σ β) (s : QueueList κ σ) :
    CLIAction β → Option (Shown × QueueList κ σ)
  | .line env line =>
    if line.isEmpty then none
    else
      match s.place with
      | .atList ret => round T env (Args.tokens line) ret s
      | .inQueue name mQueue mFuncs ret =>
        Queue.round T env (Args.tokens line) name mQueue mFuncs ret s
      | .returned _ => none
  | .failed =>
    let text := println "Fail to get command".toList
    match s.place with
    | .atList _ => some ((s.mPrefix ++ "> ".toList ++ text, none), s)
    | .inQueue name _ _ _ => some ((Queue.prompt s name ++ text, none), s)
    | .returned _ => none
  | .own b => (T.own b s.queues).map fun queues => (([], none), { s with queues := queues })

end QueueList

end Run

end CLI

end SimpleTaskQueue
