import SimpleTaskQueue.Refinement.Clients
/-!
# SimpleTaskQueue.Properties.Clients

**Local or remote makes no difference.** A client of a `SQLiteQueueList` and a client of a
`GRPCQueueList`, started on the same server, have the same sessions: the same lines, interleaved in
the same way with the threads of the queues, show the same texts and end with the same codes. What
gets lost on the way to the remote one is excluded (`Agrees`).
-/

namespace SimpleTaskQueue

open Sqlite Runs Service

namespace CLI

section Sessions

variable {d : Directory} {S : Session} {es : List SessionEvent} {adm : Session → SessionMove → Prop}
  {l : QueueList.Opts} {opts : Queue.Opts} {address : Str} {port : Nat}
  {cs : List (CLIAction ServiceAction × Shown)}

/-- A session of the local client. -/
abbrev SqliteSession (l : QueueList.Opts) (opts : Queue.Opts) :
    QueueList Nat Service → List (CLIAction ServiceAction × Shown) → QueueList Nat Service → Prop :=
  Run (QueueList.step (sqliteTerminal l opts)) (QueueList.Agrees fun k _ => some k)

/-- A session of the remote client. -/
abbrev GRPCSession (l : QueueList.Opts) (opts : Queue.Opts) :
    QueueList Str Service → List (CLIAction ServiceAction × Shown) → QueueList Str Service → Prop :=
  Run (QueueList.step (grpcTerminal l opts)) (QueueList.Agrees fun name c => c.getQueue name)

theorem alike_start (hs : Ready S.server) :
    Alike (QueueList.start (sqliteTerminal l opts) address port S.server)
      (QueueList.start (grpcTerminal l opts) address port S.server) :=
  ⟨rfl, rfl, rfl, .atList 0, QueueList.all_init l, hs⟩

/-- The clients in lock step. -/
theorem lockStep : LockStep (QueueList.step (sqliteTerminal l opts))
    (QueueList.Agrees fun k _ => some k) (QueueList.step (grpcTerminal l opts))
    (QueueList.Agrees fun name c => c.getQueue name) Alike where
  admits h := h.agrees_iff.symm
  same h ha := step_alike h ha

end Sessions

/-! ### A session -/

/-- Pairs of an option and its value. -/
def pairs : List Str → List (Str × Str)
  | option :: value :: words => (option, value) :: pairs words
  | _ => []

/-- The values of a long option in a command. -/
def given (words : List Str) (option : String) : List Str :=
  ((pairs words.tail).filter fun p => p.1 = "--".toList ++ option.toList).map Prod.snd

def decimal (s : Str) : Except Str Nat :=
  if s.all Char.isDigit then .ok (s.foldl (fun n c => 10 * n + (c.toNat - 48)) 0)
  else .error ("Argument '".toList ++ s ++ "' failed to parse".toList)

/-- Long options with a value behind each of them. -/
def longOptions (defaults : List (String × Str)) : Options where
  help := println "Usage:".toList
  parse words :=
    let string := fun option =>
      match ((given words option).getLast?).or (defaults.lookup option) with
      | some v => .ok v
      | none => .error "Option has no value".toList
    .ok {
      count := fun option => (given words option).length
      string := string
      u8 := fun option => (string option).bind decimal
      i32 := fun option => ((string option).bind decimal).map Int.ofNat
      strings := fun option => .ok (given words option)
      i32s := fun option => ((given words option).mapM decimal).map (List.map Int.ofNat) }

def listOptions : QueueList.Opts :=
  ⟨longOptions [], longOptions [], longOptions [], longOptions []⟩

def queueOptions : Queue.Opts :=
  ⟨longOptions [("mode", "1".toList)], longOptions [("mode", "1".toList), ("id", "0".toList)],
    longOptions [("mode", "1".toList)], longOptions [], fun cwd => longOptions [("workDir", cwd)],
    longOptions [], longOptions [], longOptions [], longOptions [], longOptions []⟩

def LineEnv.ok : LineEnv := ⟨.ok, fun _ => .rowid, true, some "/".toList, ["total 0".toList]⟩

def typed (line : String) : CLIAction ServiceAction := .line .ok line.toList

/-- A queue is created and entered, and gets a task, which its thread takes up. -/
def evening : List (CLIAction ServiceAction) :=
  [typed "create --name b", typed "list", typed "b", typed "add --exec /bin/ls --args -l",
    typed "list --mode 1", typed "start", .own (.worker 0 0 .go), .own (.worker 0 0 (.init .rowid)),
    typed "current", typed "isRunning", typed "output", typed "remove --id 7", typed "nonsense",
    typed "exit", typed "rename --source b --target c", typed "exit"]

theorem evening_runs : (script (QueueList.step (sqliteTerminal listOptions queueOptions))
    (QueueList.Agrees fun k _ => some k)
    (QueueList.start (sqliteTerminal listOptions queueOptions) "localhost".toList 12345 (new ∅))
    evening).isSome := by
  decide +kernel

end CLI

end SimpleTaskQueue
