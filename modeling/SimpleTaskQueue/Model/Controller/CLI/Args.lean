import SimpleTaskQueue.Core.Delimited
import SimpleTaskQueue.Core.Runs
import SimpleTaskQueue.Model.Proc.Task
/-!
# SimpleTaskQueue.Model.Controller.CLI.Args

`Args` (`controller/cli/args.cpp`): the prompt of the client, which reads a line, splits it at the
spaces, and keeps the words twice, as `m_args` and as an array of C strings `m_argv`.

The C strings are numbered in the order of their allocation. An access to `m_argv` is in bounds of
the array that was allocated, or the function ends in a `fault`. Only `std::vector` knows the
capacity of `m_args`, so it is an answer of the environment (`GetArgsEnv`), like the allocations.
-/

namespace SimpleTaskQueue

open Delimited Runs

/-- The members of the class. -/
structure Args where
  mArgs : List Str
  /-- `m_args.capacity()`. -/
  capacity : Nat
  /-- The array that was allocated, with the numbers of the strings; `none` is `nullptr`. -/
  mArgv : Option (List (Option Nat))
  mArgvLen : Nat
  deriving Repr, DecidableEq

/-- The C strings allocated so far, and the numbers of those that were deleted. -/
structure CStrings where
  made : List Str
  deleted : List Nat
  deriving Repr, DecidableEq

/-- The object, its strings, and the lines of `std::cin` that were not read yet. -/
structure Prompt where
  args : Args
  strings : CStrings
  input : List Str
  deriving Repr, DecidableEq

/-- What a call of `getArgs` finds. -/
structure GetArgsEnv where
  /-- `keepRunning`, in the rounds of the loop. -/
  keepRunning : Nat → Bool
  /-- `m_args.capacity()` when the line is split. -/
  capacity : Nat
  /-- The allocation of the array, if it comes to that. -/
  newArgv : Bool
  /-- The allocation of the string for the word `i`. -/
  newString : Nat → Bool

/-- The client runs, every allocation succeeds, and the capacity is that. -/
def GetArgsEnv.ok (capacity : Nat) : GetArgsEnv := ⟨fun _ => true, capacity, true, fun _ => true⟩

/-- How far a call of `getArgs` got. -/
inductive GetArgs
  /-- It is still reading. -/
  | reading
  /-- It used `m_argv` out of bounds. -/
  | fault
  | returned (rc : Nat) (s : Prompt)
  deriving Repr, DecidableEq

namespace Args

/-- `Args::Args`; the vector has at least 16 elements. -/
def new (capacity : Nat) : Args := ⟨List.replicate 16 [], capacity, none, 17⟩

/-- `Args::init`: 0 or 1. -/
def init (a : Args) (newOk : Bool) : Nat × Args :=
  if !newOk then (1, { a with mArgv := none, mArgvLen := 0 })
  else (0, { a with mArgv := some (List.replicate (a.capacity + 1) none), mArgs := [] })

/-- `Args::argc`. -/
def argc (a : Args) : Nat := a.mArgs.length

/-- The loop of `getArgs` that splits a line, with `m_args`; each round shortens the line. -/
def tokenLoop : Nat → Str → List Str → List Str
  | 0, line, mArgs => mArgs ++ [line]
  | n + 1, line, mArgs =>
    match find [' '] line with
    | some pos =>
      let token := line.take pos
      tokenLoop n (line.drop (pos + 1)) (if token.isEmpty then mArgs else mArgs ++ [token])
    | none => mArgs ++ [line]

/-- The words of a line, as `getArgs` splits it. -/
def tokens (line : Str) : List Str := tokenLoop line.length line []

/-- `std::getline`: the line is left empty when there is none. -/
def getline : List Str → Str × List Str
  | [] => ([], [])
  | line :: input => (line, input)

/-- Up to `n` rounds of the loop of `getArgs` that reads a line: `m_args` and the rest of the input
when it ends. -/
def readLoop (keepRunning : Nat → Bool) : Nat → Nat → List Str → List Str →
    Option (List Str × List Str)
  | 0, _, _, _ => none
  | n + 1, i, mArgs, input =>
    if keepRunning i then
      let (line, input) := getline input
      if line.isEmpty then readLoop keepRunning n (i + 1) [] input
      else some (tokens line, input)
    else some (mArgs, input)

/-- The loop of `cleanArgv` from `i` on; `none` is an access out of bounds. -/
def cleanLoop : Nat → Nat → List (Option Nat) → List Nat → Option (List (Option Nat) × List Nat)
  | 0, _, mArgv, deleted => some (mArgv, deleted)
  | n + 1, i, mArgv, deleted =>
    match mArgv[i]? with
    | none => none
    | some none => cleanLoop n (i + 1) mArgv deleted
    | some (some string) => cleanLoop n (i + 1) (mArgv.set i none) (deleted ++ [string])

/-- The loop of `getArgs` that copies the words, from `i` on: whether all allocations succeeded, the
array, and the strings; `none` is an access out of bounds. -/
def copyLoop (newString : Nat → Bool) : Nat → List Str → List (Option Nat) → List Str →
    Option (Bool × List (Option Nat) × List Str)
  | _, [], mArgv, made => some (true, mArgv, made)
  | i, word :: words, mArgv, made =>
    if mArgv.length ≤ i then none
    else if newString i then
      copyLoop newString (i + 1) words (mArgv.set i (some made.length)) (made ++ [word ++ [nul]])
    else some (false, mArgv.set i none, made)

end Args

namespace Prompt

/-- After `Args::init`, on the lines `input`. -/
def fresh (capacity : Nat) (input : List Str) : Prompt :=
  ⟨((Args.new capacity).init true).2, ⟨[], []⟩, input⟩

/-- `Args::cleanArgv`. -/
def cleanArgv (s : Prompt) : Option Prompt :=
  match s.args.mArgv with
  | none => some s
  | some mArgv => (Args.cleanLoop (s.args.capacity + 1) 0 mArgv s.strings.deleted).map fun r =>
    { s with
      args := { s.args with mArgv := some r.1 },
      strings := { s.strings with deleted := r.2 } }

/-- `Args::getArgs` from the copying of the words on. -/
def copyArgv (env : GetArgsEnv) (s : Prompt) : GetArgs :=
  match s.args.mArgv with
  | none => .fault
  | some mArgv =>
    match Args.copyLoop env.newString 0 s.args.mArgs mArgv s.strings.made with
    | none => .fault
    | some (ok, mArgv, made) =>
      let s := { s with
        args := { s.args with mArgv := some mArgv }, strings := { s.strings with made := made } }
      if ok then
        if mArgv.length ≤ s.args.mArgs.length then .fault
        else
          .returned 0 { s with
            args := { s.args with mArgv := some (mArgv.set s.args.mArgs.length none) } }
      else
        match s.cleanArgv with
        | none => .fault
        | some s => .returned 1 s

/-- `Args::getArgs` behind its first loop. -/
def fillArgv (env : GetArgsEnv) (s : Prompt) : GetArgs :=
  match s.cleanArgv with
  | none => .fault
  | some s =>
    let newSize := s.args.capacity + 1
    if s.args.mArgvLen < newSize then
      let mArgvLen := if s.args.mArgv.isSome then 0 else s.args.mArgvLen
      if env.newArgv then
        copyArgv env { s with
          args := { s.args with
            mArgv := some (List.replicate newSize none), mArgvLen := newSize } }
      else .returned 1 { s with args := { s.args with mArgv := none, mArgvLen := mArgvLen } }
    else copyArgv env s

/-- `Args::getArgs`, with up to `n` rounds of its first loop. -/
def getArgs (n : Nat) (env : GetArgsEnv) (s : Prompt) : GetArgs :=
  match Args.readLoop env.keepRunning n 0 s.args.mArgs s.input with
  | none => .reading
  | some (mArgs, input) =>
    fillArgv env { s with
      args := { s.args with mArgs := mArgs, capacity := env.capacity }, input := input }

/-- The calls of `getArgs` that return, with a bound on the rounds of the first loop; nothing comes
after a fault. -/
def step : Machine (Option Prompt) (Nat × GetArgsEnv) (Option Nat)
  | none, _ => none
  | some s, (n, env) =>
    match s.getArgs n env with
    | .reading => none
    | .fault => some (none, none)
    | .returned rc s => some (some rc, some s)

end Prompt

end SimpleTaskQueue
