import Mathlib.Algebra.Ring.Int.Defs
import Mathlib.Algebra.Ring.Nat
import Mathlib.Data.List.TakeWhile
/-!
# SimpleTaskQueue.Model.Proc.Task

The data every layer passes around (`model/proc/task.hpp`, `model/errmsg.hpp`,
`controller/global/defines.hpp`): strings, error codes, integers, and the `Task`.

A `std::string` is the list of its characters; NUL is one of them, and disappears with
everything behind it when the string crosses a C interface as `const char *` (`cstr`).
`i32` is `int_fast32_t`, 64 bits wide on x86-64 Linux: its values are integers, and only
where a value passes through an `int` of the SQLite interface it is cut to 32 bits
(`toInt32`).
-/

namespace SimpleTaskQueue

/-- `std::string`. -/
abbrev Str := List Char

/-- The NUL character. -/
def nul : Char := Char.ofNat 0

/-- What a reader of `s.c_str()` sees. -/
def cstr (s : Str) : Str := s.takeWhile fun c => c != nul

/-- No character of the string is NUL. -/
def NulFree (s : Str) : Prop := nul ∉ s

instance (s : Str) : Decidable (NulFree s) := inferInstanceAs (Decidable (_ ∉ _))

theorem cstr_of_nulFree {s : Str} (h : NulFree s) : cstr s = s := by
  refine List.takeWhile_eq_self_iff.mpr fun c hc => ?_
  rw [bne_iff_ne]
  intro hc0
  subst hc0
  exact h hc

theorem cstr_nulFree (s : Str) : NulFree (cstr s) := by
  intro h
  have := List.mem_takeWhile_imp h
  simp at this

@[simp] theorem cstr_cstr (s : Str) : cstr (cstr s) = cstr s := cstr_of_nulFree (cstr_nulFree s)

/-- An integer passed as a 32-bit `int`, in two's complement. -/
def toInt32 (n : Int) : Int := n.bmod (2 ^ 32)

/-- The values of a 32-bit `int`. -/
def IsInt32 (n : Int) : Prop := -2 ^ 31 ≤ n ∧ n < 2 ^ 31

instance (n : Int) : Decidable (IsInt32 n) := inferInstanceAs (Decidable (_ ∧ _))

theorem toInt32_isInt32 (n : Int) : IsInt32 (toInt32 n) :=
  ⟨by have := Int.le_bmod (x := n) (m := 2 ^ 32) (by decide); unfold toInt32; omega,
    by have := Int.bmod_lt (x := n) (m := 2 ^ 32) (by decide); unfold toInt32; omega⟩

theorem toInt32_of_isInt32 {n : Int} (h : IsInt32 n) : toInt32 n = n := by
  obtain ⟨h₁, h₂⟩ := h
  exact Int.bmod_eq_of_le (by omega) (by omega)

/-- The `ErrCode_*` values an operation returns. -/
inductive ErrCode
  | OK
  | INVALID_ARGUMENT
  | NOT_FOUND
  | ALREADY_EXISTS
  | OUT_OF_RANGE
  | OS_ERROR
  deriving Repr, DecidableEq

/-- `Proc::Task`. -/
structure Task where
  execName : Str
  args : List Str
  workDir : Str
  ID : Int
  exitCode : Int
  isSuccess : Bool
  deriving Repr, DecidableEq

namespace Task

/-- `Task::Task()`. -/
def blank : Task := ⟨[], [], [], 0, 0, false⟩

/-- No string of the task has a NUL character. -/
def NulFree (t : Task) : Prop :=
  SimpleTaskQueue.NulFree t.execName ∧ (∀ a ∈ t.args, SimpleTaskQueue.NulFree a) ∧
    SimpleTaskQueue.NulFree t.workDir

instance (t : Task) : Decidable t.NulFree := inferInstanceAs (Decidable (_ ∧ _))

end Task

/-- A task for examples: `/bin/ls -l` in the root directory. -/
def listing : Task := { Task.blank with
  execName := "/bin/ls".toList, args := ["-l".toList], workDir := "/".toList }

end SimpleTaskQueue
