import Mathlib.Data.List.Basic
/-!
# SimpleTaskQueue.Core.Paths

**Walking a tree of directories.** A location is the list of names that leads to it from the
root; a path is a list of moves, each of which needs a directory to start from. What a path leads
to depends on nothing but the set of directories, which is the parameter `dir`.
-/

namespace Paths

variable {κ : Type*}

/-- A place in the tree: the names from the root down. -/
abbrev Location (κ : Type*) := List κ

/-- A component of a path. -/
inductive Move (κ : Type*)
  | stay
  /-- To the parent; the root is its own. -/
  | up
  | down (name : κ)
  deriving DecidableEq

def Move.apply : Move κ → Location κ → Location κ
  | stay, l => l
  | up, l => l.dropLast
  | down name, l => l ++ [name]

/-- The place a path leads to, whether or not there is something. -/
def walk (dir : Location κ → Bool) : List (Move κ) → Location κ → Option (Location κ)
  | [], l => some l
  | m :: ms, l => if dir l then walk dir ms (m.apply l) else none

variable {dir : Location κ → Bool} {ms ms' : List (Move κ)} {l l' : Location κ} {name : κ}

theorem walk_append : walk dir (ms ++ ms') l = (walk dir ms l).bind (walk dir ms') := by
  induction ms generalizing l with
  | nil => rfl
  | cons m ms ih =>
      simp only [List.cons_append, walk]
      split
      · exact ih
      · rfl

/-- One name further down. -/
theorem walk_snoc_down (h : walk dir ms l = some l') (hdir : dir l' = true) :
    walk dir (ms ++ [.down name]) l = some (l' ++ [name]) := by
  rw [walk_append, h, Option.bind_some, walk, if_pos hdir]
  rfl

end Paths
