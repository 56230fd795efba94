import SimpleTaskQueue.Refinement.ChildArgv
/-!
# SimpleTaskQueue.Properties.ChildArgv

**Is the argument vector of the child right, and is nothing leaked?** Whatever the task and whatever
allocation fails: `buildChildArgv` returns the whole vector, or frees all it has made.
-/

namespace SimpleTaskQueue

open Blocks

namespace LinuxProc

variable {h : Heap Cell} {task : Task} {p k : Nat}

/-- The block `argv` is the argument vector of the task, and `entries` is what it holds. -/
structure IsArgv (h : Heap Cell) (argv : Nat) (entries : List Cell) (task : Task) : Prop where
  array : cells h argv = some entries
  length : entries.length = task.args.length + 2
  name : ∃ p, entries[0]? = some (.pointer (some p)) ∧ cells h p = some (cStr task.execName)
  args : ∀ (i : Nat) (arg : Str), task.args[i]? = some arg →
    ∃ p, entries[i + 1]? = some (.pointer (some p)) ∧ cells h p = some (cStr arg)
  tail : entries[task.args.length + 1]? = some (.pointer none)

theorem isArgv_built : IsArgv (built h (task.execName :: task.args) (task.args.length + 1) 1)
    h.length (entries h.length (task.args.length + 1) 1) task where
  array := cells_array ..
  length := length_entries
  name := ⟨_, entries_getElem? (Nat.succ_pos _), cells_built rfl⟩
  args := by
    intro i arg harg
    have hi := (List.getElem?_eq_some_iff.mp harg).1
    exact ⟨_, entries_getElem? (Nat.succ_lt_succ hi), cells_built harg⟩
  tail := entries_getElem?_null

/-- Every block that was made is in use. -/
theorem mem_entries (strings : List Str) (hp : h.length ≤ p)
    (hlt : p < (built h strings strings.length k).length) :
    p = h.length ∨ .pointer (some p) ∈ entries h.length strings.length k := by
  rw [length_built] at hlt
  by_cases hne : p = h.length
  · exact .inl hne
  · right
    simp only [entries, List.mem_append, List.mem_map]
    exact .inl ⟨p, List.mem_range'_1.mpr (by omega), rfl⟩

/-- **`buildChildArgv` is correct and leaks nothing**, on any heap and whatever allocations fail.
If none fails, it returns the argument vector of the task, and the blocks it made are that array and
the strings in it. Otherwise, if `i` is the first to fail, it returns `nullptr`, and the `i` blocks
made before are freed. Both times it has a result, so every access is inside of a block. -/
theorem buildChildArgv_correct (alloc : Nat → Bool) (task : Task) (h : Heap Cell) :
    ((∀ i < task.args.length + 2, alloc i = true) →
      ∃ argv entries blocks, (buildChildArgv alloc task).run h = some (some argv, h ++ blocks) ∧
        IsArgv (h ++ blocks) argv entries task ∧
        ∀ p, h.length ≤ p → p < (h ++ blocks).length →
          p = argv ∨ .pointer (some p) ∈ entries) ∧
    ∀ i < task.args.length + 2, alloc i = false → (∀ j < i, alloc j = true) →
      ∃ h', (buildChildArgv alloc task).run h = some (none, h') ∧ Released h h' i := by
  constructor
  · intro halloc
    exact ⟨h.length, _, _, buildChildArgv_ok halloc, isArgv_built,
      fun p hp hlt => mem_entries (task.execName :: task.args) hp hlt⟩
  · intro i hi hfails halloc
    exact buildChildArgv_fails hi hfails halloc

theorem buildChildArgv_correct_listing :
    (∃ argv entries blocks, (buildChildArgv (fun _ => true) listing).run [] =
        some (some argv, [] ++ blocks) ∧
      IsArgv ([] ++ blocks) argv entries listing ∧
      ∀ p, 0 ≤ p → p < ([] ++ blocks).length → p = argv ∨ .pointer (some p) ∈ entries) ∧
    ∃ h', (buildChildArgv (fun i => i != 2) listing).run [] = some (none, h') ∧
      Released [] h' 2 :=
  ⟨(buildChildArgv_correct (fun _ => true) listing []).1 fun _ _ => rfl,
    (buildChildArgv_correct (fun i => i != 2) listing []).2 2 (by decide) rfl (by decide)⟩

end LinuxProc

end SimpleTaskQueue
