import Mathlib.Data.List.Basic
/-!
# SimpleTaskQueue.Core.Blocks

A **memory of blocks**, with cells of any type. The blocks are numbered in the order of their
allocation. A program (`Memory`) has no result if it uses a cell outside of a block, uses a block
that was freed, or frees it again.

An operation on a block leaves the others alone: its rule (`load_at`, `store_at`, `copy_at`,
`delete_at`) is about a block between any two parts of the heap.
-/

namespace Blocks

variable {α β γ : Type}

/-- A block; it is freed at most once. -/
structure Block (α : Type) where
  cells : List α
  frees : Nat
  once : frees ≤ 1
  deriving Repr, DecidableEq

/-- A block that is not freed. -/
def Block.live (cells : List α) : Block α := ⟨cells, 0, Nat.zero_le 1⟩

def Block.freed (cells : List α) : Block α := ⟨cells, 1, Nat.le_refl 1⟩

abbrev Heap (α : Type) := List (Block α)

/-- The cells of the block `p`, if there is one that is not freed. -/
def cells (h : Heap α) (p : Nat) : Option (List α) :=
  (h[p]?.filter fun b => b.frees == 0).map Block.cells

/-- Programs on a heap; `none` is undefined behaviour. -/
abbrev Memory (α β : Type) := StateT (Heap α) Option β

def fault : Memory α β := fun _ => none

/-- An allocation, which succeeds or not. -/
def new (ok : Bool) (cells : List α) : Memory α (Option Nat) := fun h =>
  if ok then some (some h.length, h ++ [.live cells]) else some (none, h)

/-- Read and change the cells of a block. -/
def access (p : Nat) (f : List α → Option (β × List α)) : Memory α β := fun h =>
  (cells h p).bind fun cs => (f cs).map fun r => (r.1, h.set p (.live r.2))

def load (p i : Nat) : Memory α α := access p fun cs => cs[i]?.map fun a => (a, cs)

def store (p i : Nat) (a : α) : Memory α Unit :=
  access p fun cs => if i < cs.length then some ((), cs.set i a) else none

/-- Copy `n` cells of `source` to the front of the block. -/
def copy (p : Nat) (source : List α) (n : Nat) : Memory α Unit :=
  access p fun cs =>
    if n ≤ source.length ∧ n ≤ cs.length then some ((), source.take n ++ cs.drop n) else none

/-- Free a block; there is nothing to do for the null pointer. -/
def delete : Option Nat → Memory α Unit
  | none => pure ()
  | some p => fun h => (cells h p).map fun cs => ((), h.set p (.freed cs))

/-- `h'` has `n` blocks more than `h`, and all of them are freed. -/
def Released (h h' : Heap α) (n : Nat) : Prop :=
  ∃ blocks, h' = h ++ blocks ∧ blocks.length = n ∧ ∀ b ∈ blocks, b.frees = 1

/-! ### Rules -/

section Rules

variable {m : Memory α β} {f : β → Memory α γ} {h h' : Heap α} {b : β}

/-- One program behind the other. -/
theorem run_bind (hm : m.run h = some (b, h')) : (m >>= f).run h = (f b).run h' := by
  rw [StateT.run_bind, hm]
  rfl

theorem new_ok (h : Heap α) (cs : List α) :
    (new true cs).run h = some (some h.length, h ++ [.live cs]) := rfl

theorem new_fails (h : Heap α) (cs : List α) : (new false cs).run h = some (none, h) := rfl

variable {h₁ h₂ : Heap α} {cs cs' source : List α} {a : α} {i n : Nat}

@[simp] theorem cells_at : cells (h₁ ++ .live cs :: h₂) h₁.length = some cs := by
  simp [cells, Block.live]

theorem access_at {g : List α → Option (β × List α)} (hg : g cs = some (b, cs')) :
    (access h₁.length g).run (h₁ ++ .live cs :: h₂) = some (b, h₁ ++ .live cs' :: h₂) := by
  simp [access, StateT.run, hg]

theorem load_at (ha : cs[i]? = some a) :
    (load h₁.length i).run (h₁ ++ .live cs :: h₂) = some (a, h₁ ++ .live cs :: h₂) :=
  access_at (by rw [ha, Option.map_some])

theorem store_at (hi : i < cs.length) :
    (store h₁.length i a).run (h₁ ++ .live cs :: h₂) = some ((), h₁ ++ .live (cs.set i a) :: h₂) :=
  access_at (if_pos hi)

theorem copy_at (hsource : n ≤ source.length) (hn : n ≤ cs.length) :
    (copy h₁.length source n).run (h₁ ++ .live cs :: h₂) =
      some ((), h₁ ++ .live (source.take n ++ cs.drop n) :: h₂) :=
  access_at (if_pos ⟨hsource, hn⟩)

/-- What only reads a block leaves the heap as it is. -/
theorem access_read {p : Nat} {g : List α → Option (β × List α)} (hcells : cells h p = some cs)
    (hg : g cs = some (b, cs)) : (access p g).run h = some (b, h) := by
  obtain ⟨block, hblock, rfl⟩ := Option.map_eq_some_iff.mp hcells
  obtain ⟨hblock, hfrees⟩ := Option.filter_eq_some_iff.mp hblock
  have hlive : Block.live block.cells = block := by
    obtain ⟨cs, frees, once⟩ := block
    obtain rfl : frees = 0 := beq_iff_eq.mp hfrees
    rfl
  have hset : h.set p (.live block.cells) = h := by
    obtain ⟨hp, rfl⟩ := List.getElem?_eq_some_iff.mp hblock
    rw [hlive]
    exact List.set_getElem_self hp
  simp [access, StateT.run, hcells, hg, hset]

theorem delete_at (h₁ : Heap α) (cs : List α) (h₂ : Heap α) :
    (delete (some h₁.length)).run (h₁ ++ .live cs :: h₂) = some ((), h₁ ++ .freed cs :: h₂) := by
  simp [delete, StateT.run]

theorem released_freed (h : Heap α) (css : List (List α)) :
    Released h (h ++ css.map .freed) css.length := by
  refine ⟨_, rfl, List.length_map _, fun block hblock => ?_⟩
  obtain ⟨cs, -, rfl⟩ := List.mem_map.mp hblock
  rfl

end Rules

end Blocks
