import Mathlib.Data.List.Nodup
import Mathlib.Data.List.Pairwise
import Mathlib.Order.Lattice
/-!
# SimpleTaskQueue.Core.Ledger

An abstract **two-stage register**: items wait in `pending`, move to `done`, and may be
dropped from either; their keys are issued by a counter `next` in increasing order.

`Valid` is what such a register promises (no key twice, none in both stages, all keys
issued), `Sorted` that waiting items stand in the order of their keys. Each operation
keeps both under its own precondition, over any linearly ordered keys.
-/

/-- Waiting and finished items, and the key the next item will get. -/
structure Ledger (κ α : Type*) where
  pending : List α
  done : List α
  next : κ

namespace Ledger

variable {κ α : Type*} [LinearOrder κ]

/-- Append a new item and move the counter on. -/
def add (L : Ledger κ α) (a : α) (n : κ) : Ledger κ α :=
  { L with pending := L.pending ++ [a], next := n }

/-- Move the counter on without adding an item. -/
def skip (L : Ledger κ α) (n : κ) : Ledger κ α := { L with next := n }

/-- Drop the waiting items with key `k`. -/
def drop (L : Ledger κ α) (key : α → κ) (k : κ) : Ledger κ α :=
  { L with pending := L.pending.filter fun a => key a ≠ k }

/-- Append a finished item. -/
def finish (L : Ledger κ α) (a : α) : Ledger κ α := { L with done := L.done ++ [a] }

/-- Drop all waiting items. -/
def clearPending (L : Ledger κ α) : Ledger κ α := { L with pending := [] }

/-- Drop all finished items. -/
def clearDone (L : Ledger κ α) : Ledger κ α := { L with done := [] }

variable (key : α → κ)

/-- No key occurs twice, no key is in both stages, all keys were issued. -/
structure Valid (L : Ledger κ α) : Prop where
  pendingNodup : (L.pending.map key).Nodup
  doneNodup : (L.done.map key).Nodup
  disjoint : ∀ a ∈ L.pending, ∀ b ∈ L.done, key a ≠ key b
  pendingBelow : ∀ a ∈ L.pending, key a < L.next
  doneBelow : ∀ b ∈ L.done, key b < L.next

/-- The waiting items stand in the order of their keys. -/
def Sorted (L : Ledger κ α) : Prop := L.pending.Pairwise fun a b => key a < key b

variable {key} {L : Ledger κ α} {a b : α} {k n : κ}

theorem Valid.add (h : L.Valid key) (ha : key a = L.next) (hn : L.next < n) :
    (L.add a n).Valid key where
  pendingNodup := by
    rw [Ledger.add, List.map_append, List.nodup_append]
    refine ⟨h.pendingNodup, List.nodup_singleton _, fun x hx y hy => ?_⟩
    obtain ⟨c, hc, rfl⟩ := List.mem_map.mp hx
    obtain rfl : y = key a := by simpa using hy
    exact ne_of_lt (ha ▸ h.pendingBelow c hc)
  doneNodup := h.doneNodup
  disjoint := by
    intro x hx y hy
    rcases List.mem_append.mp hx with hx | hx
    · exact h.disjoint x hx y hy
    · obtain rfl : x = a := by simpa using hx
      exact ne_of_gt (ha ▸ h.doneBelow y hy)
  pendingBelow := by
    intro x hx
    rcases List.mem_append.mp hx with hx | hx
    · exact lt_trans (h.pendingBelow x hx) hn
    · obtain rfl : x = a := by simpa using hx
      exact ha ▸ hn
  doneBelow := fun y hy => lt_trans (h.doneBelow y hy) hn

theorem Valid.drop (h : L.Valid key) (k : κ) : (L.drop key k).Valid key where
  pendingNodup := (List.filter_sublist.map key).nodup h.pendingNodup
  doneNodup := h.doneNodup
  disjoint := fun x hx => h.disjoint x (List.mem_of_mem_filter hx)
  pendingBelow := fun x hx => h.pendingBelow x (List.mem_of_mem_filter hx)
  doneBelow := h.doneBelow

theorem Valid.clearPending (h : L.Valid key) : L.clearPending.Valid key where
  pendingNodup := List.nodup_nil
  doneNodup := h.doneNodup
  disjoint := by simp [Ledger.clearPending]
  pendingBelow := by simp [Ledger.clearPending]
  doneBelow := h.doneBelow

theorem Valid.clearDone (h : L.Valid key) : L.clearDone.Valid key where
  pendingNodup := h.pendingNodup
  doneNodup := List.nodup_nil
  disjoint := by simp [Ledger.clearDone]
  pendingBelow := h.pendingBelow
  doneBelow := by simp [Ledger.clearDone]

/-- Moving an item: it leaves the waiting ones, whether or not it is still among them, and
joins the finished ones, where its key must be new. -/
theorem Valid.move (h : L.Valid key) (ha : key a < L.next) (hd : ∀ b ∈ L.done, key b ≠ key a) :
    ((L.drop key (key a)).finish a).Valid key where
  pendingNodup := (h.drop (key a)).pendingNodup
  doneNodup := by
    rw [Ledger.finish, List.map_append, List.nodup_append]
    refine ⟨h.doneNodup, List.nodup_singleton _, fun x hx y hy => ?_⟩
    obtain ⟨b, hb, rfl⟩ := List.mem_map.mp hx
    obtain rfl : y = key a := by simpa using hy
    exact hd b hb
  disjoint := by
    intro x hx y hy
    -- the item that moves was dropped, so its key is not among the waiting ones
    obtain ⟨hx, hne⟩ := List.mem_filter.mp hx
    rcases List.mem_append.mp hy with hy | hy
    · exact h.disjoint x hx y hy
    · obtain rfl : y = a := by simpa using hy
      simpa using hne
  pendingBelow := (h.drop (key a)).pendingBelow
  doneBelow := by
    intro y hy
    rcases List.mem_append.mp hy with hy | hy
    · exact h.doneBelow y hy
    · obtain rfl : y = a := by simpa using hy
      exact ha

/-- Dropping the first waiting item drops nothing else. -/
theorem Valid.drop_head (h : L.Valid key) {l : List α} (hl : L.pending = a :: l) :
    (L.drop key (key a)).pending = l := by
  have hnodup := h.pendingNodup
  rw [hl, List.map_cons, List.nodup_cons] at hnodup
  have hrest : ∀ b ∈ l, key b ≠ key a := fun b hb he =>
    hnodup.1 (he ▸ List.mem_map_of_mem hb)
  rw [Ledger.drop, hl]
  simpa using hrest

theorem Sorted.add (h : L.Sorted key) (hb : ∀ c ∈ L.pending, key c < key a) :
    (L.add a n).Sorted key := by
  rw [Sorted, Ledger.add, List.pairwise_append]
  refine ⟨h, List.pairwise_singleton _ _, fun x hx y hy => ?_⟩
  obtain rfl : y = a := by simpa using hy
  exact hb x hx

theorem Sorted.drop (h : L.Sorted key) (k : κ) : (L.drop key k).Sorted key :=
  List.Pairwise.sublist List.filter_sublist h

/-- The first waiting item has the smallest key. -/
theorem Sorted.head_le (h : L.Sorted key) {l : List α} (hl : L.pending = a :: l) :
    ∀ b ∈ L.pending, key a ≤ key b := by
  intro b hb
  rw [Sorted, hl, List.pairwise_cons] at h
  rw [hl] at hb
  rcases List.mem_cons.mp hb with rfl | hb
  · exact le_refl _
  · exact le_of_lt (h.1 b hb)

end Ledger
