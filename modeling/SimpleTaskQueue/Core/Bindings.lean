import Mathlib.Logic.Function.Basic
/-!
# SimpleTaskQueue.Core.Bindings

Names bound to **resources**, and what binding, unbinding and renaming keep.

* `Separate`: no resource is bound to two names. Binding keeps that exactly when the
  resource is free (`separate_bind_iff`); unbinding and renaming always do.
* `Mirrors`: the bindings can be recovered from the stored resources alone, because every
  bound resource is the one its name stands for (its `home`) and carries that name (its
  `label`). Binding a name to its home keeps bound resources at home (`AtHome.bind`);
  unbinding and renaming leave the resource behind under its old label. Two bindings that
  mirror the same resources are equal (`Mirrors.unique`).
-/

/-- The resource each name is bound to. -/
abbrev Bindings (N R : Type*) := N → Option R

namespace Bindings

variable {N R : Type*} {b b' : Bindings N R} {n m : N} {r r' : R}

/-- No resource is bound to two names. -/
def Separate (b : Bindings N R) : Prop := ∀ n m r, b n = some r → b m = some r → n = m

/-- No name but possibly `n` is bound to the resource. -/
def Free (b : Bindings N R) (n : N) (r : R) : Prop := ∀ m, b m = some r → m = n

/-- Every bound resource is stored, is the home of its name, and is labelled with it. -/
def AtHome (home : N → Option R) (label : R → Option N) (stored : R → Prop)
    (b : Bindings N R) : Prop :=
  ∀ n r, b n = some r → home n = some r ∧ label r = some n ∧ stored r

/-- The bindings are those of the stored resources: all are at home, and every label of a stored
resource is bound. -/
structure Mirrors (home : N → Option R) (label : R → Option N) (stored : R → Prop)
    (b : Bindings N R) : Prop where
  bound : AtHome home label stored b
  listed : ∀ {n r}, stored r → label r = some n → (b n).isSome = true

variable {home : N → Option R} {label : R → Option N} {stored stored' : R → Prop}

theorem AtHome.separate (h : AtHome home label stored b) : Separate b := by
  intro n m r hn hm
  exact Option.some.inj ((h n r hn).2.1.symm.trans (h m r hm).2.1)

theorem Mirrors.isSome_iff (h : Mirrors home label stored b) :
    (b n).isSome = true ↔ ∃ r, stored r ∧ label r = some n := by
  constructor
  · intro hn
    obtain ⟨r, hr⟩ := Option.isSome_iff_exists.mp hn
    exact ⟨r, (h.bound n r hr).2.2, (h.bound n r hr).2.1⟩
  · intro hex
    obtain ⟨r, hr, hl⟩ := hex
    exact h.listed hr hl

/-- The stored resources determine the bindings. -/
theorem Mirrors.unique (h : Mirrors home label stored b) (h' : Mirrors home label stored b') :
    b = b' := by
  funext n
  cases hn : b n with
  | none =>
      have hno : ¬ (b' n).isSome = true := by
        rw [h'.isSome_iff, ← h.isSome_iff, hn]
        simp
      exact (Option.not_isSome_iff_eq_none.mp hno).symm
  | some r =>
      have hsome : (b' n).isSome = true := h'.isSome_iff.mpr (h.isSome_iff.mp (by rw [hn]; rfl))
      obtain ⟨r', hr'⟩ := Option.isSome_iff_exists.mp hsome
      rw [hr', ← (h.bound n r hn).1, (h'.bound n r' hr').1]

/-! ### The operations -/

variable [DecidableEq N]

def bind (b : Bindings N R) (n : N) (r : R) : Bindings N R := Function.update b n (some r)

def unbind (b : Bindings N R) (n : N) : Bindings N R := Function.update b n none

/-- The resource of `old` goes to `new`, whatever that was bound to. -/
def rename (b : Bindings N R) (old new : N) : Bindings N R :=
  match b old with
  | none => b
  | some r => (b.bind new r).unbind old

theorem bind_eq_some : b.bind n r m = some r' ↔ m = n ∧ r = r' ∨ m ≠ n ∧ b m = some r' := by
  by_cases h : m = n
  · subst h
    simp [bind]
  · simp [bind, h]

theorem unbind_eq_some : b.unbind n m = some r ↔ m ≠ n ∧ b m = some r := by
  by_cases h : m = n
  · subst h
    simp [unbind]
  · simp [unbind, h]

@[simp] theorem unbind_self : b.unbind n n = none := Function.update_self _ _ _

theorem rename_old (h : b m = some r) (n : N) : b.rename m n m = none := by
  simp only [rename, h, unbind_self]

theorem Separate.bind (h : Separate b) (hfree : Free b n r) : Separate (b.bind n r) := by
  intro i j q hi hj
  rcases bind_eq_some.mp hi with ⟨hin, hrq⟩ | ⟨hni, hi'⟩ <;>
    rcases bind_eq_some.mp hj with ⟨hjn, hrq'⟩ | ⟨hnj, hj'⟩
  · exact hin.trans hjn.symm
  · exact absurd (hfree j (hrq ▸ hj')) hnj
  · exact absurd (hfree i (hrq' ▸ hi')) hni
  · exact h i j q hi' hj'

/-- Binding a name to a resource keeps the names apart exactly when the resource is free. -/
theorem separate_bind_iff (h : Separate b) : Separate (b.bind n r) ↔ Free b n r := by
  refine ⟨fun hs m hm => ?_, h.bind⟩
  by_contra hne
  exact hne (hs m n r (bind_eq_some.mpr (.inr ⟨hne, hm⟩)) (bind_eq_some.mpr (.inl ⟨rfl, rfl⟩)))

theorem Separate.unbind (h : Separate b) (n : N) : Separate (b.unbind n) := fun i j q hi hj =>
  h i j q (unbind_eq_some.mp hi).2 (unbind_eq_some.mp hj).2

theorem Separate.rename (h : Separate b) (m n : N) : Separate (b.rename m n) := by
  unfold Bindings.rename
  split
  · exact h
  · next r hr =>
    -- `m` is the only name of its resource, and it is unbound
    intro i j q hi hj
    obtain ⟨him, hi⟩ := unbind_eq_some.mp hi
    obtain ⟨hjm, hj⟩ := unbind_eq_some.mp hj
    rcases bind_eq_some.mp hi with ⟨hin, hrq⟩ | ⟨-, hi'⟩ <;>
      rcases bind_eq_some.mp hj with ⟨hjn, hrq'⟩ | ⟨-, hj'⟩
    · exact hin.trans hjn.symm
    · exact absurd (h j m r (hrq ▸ hj') hr) hjm
    · exact absurd (h i m r (hrq' ▸ hi') hr) him
    · exact h i j q hi' hj'

theorem isSome_bind : (b.bind n r m).isSome = true ↔ m = n ∨ (b m).isSome = true := by
  by_cases h : m = n
  · subst h
    simp [bind]
  · simp [bind, h]

theorem AtHome.bind (h : AtHome home label stored b) (hhome : home n = some r)
    (hlabel : label r = some n) (hstored : ∀ q, stored q ∨ q = r → stored' q) :
    AtHome home label stored' (b.bind n r) := by
  intro m q hm
  rcases bind_eq_some.mp hm with ⟨rfl, rfl⟩ | ⟨-, hm⟩
  · exact ⟨hhome, hlabel, hstored _ (.inr rfl)⟩
  · obtain ⟨h₁, h₂, h₃⟩ := h m q hm
    exact ⟨h₁, h₂, hstored _ (.inl h₃)⟩

end Bindings
