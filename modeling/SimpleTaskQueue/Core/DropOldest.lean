import Mathlib.Data.List.Induction
/-!
# SimpleTaskQueue.Core.DropOldest

A **bounded buffer** that makes room by dropping its oldest element, and a reader that takes some
of the elements from the front; how many, depends on how many there are (`quota`).

Whatever was pushed was delivered, is still in the buffer, or was dropped by a push that found the
buffer full (`pushed_cases`); and the order of the pushes is kept (`run_sublist`). Pushes are told
apart by their numbers, which no operation looks at (`run_map`).
-/

namespace DropOldest

variable {α β : Type*}

/-- Put an element behind the others, and drop the oldest one if there are `max` of them. -/
def push (max : Nat) (d : List α) (a : α) : List α := (if d.length = max then d.tail else d) ++ [a]

inductive Op (α : Type*)
  | push (a : α)
  | read

def Op.map (f : α → β) : Op α → Op β
  | push a => .push (f a)
  | read => .read

/-- What was delivered so far, and the buffer. -/
structure State (α : Type*) where
  delivered : List α
  buffer : List α

namespace State

/-- All that is not lost, oldest first. -/
def kept (s : State α) : List α := s.delivered ++ s.buffer

def map (f : α → β) (s : State α) : State β := ⟨s.delivered.map f, s.buffer.map f⟩

def step (max : Nat) (quota : Nat → Nat) (s : State α) : Op α → State α
  | .push a => { s with buffer := push max s.buffer a }
  | .read => ⟨s.delivered ++ s.buffer.take (quota s.buffer.length),
      s.buffer.drop (quota s.buffer.length)⟩

end State

/-- Run the operations on the empty buffer. -/
def run (max : Nat) (quota : Nat → Nat) (ops : List (Op α)) : State α :=
  ops.foldl (State.step max quota) ⟨[], []⟩

/-- The elements pushed by the operations. -/
def pushed (ops : List (Op α)) : List α :=
  ops.filterMap fun op => match op with
    | .push a => some a
    | .read => none

/-- The pushes with their numbers, from `n` on. -/
def number : Nat → List (Op α) → List (Op (Nat × α))
  | _, [] => []
  | n, .push a :: ops => .push (n, a) :: number (n + 1) ops
  | n, .read :: ops => .read :: number n ops

variable {max : Nat} {quota : Nat → Nat} {ops : List (Op α)} {a : α}

theorem run_snoc (ops : List (Op α)) (op : Op α) :
    run max quota (ops ++ [op]) = (run max quota ops).step max quota op := by
  rw [run, List.foldl_append]
  rfl

theorem pushed_append (ops ops' : List (Op α)) : pushed (ops ++ ops') = pushed ops ++ pushed ops' :=
  List.filterMap_append

/-! ### Bound, order, loss -/

theorem length_push_le {d : List α} (hmax : 1 ≤ max) (h : d.length ≤ max) :
    (push max d a).length ≤ max := by
  unfold push
  split
  · rw [List.length_append, List.length_tail, List.length_singleton]
    omega
  · rw [List.length_append, List.length_singleton]
    omega

/-- The buffer never holds more than `max` elements. -/
theorem length_run_le (hmax : 1 ≤ max) (ops : List (Op α)) :
    (run max quota ops).buffer.length ≤ max := by
  induction ops using List.reverseRecOn with
  | nil => exact Nat.zero_le max
  | append_singleton ops op ih =>
      rw [run_snoc]
      cases op with
      | push a => exact length_push_le hmax ih
      | read =>
          rw [State.step, List.length_drop]
          omega

/-- A read moves elements, and loses none. -/
theorem kept_read (s : State α) : (s.step max quota .read).kept = s.kept := by
  rw [State.kept, State.kept, State.step, List.append_assoc, List.take_append_drop]

/-- A push loses the oldest element of a full buffer, and nothing else. -/
theorem kept_push (s : State α) (a : α) :
    (s.step max quota (.push a)).kept = s.kept ++ [a] ∨
      ∃ b d, s.buffer = b :: d ∧ s.buffer.length = max ∧
        (s.step max quota (.push a)).kept = s.delivered ++ d ++ [a] := by
  by_cases hfull : s.buffer.length = max
  · cases hbuf : s.buffer with
    | nil =>
        rw [hbuf] at hfull
        exact .inl (by simp [State.step, State.kept, push, hbuf])
    | cons b d =>
        refine .inr ⟨b, d, rfl, hbuf ▸ hfull, ?_⟩
        rw [hbuf] at hfull
        simp [State.step, State.kept, push, hbuf, hfull]
  · exact .inl (by simp [State.step, State.kept, push, hfull])

/-- What is kept is in the order of the pushes. -/
theorem run_sublist (ops : List (Op α)) : (run max quota ops).kept.Sublist (pushed ops) := by
  induction ops using List.reverseRecOn with
  | nil => exact .slnil
  | append_singleton ops op ih =>
      rw [run_snoc, pushed_append]
      cases op with
      | read =>
          rw [kept_read]
          exact ih.trans (List.sublist_append_left _ _)
      | push a =>
          rcases kept_push (run max quota ops) a with h | ⟨b, d, hbuf, -, h⟩
          · rw [h]
            exact ih.append (.refl [a])
          · rw [h]
            refine List.Sublist.append (.trans ?_ ih) (.refl [a])
            rw [State.kept, hbuf]
            exact (List.Sublist.refl _).append (List.sublist_cons_self b d)

/-- Element `a` was the oldest of a full buffer when another one was pushed. -/
def DroppedBy (max : Nat) (quota : Nat → Nat) (ops : List (Op α)) (a : α) : Prop :=
  ∃ before b behind, ops = before ++ .push b :: behind ∧
    (run max quota before).buffer.length = max ∧ (run max quota before).buffer.head? = some a

theorem DroppedBy.snoc (h : DroppedBy max quota ops a) (op : Op α) :
    DroppedBy max quota (ops ++ [op]) a := by
  obtain ⟨before, b, behind, rfl, hfull, hhead⟩ := h
  exact ⟨before, b, behind ++ [op], by simp, hfull, hhead⟩

/-- **No element gets lost** but the oldest of a full buffer. -/
theorem pushed_cases (ops : List (Op α)) :
    ∀ a ∈ pushed ops, a ∈ (run max quota ops).kept ∨ DroppedBy max quota ops a := by
  induction ops using List.reverseRecOn with
  | nil => exact fun a h => absurd h List.not_mem_nil
  | append_singleton ops op ih =>
      intro a ha
      rw [pushed_append, List.mem_append] at ha
      rw [run_snoc]
      cases op with
      | read =>
          rw [kept_read]
          exact (ih a (ha.resolve_right List.not_mem_nil)).imp_right fun h => h.snoc _
      | push b =>
          rcases kept_push (run max quota ops) b with h | ⟨x, d, hbuf, hfull, h⟩
          · rw [h, List.mem_append]
            rcases ha with ha | ha
            · exact (ih a ha).imp .inl fun h => h.snoc _
            · exact .inl (.inr ha)
          · rw [h, List.mem_append]
            rcases ha with ha | ha
            · rcases ih a ha with hk | hd
              · rw [State.kept, hbuf, List.mem_append, List.mem_cons] at hk
                rcases hk with hk | rfl | hk
                · exact .inl (.inl (List.mem_append_left _ hk))
                · -- the oldest element, dropped by this push
                  exact .inr ⟨ops, b, [], rfl, hfull, by rw [hbuf]; rfl⟩
                · exact .inl (.inl (List.mem_append_right _ hk))
              · exact .inr (hd.snoc _)
            · exact .inl (.inr ha)

/-! ### Numbers -/

theorem step_map (f : α → β) (s : State α) (op : Op α) :
    (s.map f).step max quota (op.map f) = (s.step max quota op).map f := by
  cases op with
  | push a =>
      simp only [State.step, State.map, Op.map, push, List.length_map, List.map_append,
        List.map_cons, List.map_nil]
      split <;> simp [List.map_tail]
  | read => simp [State.step, State.map, Op.map, List.map_take, List.map_drop]

/-- No operation looks at the elements. -/
theorem run_map (f : α → β) (ops : List (Op α)) :
    run max quota (ops.map (Op.map f)) = (run max quota ops).map f := by
  induction ops using List.reverseRecOn with
  | nil => rfl
  | append_singleton ops op ih =>
      rw [List.map_append, List.map_cons, List.map_nil, run_snoc, run_snoc, ih, step_map]

theorem map_number (n : Nat) (ops : List (Op α)) :
    (number n ops).map (Op.map Prod.snd) = ops := by
  induction ops generalizing n with
  | nil => rfl
  | cons op ops ih =>
      cases op with
      | push a => exact congrArg _ (ih (n + 1))
      | read => exact congrArg _ (ih n)

/-- The numbers are those of the positions. -/
theorem pushed_number (n : Nat) (ops : List (Op α)) :
    pushed (number n ops) = (List.range' n (pushed ops).length).zip (pushed ops) := by
  induction ops generalizing n with
  | nil => rfl
  | cons op ops ih =>
      cases op with
      | push a =>
          have hrange : List.range' n ((pushed ops).length + 1) =
              n :: List.range' (n + 1) (pushed ops).length := rfl
          show (n, a) :: pushed (number (n + 1) ops) =
            (List.range' n ((pushed ops).length + 1)).zip (a :: pushed ops)
          rw [hrange, ih, List.zip_cons_cons]
      | read => exact ih n

end DropOldest
