import SimpleTaskQueue.Model.Proc.OutputBuffer
/-!
# SimpleTaskQueue.Properties.Output

**What `readCurrentOutput` returns, and what becomes of a chunk.** The loop compares an index that
grows with a size that shrinks, so a call takes half of the chunks, the older half. Apart from
that the buffer is a FIFO queue that drops its oldest chunk when it is full: the model is the
bounded buffer of `SimpleTaskQueue.Core.DropOldest`.
-/

namespace SimpleTaskQueue

open DropOldest

variable {β : Type}

/-! ### One call -/

/-- The chunks that a call takes out of `n`. -/
def half (n : Nat) : Nat := (n + 1) / 2

/-- The loop ends when as many chunks were taken as are left. -/
theorem readLoop_eq (index : Nat) (out mDeque : List β) :
    readLoop index out mDeque =
      (out ++ mDeque.take ((mDeque.length + 1 - index) / 2),
        mDeque.drop ((mDeque.length + 1 - index) / 2)) := by
  induction mDeque generalizing index out with
  | nil => simp [readLoop]
  | cons chunk mDeque ih =>
      rw [readLoop]
      split
      · next hlt =>
        have hround : (mDeque.length + 1 + 1 - index) / 2 =
            (mDeque.length + 1 - (index + 1)) / 2 + 1 := by
          omega
        rw [ih, List.length_cons, hround, List.take_succ_cons, List.drop_succ_cons,
          List.append_assoc, List.singleton_append]
      · next hge =>
        have hnone : (mDeque.length + 1 + 1 - index) / 2 = 0 := by omega
        rw [List.length_cons, hnone, List.take_zero, List.append_nil, List.drop_zero]

theorem readCurrentOutput_eq (p : IProc) (mDeque : List β) :
    p.readCurrentOutput mDeque =
      (mDeque.take (half mDeque.length), mDeque.drop (half mDeque.length)) := by
  have hchunks : readChunks mDeque =
      (mDeque.take (half mDeque.length), mDeque.drop (half mDeque.length)) := by
    cases mDeque with
    | nil => simp [readChunks]
    | cons chunk mDeque => exact readLoop_eq 0 [] (chunk :: mDeque)
  cases p <;> exact hchunks

/-- **`readCurrentOutput` drains the buffer** exactly if there is at most one chunk. -/
theorem readCurrentOutput_drains_iff (p : IProc) (mDeque : List β) :
    p.readCurrentOutput mDeque = (mDeque, []) ↔ mDeque.length ≤ 1 := by
  have hhalf : half mDeque.length = (mDeque.length + 1) / 2 := rfl
  rw [readCurrentOutput_eq, Prod.mk.injEq, List.drop_eq_nil_iff]
  constructor
  · rintro ⟨-, hle⟩
    omega
  · intro hle
    have hall : mDeque.length ≤ half mDeque.length := by omega
    exact ⟨List.take_of_length_le hall, hall⟩

/-- **Of two chunks a call returns one**, in both classes. -/
theorem two_chunks_left :
    LinuxProc.readCurrentOutput ["a".toList, "b".toList] = (["a".toList], ["b".toList]) ∧
      WinProc.readCurrentOutput ["a".toList, "b".toList] = (["a".toList], ["b".toList]) := by
  decide

/-! ### All calls -/

theorem outputRun_eq (p : IProc) (max : Nat) (ops : List (Op β)) :
    p.outputRun max ops = run max half ops := by
  have hstep : p.outputStep max = (State.step max half : State β → Op β → State β) := by
    funext s op
    cases op with
    | push buf => rfl
    | read =>
        simp only [IProc.outputStep, readCurrentOutput_eq]
        rfl
  rw [IProc.outputRun, hstep, run]

/-- **The buffer is a bounded FIFO queue that drops its oldest chunk**, for every order of pushes
and calls. The chunks are told apart by the numbers of their pushes: the run on numbered chunks is
the run on the chunks. It never holds more than `max` chunks; what was delivered and what is still
there is a subsequence of what was pushed; and a chunk that is missing was the oldest of a full
buffer when another one was pushed. -/
theorem output_fifo (p : IProc) {max : Nat} (hmax : 1 ≤ max) (ops : List (Op β)) :
    let s := p.outputRun max ops
    let t := p.outputRun max (number 0 ops)
    s.buffer.length ≤ max ∧ t.map Prod.snd = s ∧
      pushed (number 0 ops) = (List.range (pushed ops).length).zip (pushed ops) ∧
      (t.delivered ++ t.buffer).Sublist (pushed (number 0 ops)) ∧
      ∀ c ∈ pushed (number 0 ops), c ∉ t.delivered ++ t.buffer →
        ∃ before buf behind, number 0 ops = before ++ .push buf :: behind ∧
          (p.outputRun max before).buffer.length = max ∧
          (p.outputRun max before).buffer.head? = some c := by
  simp only [outputRun_eq]
  refine ⟨length_run_le hmax ops, ?_, ?_, run_sublist _, fun c hc hno => ?_⟩
  · rw [← run_map, map_number]
  · rw [pushed_number, List.range_eq_range']
  · exact (pushed_cases _ c hc).resolve_left hno

/-- A chunk comes when there is no room for two. -/
def overflow : List (Op (List Char)) := [.push "a".toList, .push "b".toList, .read]

theorem output_fifo_overflow :
    ∃ before buf behind, number 0 overflow = before ++ .push buf :: behind ∧
      (IProc.linuxProc.outputRun 1 before).buffer.length = 1 ∧
      (IProc.linuxProc.outputRun 1 before).buffer.head? = some (0, "a".toList) :=
  (output_fifo .linuxProc (by decide) overflow).2.2.2.2 (0, "a".toList) (by decide) (by decide)

end SimpleTaskQueue
