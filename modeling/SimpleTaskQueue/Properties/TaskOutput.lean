import SimpleTaskQueue.Model.Proc.TaskOutput
import SimpleTaskQueue.Properties.Output
/-!
# SimpleTaskQueue.Properties.TaskOutput

**Is the output of one task shown as that of another?** `start` does not touch `m_deque`, so what is
left there of earlier tasks is returned as output of the new one, in both classes.
-/

namespace SimpleTaskQueue

open Runs

namespace TaskOutput

variable {p : IProc} {max : Nat} {s t u : TaskOutput p} {a : TaskAction p} {o : TaskReport}
  {es es' : List (TaskAction p × TaskReport)}

/-- The step does not begin the next task. -/
def SameTask : TaskAction p → Prop
  | .start _ => False
  | _ => True

/-- Every chunk returned in the history is of the task `n`. -/
def OnlyOf (n : Nat) (es : List (TaskAction p × TaskReport)) : Prop :=
  ∀ e ∈ es, ∀ out, e.2 = .chunks out → ∀ chunk ∈ out, chunk.1 = n

/-- A task is served, and `m_deque` holds chunks of that task only. -/
structure Own (n : Nat) (s : TaskOutput p) : Prop where
  serving : s.phase = .serving
  starts : s.starts = n
  chunks : ∀ chunk ∈ s.mDeque, chunk.1 = n

theorem mem_pushChunk {β : Type} {max : Nat} {mDeque : List β} {buf c : β}
    (h : c ∈ pushChunk max mDeque buf) : c ∈ mDeque ∨ c = buf := by
  simp only [pushChunk, List.mem_append, List.mem_singleton] at h
  refine h.imp_left fun hc => ?_
  split at hc
  · exact List.mem_of_mem_tail hc
  · exact hc

/-- **Step lemma.** Up to the next `start` only chunks of the task come in and go out. -/
theorem Own.step {n : Nat} (h : Own n s) (hs : s.step max a = some (o, u)) (hsame : SameTask a) :
    Own n u ∧ OnlyOf n [(a, o)] := by
  have hnone : ∀ {o : TaskReport}, (∀ out, o ≠ .chunks out) → OnlyOf n [(a, o)] := by
    intro o ho e he out hout
    obtain rfl := List.mem_singleton.mp he
    exact absurd hout (ho out)
  cases a with
  | init =>
      simp only [TaskOutput.step] at hs
      split at hs
      · obtain ⟨r, -, ⟨⟩⟩ := Option.map_eq_some_iff.mp hs
        exact ⟨⟨h.serving, h.starts, by simp⟩, hnone (by simp)⟩
      · cases hs
  | start => cases hsame
  | returned => simp [TaskOutput.step, h.serving] at hs
  | call a =>
      have hcall : ((p.host.step s.host a).map fun r =>
          (TaskReport.silent, { s with host := r.2 })) = some (o, u) := by
        cases a with
        | init | start => cases hs
        | stop | isRunning | exitCode | ends => exact hs
      obtain ⟨r, -, ⟨⟩⟩ := Option.map_eq_some_iff.mp hcall
      exact ⟨⟨h.serving, h.starts, h.chunks⟩, hnone (by simp)⟩
  | push chunk =>
      simp only [TaskOutput.step] at hs
      split at hs
      · next hread =>
        have hown : chunk.1 = s.starts := by simpa [Readable, h.serving] using hread
        cases hs
        refine ⟨⟨h.serving, h.starts, fun c hc => ?_⟩, hnone (by simp)⟩
        rcases mem_pushChunk hc with hc | rfl
        · exact h.chunks c hc
        · exact hown.trans h.starts
      · cases hs
  | readCurrentOutput =>
      simp only [TaskOutput.step, readCurrentOutput_eq] at hs
      cases hs
      refine ⟨⟨h.serving, h.starts, fun c hc => h.chunks c (List.mem_of_mem_drop hc)⟩, ?_⟩
      intro e he out hout c hc
      obtain rfl := List.mem_singleton.mp he
      cases hout
      exact h.chunks c (List.mem_of_mem_take hc)

/-- **Run lemma.** -/
theorem Own.run {n : Nat} (h : Run (TaskOutput.step max) (fun _ => SameTask) s es u)
    (hown : Own n s) : Own n u ∧ OnlyOf n es := by
  induction h with
  | nil => exact ⟨hown, fun e he => absurd he List.not_mem_nil⟩
  | snoc _ hsame hs ih =>
      obtain ⟨hown', hes⟩ := ih
      obtain ⟨hu, he⟩ := hown'.step hs hsame
      refine ⟨hu, fun e' he' => ?_⟩
      rcases List.mem_append.mp he' with he' | he'
      · exact hes e' he'
      · exact he e' he'

/-- Whatever is in `m_deque` is returned, if it is asked for often enough. -/
theorem exists_delivery (max : Nat) (s : TaskOutput p) {chunk : Chunk} (h : chunk ∈ s.mDeque) :
    ∃ es t, Run (TaskOutput.step max) (fun _ => SameTask) s es t ∧
      ∃ e ∈ es, ∃ out, e.2 = .chunks out ∧ chunk ∈ out := by
  induction hn : s.mDeque.length using Nat.strong_induction_on generalizing s with
  | _ n ih =>
      have hread : s.step max .readCurrentOutput =
          some (.chunks (s.mDeque.take (half s.mDeque.length)),
            { s with mDeque := s.mDeque.drop (half s.mDeque.length) }) := by
        simp only [TaskOutput.step, readCurrentOutput_eq]
      have hone : Run (TaskOutput.step max) (fun _ => SameTask) s [(.readCurrentOutput, _)] _ :=
        .single (show SameTask TaskAction.readCurrentOutput from trivial) hread
      rw [← List.take_append_drop (half s.mDeque.length) s.mDeque, List.mem_append] at h
      rcases h with h | h
      · exact ⟨_, _, hone, _, List.mem_singleton.mpr rfl, _, rfl, h⟩
      · -- the chunk is in the second half
        have hpos : 0 < s.mDeque.length := by
          rcases List.eq_nil_or_concat s.mDeque with hnil | ⟨_, _, hcons⟩
          · rw [hnil, List.drop_nil] at h
            cases h
          · simp [hcons]
        have hlt : (s.mDeque.drop (half s.mDeque.length)).length < n := by
          rw [List.length_drop, half]
          omega
        obtain ⟨es, t, hrun, e, he, hout⟩ := ih _ hlt { s with mDeque := _ } h rfl
        exact ⟨_, t, hone.append hrun, e, List.mem_append_right _ he, hout⟩

/-- **After a `start` that returned 0, only output of its own task is returned** up to the next
`start`, if and only if `m_deque` holds no chunk of another task when that `start` returns. -/
theorem only_own_output_iff
    (h : Run (TaskOutput.step max) anyAction fresh (es ++ [(.returned, .returned 0)]) s) :
    (∀ es' t, Run (TaskOutput.step max) anyAction s es' t → (∀ e ∈ es', SameTask e.1) →
        OnlyOf s.starts es') ↔
      ∀ chunk ∈ s.mDeque, chunk.1 = s.starts := by
  obtain ⟨s₀, -, -, hs⟩ := h.snoc_inv
  have hserving : s.phase = .serving := by
    simp only [TaskOutput.step] at hs
    split at hs
    · cases hs
      rfl
    · cases hs
  constructor
  · intro hall chunk hchunk
    obtain ⟨es', t, hrun, e, he, out, hout, hmem⟩ := exists_delivery max s hchunk
    have hsame : ∀ e ∈ es', SameTask e.1 := by
      intro e he
      obtain ⟨es₁, es₂, rfl⟩ := List.append_of_mem he
      obtain ⟨-, -, -, hok, -⟩ := hrun.at_step
      exact hok
    exact hall es' t (hrun.mono fun _ _ _ => trivial) hsame e he out hout chunk hmem
  · intro hown es' t hrun hsame
    exact (Own.run (hrun.of_forall hsame) ⟨hserving, rfl, hown⟩).2

/-- The first task prints a chunk that nobody asks for, and the second one is started. -/
def leftover : (p : IProc) → List (TaskAction p)
  | .linuxProc => [.start StartEnv.ok, .returned, .push (1, "a".toList),
      .call (.ends ((1 : Int), Processes.Termination.exited 0)), .start StartEnv.ok, .returned]
  | .winProc => [.start (WinStartEnv.ok, listing), .returned, .push (1, "a".toList),
      .call (.ends ((0 : Nat), (0 : DWord))), .start (WinStartEnv.ok, listing), .returned]

theorem leftover_runs (p : IProc) :
    (script (TaskOutput.step 1024) anyAction fresh (leftover p)).isSome := by
  cases p <;> decide +kernel

def secondStarted (p : IProc) : List (TaskAction p × TaskReport) × TaskOutput p :=
  (script (TaskOutput.step 1024) anyAction fresh (leftover p)).get (leftover_runs p)

theorem run_secondStarted (p : IProc) :
    ∃ es, Run (TaskOutput.step 1024) anyAction fresh (es ++ [(.returned, .returned 0)])
      (secondStarted p).2 := by
  have hrun := Run.of_script (leftover_runs p)
  have hes : (secondStarted p).1 = (secondStarted p).1.dropLast ++ [(.returned, .returned 0)] := by
    cases p <;> rfl
  exact ⟨_, hes ▸ hrun⟩

theorem only_own_output_iff_leftover :
    ∃ es s, Run (TaskOutput.step 1024) anyAction (fresh : TaskOutput .linuxProc)
        (es ++ [(.returned, .returned 0)]) s ∧ s.mDeque = [(1, "a".toList)] ∧
      ((∀ es' t, Run (TaskOutput.step 1024) anyAction s es' t → (∀ e ∈ es', SameTask e.1) →
          OnlyOf s.starts es') ↔
        ∀ chunk ∈ s.mDeque, chunk.1 = s.starts) := by
  obtain ⟨es, hrun⟩ := run_secondStarted .linuxProc
  exact ⟨es, _, hrun, by decide +kernel, only_own_output_iff hrun⟩

/-- A `start` that returned 0 for the second task, and behind it the output of the first one. -/
def ShowsFirst (p : IProc) : Prop :=
  ∃ es s, Run (TaskOutput.step 1024) anyAction (fresh : TaskOutput p)
      (es ++ [(.returned, .returned 0)]) s ∧ s.starts = 2 ∧
    (s.step 1024 .readCurrentOutput).map Prod.fst = some (.chunks [(1, "a".toList)])

theorem showsFirst (p : IProc) : ShowsFirst p := by
  obtain ⟨es, hrun⟩ := run_secondStarted p
  refine ⟨es, _, hrun, ?_⟩
  cases p with
  | linuxProc => exact ⟨by decide +kernel, by decide +kernel⟩
  | winProc => exact ⟨by decide +kernel, by decide +kernel⟩

/-- **The output of the first task is shown as that of the second**, by both classes. -/
theorem output_of_first_task_shown : ShowsFirst .linuxProc ∧ ShowsFirst .winProc :=
  ⟨showsFirst .linuxProc, showsFirst .winProc⟩

end TaskOutput

end SimpleTaskQueue
