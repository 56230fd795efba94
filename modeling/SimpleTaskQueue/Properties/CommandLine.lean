import SimpleTaskQueue.Model.Proc.WinProc
/-!
# SimpleTaskQueue.Properties.CommandLine

**Can a program on Windows recover its arguments?** `WinProc` writes them behind each other, with a
space behind each and no quotes. `LinuxProc` hands them over one by one.
-/

namespace SimpleTaskQueue

open WinProc

variable {task : Task} {a b : Str} {args : List Str}

/-- Every argument with a space behind it. -/
def spaced (args : List Str) : Str := args.flatMap fun arg => arg ++ [' ']

@[simp] theorem spaced_cons (a : Str) (args : List Str) :
    spaced (a :: args) = a ++ ' ' :: spaced args := by
  simp [spaced]

theorem cmdLine_nil (h : task.args = []) : cmdLine task = task.execName := by
  rw [cmdLine, h]
  rfl

theorem cmdLine_ne_nil (h : task.args ≠ []) :
    cmdLine task = task.execName ++ [' '] ++ spaced task.args := by
  have hloop : ∀ (args : List Str) (line : Str),
      args.foldl (fun line arg => line ++ arg ++ [' ']) line = line ++ spaced args := by
    intro args
    induction args with
    | nil => exact fun line => (List.append_nil line).symm
    | cons a args ih =>
        intro line
        rw [List.foldl_cons, ih, spaced_cons, List.append_assoc, List.append_assoc,
          List.singleton_append]
  rw [cmdLine, List.isEmpty_eq_false_iff.mpr h]
  exact hloop _ _

/-- Two tasks for the same program have the same command line. -/
theorem cmdLine_eq_iff (task : Task) (args : List Str) :
    cmdLine { task with args := args } = cmdLine task ↔
      spaced args = spaced task.args ∧ (args = [] ↔ task.args = []) := by
  by_cases h : task.args = []
  · by_cases h' : args = []
    · rw [cmdLine_nil h, cmdLine_nil h', h, h']
      simp
    · rw [cmdLine_nil h, cmdLine_ne_nil h']
      simp [h, h']
  · by_cases h' : args = []
    · rw [cmdLine_ne_nil h, cmdLine_nil h']
      simp [h, h']
    · rw [cmdLine_ne_nil h, cmdLine_ne_nil h']
      simp [h, h']

/-- There are at least as many spaces as arguments. -/
theorem count_spaced (args : List Str) :
    (spaced args).count ' ' = (args.map fun arg => arg.count ' ').sum + args.length := by
  induction args with
  | nil => rfl
  | cons a args ih =>
      rw [spaced_cons, List.count_append, List.count_cons_self, ih, List.map_cons, List.sum_cons,
        List.length_cons]
      omega

/-- A single argument without a space is recovered. -/
theorem eq_of_spaced_eq (ha : ' ' ∉ a) (h : spaced args = spaced [a]) : args = [a] := by
  have hcount := congrArg (List.count ' ') h
  rw [count_spaced, count_spaced] at hcount
  simp only [List.map_cons, List.map_nil, List.sum_cons, List.sum_nil, List.length_singleton,
    List.count_eq_zero_of_not_mem ha] at hcount
  match args with
  | [] => simp at hcount
  | [b] =>
      have hab : b ++ [' '] = a ++ [' '] := by simpa using h
      rw [List.append_cancel_right hab]
  | _ :: _ :: _ =>
      simp only [List.length_cons] at hcount
      omega

/-- `CreateChildProcess` builds `line` for the task, if the system lets it come so far. -/
def Builds (task : Task) (line : Str) : Prop :=
  ∃ (p : WinProc) (env : WinStartEnv) (k : WinChildren),
    (p.createChildProcess env task k).2.2.2 = some line

theorem builds_iff {line : Str} : Builds task line ↔ task.execName ≠ [] ∧ line = cmdLine task := by
  constructor
  · rintro ⟨p, env, k, h⟩
    unfold createChildProcess at h
    split at h
    · cases h
    next hname =>
    have hname : task.execName ≠ [] := fun hnil => hname (List.isEmpty_iff.mpr hnil)
    split at h
    · cases h
    split at h
    · cases h
    split at h
    · exact ⟨hname, (Option.some.inj h).symm⟩
    · exact ⟨hname, (Option.some.inj h).symm⟩
  · rintro ⟨hname, rfl⟩
    refine ⟨new, WinStartEnv.ok, [], ?_⟩
    rw [createChildProcess, if_neg (fun hnil => hname (List.isEmpty_iff.mp hnil))]
    rfl

/-- No other arguments give the same command line exactly if there are none, or a single one without
a space. -/
theorem cmdLine_eq_imp_iff (task : Task) :
    (∀ args, cmdLine { task with args := args } = cmdLine task → args = task.args) ↔
      task.args = [] ∨ ∃ a, task.args = [a] ∧ ' ' ∉ a := by
  simp only [cmdLine_eq_iff]
  constructor
  · intro h
    match hargs : task.args with
    | [] => exact .inl rfl
    | [a] =>
        refine .inr ⟨a, rfl, fun ha => ?_⟩
        -- the argument could be two
        obtain ⟨x, y, rfl⟩ := List.append_of_mem ha
        have := h [x, y] (by simp [hargs])
        simp [hargs] at this
    | a :: b :: args =>
        -- the first two arguments could be one
        have := h ((a ++ [' '] ++ b) :: args) (by simp [hargs])
        simp [hargs] at this
  · rintro (hargs | ⟨a, hargs, ha⟩) args ⟨hspaced, hnil⟩
    · rw [hargs, hnil, hargs]
    · rw [hargs] at hspaced ⊢
      exact eq_of_spaced_eq ha hspaced

/-- **The command line determines the arguments** of a task exactly if it has none, or one without
a space (or no name, and then there is no command line). -/
theorem cmdLine_determines_iff (task : Task) :
    (∀ task' line, task'.execName = task.execName → Builds task line → Builds task' line →
        task'.args = task.args) ↔
      task.execName = [] ∨ task.args = [] ∨ ∃ a, task.args = [a] ∧ ' ' ∉ a := by
  by_cases hname : task.execName = []
  · exact iff_of_true (fun _ _ _ h => absurd hname (builds_iff.mp h).1) (.inl hname)
  rw [or_iff_right hname, ← cmdLine_eq_imp_iff]
  constructor
  · intro h args hline
    exact h { task with args := args } (cmdLine task) rfl (builds_iff.mpr ⟨hname, rfl⟩)
      (builds_iff.mpr ⟨hname, hline.symm⟩)
  · intro h task' line hexec hb hb'
    obtain ⟨-, rfl⟩ := builds_iff.mp hb
    obtain ⟨-, hline⟩ := builds_iff.mp hb'
    refine h task'.args ?_
    rw [hline, cmdLine, cmdLine, hexec]

/-- `ls` with the argument `a b`, and with `a` and `b`. -/
theorem cmdLine_one_or_two :
    Builds { listing with args := ["a b".toList] } "/bin/ls a b ".toList ∧
      Builds { listing with args := ["a".toList, "b".toList] } "/bin/ls a b ".toList ∧
      ["a b".toList] ≠ ["a".toList, "b".toList] :=
  ⟨builds_iff.mpr (by decide), builds_iff.mpr (by decide), by decide⟩

end SimpleTaskQueue
