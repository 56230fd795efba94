import SimpleTaskQueue.Core.Words
import SimpleTaskQueue.Model.Controller.CLI.Args
/-!
# SimpleTaskQueue.Properties.Prompt

**What the prompt makes of its input.** The words of a line are its maximal runs without a space,
as long as the line does not end with one: what is left behind the last space is taken for a word,
also if it is empty. And a call of `getArgs` ends when it gets a line that is not empty; the end of
the input looks like an empty line, so behind the last such line a call does not end.
-/

namespace SimpleTaskQueue

open Args Delimited Words

/-! ### The words of a line -/

/-- What `getArgs` puts behind the words. -/
def trail (line : Str) : List Str := if line = [] ∨ line.getLast? = some ' ' then [[]] else []

theorem trail_append (x y : Str) : trail (x ++ ' ' :: y) = trail y := by
  cases y with
  | nil => simp [trail]
  | cons c y => simp [trail]

theorem space_notMem_of_find_none {line : Str} (h : find [' '] line = none) : ' ' ∉ line := by
  intro hmem
  obtain ⟨x, y, rfl⟩ := List.append_of_mem hmem
  exact find_eq_none_iff.mp h ⟨x, y, by simp⟩

theorem find_space {line : Str} {pos : Nat} (h : find [' '] line = some pos) :
    line = line.take pos ++ ' ' :: line.drop (pos + 1) ∧ ' ' ∉ line.take pos := by
  refine ⟨by simpa using find_split h, fun hmem => ?_⟩
  obtain ⟨j, hj, hget⟩ := List.mem_take_iff_getElem.mp hmem
  have hle := find_min (j := j) (d := [' ']) (s := line) ?_ h
  · omega
  · rw [List.drop_eq_getElem_cons (by omega), hget]
    exact ⟨_, rfl⟩

theorem tokenLoop_eq {n : Nat} {line : Str} (h : line.length ≤ n) (mArgs : List Str) :
    tokenLoop n line mArgs = mArgs ++ (words ' ' line ++ trail line) := by
  induction n generalizing line mArgs with
  | zero =>
      obtain rfl := List.eq_nil_of_length_eq_zero (Nat.le_zero.mp h)
      simp [tokenLoop, trail]
  | succ n ih =>
      rw [tokenLoop]
      cases hfind : find [' '] line with
      | none =>
          have hmem := space_notMem_of_find_none hfind
          by_cases hnil : line = []
          · subst hnil
            simp [trail]
          · have hlast : line.getLast? ≠ some ' ' := fun hlast =>
              hmem (List.mem_of_getLast? hlast)
            rw [words_of_notMem hnil hmem, trail, if_neg (by simp [hnil, hlast])]
            rfl
      | some pos =>
          obtain ⟨hline, hmem⟩ := find_space hfind
          have hlen : (line.drop (pos + 1)).length ≤ n := by
            rw [List.length_drop]
            omega
          have htrail : trail line = trail (line.drop (pos + 1)) :=
            (congrArg trail hline).trans (trail_append _ _)
          have hwords : words ' ' line =
              words ' ' (line.take pos) ++ words ' ' (line.drop (pos + 1)) := by
            rw [← words_append_sep, ← hline]
          simp only
          rw [ih hlen, htrail, hwords]
          by_cases hnil : line.take pos = []
          · simp [hnil]
          · rw [words_of_notMem hnil hmem]
            simp [hnil]

theorem tokens_eq {line : Str} (h : line ≠ []) :
    tokens line = words ' ' line ++ if line.getLast? = some ' ' then [[]] else [] := by
  rw [tokens, tokenLoop_eq le_rfl, List.nil_append, trail]
  simp [h]

namespace Prompt

variable {s u : Prompt} {env : GetArgsEnv} {n rc : Nat} {line : Str} {rest : List Str}

/-! ### A call of `getArgs` -/

theorem cleanArgv_mArgs (h : s.cleanArgv = some u) : u.args.mArgs = s.args.mArgs := by
  unfold Prompt.cleanArgv at h
  split at h
  · cases h
    rfl
  · obtain ⟨r, -, rfl⟩ := Option.map_eq_some_iff.mp h
    rfl

theorem copyArgv_mArgs (h : copyArgv env s = .returned rc u) : u.args.mArgs = s.args.mArgs := by
  unfold copyArgv at h
  split at h
  · cases h
  split at h
  · cases h
  dsimp only at h
  split at h
  · split at h
    · cases h
    · cases h
      rfl
  · split at h
    · cases h
    · next hclean =>
      cases h
      have hm := cleanArgv_mArgs hclean
      exact hm

theorem fillArgv_mArgs (h : fillArgv env s = .returned rc u) : u.args.mArgs = s.args.mArgs := by
  unfold fillArgv at h
  split at h
  · cases h
  · next hclean =>
    rw [← cleanArgv_mArgs hclean]
    dsimp only at h
    split at h
    · split at h
      · have hm := copyArgv_mArgs h
        exact hm
      · cases h
        rfl
    · exact copyArgv_mArgs h

/-- Behind some empty lines the call finds `line`, and the client runs so long. -/
def Finds (s : Prompt) (env : GetArgsEnv) (line : Str) : Prop :=
  ∃ empty rest, s.input = List.replicate empty [] ++ line :: rest ∧
    ∀ i ≤ empty, env.keepRunning i = true

theorem readLoop_empty {keepRunning : Nat → Bool} {empty i : Nat} {mArgs : List Str}
    {r : List Str × List Str} (hline : line ≠ [])
    (hkeep : ∀ j ≤ empty, keepRunning (i + j) = true)
    (h : Args.readLoop keepRunning n i mArgs (List.replicate empty [] ++ line :: rest) = some r) :
    r = (tokens line, rest) := by
  induction empty generalizing n i mArgs with
  | zero =>
      cases n with
      | zero => cases h
      | succ n =>
          have hi : keepRunning i = true := hkeep 0 le_rfl
          simp only [List.replicate_zero, List.nil_append, Args.readLoop, hi, if_true, getline,
            List.isEmpty_eq_false_iff.mpr hline, Bool.false_eq_true, if_false] at h
          exact (Option.some.inj h).symm
  | succ empty ih =>
      cases n with
      | zero => cases h
      | succ n =>
          have hi : keepRunning i = true := hkeep 0 (Nat.zero_le _)
          simp only [List.replicate_succ, List.cons_append, Args.readLoop, hi, if_true, getline,
            List.isEmpty_nil] at h
          refine ih (fun j hj => ?_) h
          rw [Nat.add_right_comm, Nat.add_assoc]
          exact hkeep (j + 1) (by omega)

/-- A call that finds a line leaves its words in `m_args`. -/
theorem getArgs_mArgs (hline : line ≠ []) (hfinds : Finds s env line)
    (h : s.getArgs n env = .returned rc u) : u.args.mArgs = tokens line := by
  obtain ⟨empty, rest, hin, hkeep⟩ := hfinds
  unfold getArgs at h
  split at h
  · cases h
  · next mArgs input hread =>
    rw [hin] at hread
    obtain ⟨rfl, rfl⟩ := Prod.mk.inj (readLoop_empty hline
      (fun j hj => by rw [Nat.zero_add]; exact hkeep j hj) hread)
    exact fillArgv_mArgs h

/-- **The command line is split into its words**, and further spaces between or around the words
change nothing, if and only if neither the line nor the one with further spaces ends with a
space. -/
theorem args_words_iff {s' u' : Prompt} {env' : GetArgsEnv} {n' : Nat} {line' : Str}
    (hline : line ≠ []) (hpad : Padded ' ' line line') (hfinds : Finds s env line)
    (hfinds' : Finds s' env' line') (h : s.getArgs n env = .returned 0 u)
    (h' : s'.getArgs n' env' = .returned 0 u') :
    (IsWords ' ' line u.args.mArgs ∧ [] ∉ u.args.mArgs ∧ u'.args.mArgs = u.args.mArgs) ↔
      line.getLast? ≠ some ' ' ∧ line'.getLast? ≠ some ' ' := by
  have hline' : line' ≠ [] := by
    cases hpad with
    | refl => exact hline
    | before | between | behind => simp
  rw [getArgs_mArgs hline hfinds h, getArgs_mArgs hline' hfinds' h', tokens_eq hline,
    tokens_eq hline', words_padded hpad, isWords_iff]
  have hnil : [] ∉ words ' ' line := (isWords_words ' ' line).ne_nil
  by_cases hlast : line.getLast? = some ' '
  · simp [hlast]
  · by_cases hlast' : line'.getLast? = some ' '
    · simp [hlast, hlast']
    · simp [hlast, hlast', hnil]

/-- The prompt gets a line from `std::cin`. -/
def reads (line : Str) : Prompt := fresh 16 [line]

theorem finds_reads (line : Str) : Finds (reads line) (.ok 16) line :=
  ⟨0, [], rfl, fun _ _ => rfl⟩

theorem args_words_iff_printAll :
    ∃ u u', (reads "print all".toList).getArgs 1 (.ok 16) = .returned 0 u ∧
      (reads " print  all".toList).getArgs 1 (.ok 16) = .returned 0 u' ∧
      ((IsWords ' ' "print all".toList u.args.mArgs ∧ [] ∉ u.args.mArgs ∧
          u'.args.mArgs = u.args.mArgs) ↔
        "print all".toList.getLast? ≠ some ' ' ∧ " print  all".toList.getLast? ≠ some ' ') := by
  have hpad : Padded ' ' "print all".toList " print  all".toList :=
    .between (x := " print".toList) (y := "all".toList) (.before .refl)
  obtain ⟨u, hu⟩ : ∃ u, (reads "print all".toList).getArgs 1 (.ok 16) = .returned 0 u := ⟨_, rfl⟩
  obtain ⟨u', hu'⟩ : ∃ u, (reads " print  all".toList).getArgs 1 (.ok 16) = .returned 0 u :=
    ⟨_, rfl⟩
  exact ⟨u, u', hu, hu', args_words_iff (by decide) hpad (finds_reads _) (finds_reads _) hu hu'⟩

/-- **A space behind `ls`** is followed by an empty word. -/
theorem trailing_space_word :
    ∃ u, (reads "ls ".toList).getArgs 1 (.ok 16) = .returned 0 u ∧
      u.args.mArgs = ["ls".toList, []] ∧ ¬ IsWords ' ' "ls ".toList u.args.mArgs := by
  refine ⟨_, rfl, by decide, fun hwords => hwords.ne_nil (by decide)⟩

/-! ### The end of the input -/

/-- The first loop ends in the round that gets a line. -/
theorem readLoop_ends_iff {keepRunning : Nat → Bool} (hkeep : ∀ i, keepRunning i = true)
    (i : Nat) (mArgs input : List Str) :
    (∃ n, (Args.readLoop keepRunning n i mArgs input).isSome = true) ↔
      ∃ line ∈ input, line ≠ [] := by
  constructor
  · intro hends
    obtain ⟨n, hn⟩ := hends
    induction n generalizing i mArgs input with
    | zero => cases hn
    | succ n ih =>
        rw [Args.readLoop, if_pos (hkeep i)] at hn
        cases input with
        | nil =>
            -- at the end of the input every round is like this one
            simp only [getline, List.isEmpty_nil, if_true] at hn
            exact ih _ _ _ hn
        | cons line input =>
            by_cases hline : line = []
            · subst hline
              simp only [getline, List.isEmpty_nil, if_true] at hn
              obtain ⟨l, hl, hne⟩ := ih _ _ _ hn
              exact ⟨l, List.mem_cons_of_mem _ hl, hne⟩
            · exact ⟨line, List.mem_cons_self, hline⟩
  · intro hline
    obtain ⟨line, hmem, hline⟩ := hline
    induction input generalizing i mArgs with
    | nil => cases hmem
    | cons l input ih =>
        by_cases hl : l = []
        · subst hl
          obtain ⟨n, hn⟩ := ih (i + 1) [] ((List.mem_cons.mp hmem).resolve_left hline)
          refine ⟨n + 1, ?_⟩
          simpa [Args.readLoop, hkeep, getline] using hn
        · exact ⟨1, by simp [Args.readLoop, hkeep, getline, hl]⟩

theorem copyArgv_ne_reading : copyArgv env s ≠ .reading := by
  unfold copyArgv
  split
  · simp
  split
  · simp
  dsimp only
  split <;> split <;> simp

theorem fillArgv_ne_reading : fillArgv env s ≠ .reading := by
  unfold fillArgv
  split
  · simp
  dsimp only
  split
  · split
    · exact copyArgv_ne_reading
    · simp
  · exact copyArgv_ne_reading

/-- A call is behind its first loop, or still reading. -/
theorem getArgs_ne_reading_iff (s : Prompt) :
    s.getArgs n env ≠ .reading ↔
      (Args.readLoop env.keepRunning n 0 s.args.mArgs s.input).isSome = true := by
  cases hread : Args.readLoop env.keepRunning n 0 s.args.mArgs s.input with
  | none => simp [getArgs, hread]
  | some r =>
      simp only [getArgs, hread, Option.isSome_some, iff_true]
      exact fillArgv_ne_reading

/-- **A call of `getArgs` ends**, as long as the client runs, if and only if there is a line left
that is not empty. -/
theorem getArgs_ends_iff (s : Prompt) (hkeep : ∀ i, env.keepRunning i = true) :
    (∃ n, s.getArgs n env ≠ .reading) ↔ ∃ line ∈ s.input, line ≠ [] := by
  rw [← readLoop_ends_iff hkeep 0 s.args.mArgs]
  exact exists_congr fun n => getArgs_ne_reading_iff s

theorem getArgs_ends_iff_blankFirst :
    (∃ n, (fresh 16 [[], "ls".toList]).getArgs n (.ok 16) ≠ .reading) ↔
      ∃ line ∈ (fresh 16 [[], "ls".toList]).input, line ≠ [] :=
  getArgs_ends_iff _ fun _ => rfl

/-- **At the end of the input the prompt spins**, whatever the number of rounds. -/
theorem end_of_input_spins :
    (∀ i, (GetArgsEnv.ok 16).keepRunning i = true) ∧
      ∀ n, (fresh 16 []).getArgs n (.ok 16) = .reading := by
  refine ⟨fun _ => rfl, fun n => ?_⟩
  by_contra hn
  have hsome := (getArgs_ne_reading_iff _).mp hn
  obtain ⟨line, hline, -⟩ := (readLoop_ends_iff (fun _ => rfl) _ _ _).mp ⟨n, hsome⟩
  cases hline

end Prompt

end SimpleTaskQueue
