import Mathlib.Data.List.Nodup
import Mathlib.Data.List.ReduceOption
import SimpleTaskQueue.Model.Controller.CLI.Args
/-!
# SimpleTaskQueue.Properties.Argv

**Does `argv` stay in bounds and match `args`?** `cleanArgv` takes the capacity of `m_args` for the
length of `m_argv`, and it runs after the new line was split: as soon as the vector has grown, it
reads behind the end of the array. As long as it does not grow, everything is in step.
-/

namespace SimpleTaskQueue

open Runs Args

namespace Prompt

variable {s t : Prompt} {env : GetArgsEnv} {n : Nat} {mArgv : List (Option Nat)}
  {deleted : List Nat} {made words : List Str}

/-! ### The loops -/

/-- In bounds `cleanArgv` deletes all strings in the array, behind those before `i`. -/
theorem cleanLoop_eq (done rest : List (Option Nat)) (deleted : List Nat) :
    cleanLoop rest.length done.length (done ++ rest) deleted =
      some (done ++ List.replicate rest.length none, deleted ++ rest.reduceOption) := by
  induction rest generalizing done deleted with
  | nil => simp [cleanLoop]
  | cons entry rest ih =>
      have hget : (done ++ entry :: rest)[done.length]? = some entry := by simp
      have hset : (done ++ entry :: rest).set done.length none = done ++ [none] ++ rest := by simp
      have hih := fun deleted => ih (done ++ [none]) deleted
      simp only [List.length_append, List.length_singleton, List.append_assoc,
        List.singleton_append] at hih hset
      rw [List.length_cons, cleanLoop, hget]
      cases entry with
      | none =>
          simp only [hih]
          rfl
      | some string =>
          simp only [hset, hih, List.append_assoc]
          rfl

theorem cleanLoop_fault {i : Nat} (hi : i ≤ mArgv.length) (h : mArgv.length < i + n) :
    cleanLoop n i mArgv deleted = none := by
  induction n generalizing i mArgv deleted with
  | zero => omega
  | succ n ih =>
      rw [cleanLoop]
      split
      · rfl
      · next hget => exact ih (List.getElem?_eq_some_iff.mp hget).1 (by omega)
      · next hget =>
          have hlt := (List.getElem?_eq_some_iff.mp hget).1
          exact ih (by rw [List.length_set]; exact hlt) (by rw [List.length_set]; omega)

/-- The copies of the words come behind the strings made before. -/
theorem copyLoop_eq {newString : Nat → Bool} (hnew : ∀ i, newString i = true)
    (words : List Str) (done rest : List (Option Nat)) (made : List Str)
    (h : words.length ≤ rest.length) :
    copyLoop newString done.length words (done ++ rest) made =
      some (true, done ++ ((List.range' made.length words.length).map some ++
          rest.drop words.length), made ++ words.map fun word => word ++ [nul]) := by
  induction words generalizing done rest made with
  | nil => simp [copyLoop]
  | cons word words ih =>
      cases rest with
      | nil => simp at h
      | cons entry rest =>
          have hlen : ¬ (done ++ entry :: rest).length ≤ done.length := by simp
          have hset : (done ++ entry :: rest).set done.length (some made.length) =
              done ++ [some made.length] ++ rest := by simp
          have hih := ih (done ++ [some made.length]) rest (made ++ [word ++ [nul]])
            (by simpa using h)
          simp only [List.length_append, List.length_singleton] at hih
          rw [copyLoop, if_neg hlen, if_pos (hnew _), hset, hih]
          simp [List.range'_succ]

/-! ### The state between two calls -/

/-- `argv` holds a copy of each word, and `NULL` behind them; the copies are not deleted, and every
string made before them is deleted exactly once. -/
def Matches (s : Prompt) : Prop :=
  ∃ mArgv, s.args.mArgv = some mArgv ∧
    (∀ (i : Nat) (word : Str), s.args.mArgs[i]? = some word →
      ∃ string : Nat, mArgv[i]? = some (some string) ∧
        s.strings.made[string]? = some (word ++ [nul]) ∧ string ∉ s.strings.deleted) ∧
    mArgv[s.args.argc]? = some none ∧
    ∀ string, string + s.args.argc < s.strings.made.length → s.strings.deleted.count string = 1

/-- The same, if there was no fault. -/
def InBounds : Option Prompt → Prop
  | none => False
  | some s => Matches s

/-- All allocations succeed, and the capacity of a vector never shrinks and is at least its size. -/
def Allowed : Option Prompt → Nat × GetArgsEnv → Prop
  | none, _ => True
  | some s, (n, env) =>
    env.newArgv = true ∧ (∀ i, env.newString i = true) ∧ s.args.capacity ≤ env.capacity ∧
      ∀ mArgs input, Args.readLoop env.keepRunning n 0 s.args.mArgs s.input = some (mArgs, input) →
        mArgs.length ≤ env.capacity

/-- The capacity of `m_args` does not grow. -/
def KeepsCapacity : Option Prompt → Nat × GetArgsEnv → Prop
  | none, _ => True
  | some s, (_, env) => env.capacity = s.args.capacity

/-- **The invariant**: the three sizes are in step, and `argv` has the strings of the last call,
which are not deleted. -/
structure InSync (s : Prompt) (earlier : List Str) : Prop where
  fits : s.args.mArgs.length ≤ s.args.capacity
  len : s.args.mArgvLen ≤ s.args.capacity + 1
  argv : s.args.mArgv =
    some ((List.range' earlier.length s.args.mArgs.length).map some ++
      List.replicate (s.args.capacity + 1 - s.args.mArgs.length) none)
  made : s.strings.made = earlier ++ s.args.mArgs.map fun word => word ++ [nul]
  deleted : s.strings.deleted = List.range earlier.length

theorem InSync.matches {earlier : List Str} (h : InSync s earlier) : Matches s := by
  refine ⟨_, h.argv, fun i word hword => ?_, ?_, fun string hstring => ?_⟩
  · have hi := (List.getElem?_eq_some_iff.mp hword).1
    refine ⟨earlier.length + i, ?_, ?_, ?_⟩
    · rw [List.getElem?_append_left (by simpa using hi), List.getElem?_map,
        List.getElem?_range' hi]
      simp
    · rw [h.made, List.getElem?_append_right (by omega), Nat.add_sub_cancel_left, List.getElem?_map,
        hword]
      rfl
    · rw [h.deleted, List.mem_range]
      omega
  · have hfits := h.fits
    rw [List.getElem?_append_right (by simp [argc])]
    simp [argc, List.getElem?_replicate]
    omega
  · rw [h.made] at hstring
    simp only [argc, List.length_append, List.length_map] at hstring
    rw [h.deleted, List.count_eq_one_of_mem List.nodup_range]
    rw [List.mem_range]
    omega

/-- The length of `argv`. -/
theorem InSync.exists_argv {earlier : List Str} (h : InSync s earlier) :
    ∃ mArgv, s.args.mArgv = some mArgv ∧ mArgv.length = s.args.capacity + 1 ∧
      mArgv.reduceOption = List.range' earlier.length s.args.mArgs.length := by
  have hfits := h.fits
  refine ⟨_, h.argv, by simp; omega, ?_⟩
  rw [List.reduceOption_append, List.reduceOption_replicate_none, List.append_nil]
  simp [List.reduceOption]

/-! ### One call -/

theorem cleanArgv_of_length (hargv : s.args.mArgv = some mArgv)
    (hlen : mArgv.length = s.args.capacity + 1) :
    s.cleanArgv = some { s with
      args := { s.args with mArgv := some (List.replicate (s.args.capacity + 1) none) },
      strings := { s.strings with deleted := s.strings.deleted ++ mArgv.reduceOption } } := by
  have hloop := cleanLoop_eq [] mArgv s.strings.deleted
  rw [hlen] at hloop
  simp only [List.nil_append, List.length_nil] at hloop
  simp only [Prompt.cleanArgv, hargv, hloop, Option.map_some]

theorem cleanArgv_fault (hargv : s.args.mArgv = some mArgv)
    (hlen : mArgv.length < s.args.capacity + 1) : s.cleanArgv = none := by
  have hloop : cleanLoop (s.args.capacity + 1) 0 mArgv s.strings.deleted = none :=
    cleanLoop_fault (Nat.zero_le _) (by omega)
  simp only [Prompt.cleanArgv, hargv, hloop, Option.map_none]

/-- The words are copied to an array that was cleaned, or is new. -/
theorem copyArgv_clean (hnew : ∀ i, env.newString i = true)
    (hargv : s.args.mArgv = some (List.replicate (s.args.capacity + 1) none))
    (hfits : s.args.mArgs.length ≤ s.args.capacity) :
    copyArgv env s = .returned 0 { s with
      args := { s.args with
        mArgv := some ((List.range' s.strings.made.length s.args.mArgs.length).map some ++
          List.replicate (s.args.capacity + 1 - s.args.mArgs.length) none) },
      strings := { s.strings with
        made := s.strings.made ++ s.args.mArgs.map fun word => word ++ [nul] } } := by
  have hloop := copyLoop_eq hnew s.args.mArgs [] (List.replicate (s.args.capacity + 1) none)
    s.strings.made (by rw [List.length_replicate]; omega)
  rw [List.nil_append, List.length_nil, List.nil_append, List.drop_replicate] at hloop
  have hlen : ¬ ((List.range' s.strings.made.length s.args.mArgs.length).map some ++
      List.replicate (s.args.capacity + 1 - s.args.mArgs.length) (none : Option Nat)).length ≤
        s.args.mArgs.length := by
    simp
    omega
  -- behind the words there is a null pointer already
  have hset : ((List.range' s.strings.made.length s.args.mArgs.length).map some ++
      List.replicate (s.args.capacity + 1 - s.args.mArgs.length) (none : Option Nat)).set
        s.args.mArgs.length none =
      (List.range' s.strings.made.length s.args.mArgs.length).map some ++
        List.replicate (s.args.capacity + 1 - s.args.mArgs.length) none := by
    rw [List.set_append_right _ _ (by simp)]
    congr 1
    obtain ⟨k, hk⟩ : ∃ k, s.args.capacity + 1 - s.args.mArgs.length = k + 1 :=
      ⟨s.args.capacity - s.args.mArgs.length, by omega⟩
    simp [hk, List.replicate_succ]
  simp only [copyArgv, hargv, hloop, if_true, if_neg hlen, hset]

/-- **A call that keeps the capacity keeps the sizes in step.** -/
theorem InSync.fillArgv {earlier : List Str} (h : InSync s earlier) (hnewArgv : env.newArgv = true)
    (hnew : ∀ i, env.newString i = true) (hfits : words.length ≤ s.args.capacity)
    (input : List Str) :
    ∃ u, Prompt.fillArgv env { s with args := { s.args with mArgs := words }, input := input } =
        .returned 0 u ∧
      InSync u s.strings.made ∧ u.args.mArgs = words ∧ u.args.capacity = s.args.capacity := by
  obtain ⟨mArgv, hargv, hlen, hstrings⟩ := h.exists_argv
  have hclean := cleanArgv_of_length
    (s := { s with args := { s.args with mArgs := words }, input := input }) hargv hlen
  have hdeleted : s.strings.deleted ++ mArgv.reduceOption = List.range s.strings.made.length := by
    rw [hstrings, h.deleted, h.made, List.length_append, List.length_map, List.range_add,
      List.range'_eq_map_range]
  unfold Prompt.fillArgv
  rw [hclean]
  simp only [hnewArgv, if_true]
  split
  · rw [copyArgv_clean hnew rfl hfits]
    exact ⟨_, rfl, ⟨hfits, le_rfl, rfl, rfl, hdeleted⟩, rfl, rfl⟩
  · rw [copyArgv_clean hnew rfl hfits]
    exact ⟨_, rfl, ⟨hfits, h.len, rfl, rfl, hdeleted⟩, rfl, rfl⟩

theorem fillArgv_fault {earlier : List Str} (h : InSync s earlier) {capacity : Nat}
    (hgrows : s.args.capacity < capacity) (input : List Str) :
    Prompt.fillArgv env { s with
      args := { s.args with mArgs := words, capacity := capacity }, input := input } = .fault := by
  obtain ⟨mArgv, hargv, hlen, -⟩ := h.exists_argv
  have hclean := cleanArgv_fault
    (s := { s with args := { s.args with mArgs := words, capacity := capacity }, input := input })
    hargv (by simp only; omega)
  unfold Prompt.fillArgv
  rw [hclean]

/-! ### All calls -/

theorem inSync_fresh {capacity : Nat} (hcap : 16 ≤ capacity) (input : List Str) :
    InSync (fresh capacity input) [] :=
  ⟨Nat.zero_le _, by show 17 ≤ capacity + 1; omega, by simp [fresh, Args.init, Args.new], rfl, rfl⟩

/-- The state of a run without a fault so far. -/
def Synced (t : Option Prompt) : Prop := ∃ s earlier, t = some s ∧ InSync s earlier

variable {t u : Option Prompt} {a : Nat × GetArgsEnv} {o : Option Nat}
  {es : List ((Nat × GetArgsEnv) × Option Nat)}

/-- What a call does behind its first loop. -/
theorem step_cases {n : Nat} (h : step (some s) (n, env) = some (o, u)) :
    ∃ words input, Args.readLoop env.keepRunning n 0 s.args.mArgs s.input = some (words, input) ∧
      ∀ r, fillArgv env { s with
          args := { s.args with mArgs := words, capacity := env.capacity }, input := input } = r →
        (r = .fault → u = none) ∧ ∀ rc s', r = .returned rc s' → u = some s' := by
  simp only [step, getArgs] at h
  cases hread : Args.readLoop env.keepRunning n 0 s.args.mArgs s.input with
  | none =>
      rw [hread] at h
      cases h
  | some r =>
      obtain ⟨words, input⟩ := r
      rw [hread] at h
      refine ⟨words, input, rfl, ?_⟩
      intro r hr
      simp only [hr] at h
      constructor
      · rintro rfl
        cases h
        rfl
      · rintro rc s' rfl
        cases h
        rfl

theorem Synced.step (ht : Synced t) (hok : Allowed t a) (hs : Prompt.step t a = some (o, u))
    (hkeeps : KeepsCapacity t a) : Synced u := by
  obtain ⟨s, earlier, rfl, hsync⟩ := ht
  obtain ⟨n, env⟩ := a
  obtain ⟨hnewArgv, hnew, -, hsize⟩ := hok
  obtain ⟨words, input, hread, hfill⟩ := step_cases hs
  have hcap : env.capacity = s.args.capacity := hkeeps
  have hfits := hsize words input hread
  rw [hcap] at hfits hfill
  obtain ⟨u', hu', hsync', -⟩ := hsync.fillArgv hnewArgv hnew hfits input
  exact ⟨u', s.strings.made, (hfill _ rfl).2 0 u' hu', hsync'⟩

theorem Synced.not_inBounds (ht : Synced t) (hok : Allowed t a)
    (hs : Prompt.step t a = some (o, u)) (hkeeps : ¬ KeepsCapacity t a) : ¬ InBounds u := by
  obtain ⟨s, earlier, rfl, hsync⟩ := ht
  obtain ⟨n, env⟩ := a
  obtain ⟨-, -, hcap, -⟩ := hok
  obtain ⟨words, input, -, hfill⟩ := step_cases hs
  have hne : env.capacity ≠ s.args.capacity := hkeeps
  have hgrows : s.args.capacity < env.capacity := by omega
  have hfault : fillArgv env { s with
      args := { s.args with mArgs := words, capacity := env.capacity }, input := input } = .fault :=
    fillArgv_fault hsync hgrows input
  rw [(hfill _ rfl).1 hfault]
  exact id

/-- **`argv` stays in bounds and matches `args`** after every call of a run, from an object behind
`init`, if and only if the capacity of `m_args` never grows. -/
theorem argv_always_iff {capacity : Nat} (hcap : 16 ≤ capacity) {input : List Str}
    (h : Run step Allowed (some (fresh capacity input)) es t) :
    (∀ es₁ es₂ t, es = es₁ ++ es₂ → Run step Allowed (some (fresh capacity input)) es₁ t →
        InBounds t) ↔
      ∀ es₁ a o es₂ t, es = es₁ ++ (a, o) :: es₂ →
        Run step Allowed (some (fresh capacity input)) es₁ t → KeepsCapacity t a := by
  refine h.always_iff (I := Synced) ⟨_, [], rfl, inSync_fresh hcap input⟩ ?_ ?_ ?_
  · intro t ht
    obtain ⟨s, earlier, rfl, hsync⟩ := ht
    exact hsync.matches
  · exact fun _ _ _ _ _ _ ht hok hs hkeeps => ht.step hok hs hkeeps
  · exact fun _ _ _ _ _ _ ht hok hs hkeeps => ht.not_inBounds hok hs hkeeps

theorem run_firstCall {capacity capacity' : Nat} {input : List Str}
    (hcap : capacity ≤ capacity')
    (hwords : ∀ words rest, Args.readLoop (fun _ => true) 1 0 [] input = some (words, rest) →
      words.length ≤ capacity')
    (hs : step (some (fresh capacity input)) (1, .ok capacity') = some (o, u)) :
    Run step Allowed (some (fresh capacity input)) [((1, .ok capacity'), o)] u :=
  .single ⟨rfl, fun _ => rfl, hcap, hwords⟩ hs

/-- A line with two words. -/
def twoWords : Str := "print all".toList

theorem argv_always_iff_twoWords :
    ∃ es t, Run step Allowed (some (fresh 16 [twoWords])) es t ∧
      ((∀ es₁ es₂ t, es = es₁ ++ es₂ → Run step Allowed (some (fresh 16 [twoWords])) es₁ t →
          InBounds t) ↔
        ∀ es₁ a o es₂ t, es = es₁ ++ (a, o) :: es₂ →
          Run step Allowed (some (fresh 16 [twoWords])) es₁ t → KeepsCapacity t a) := by
  have hrun : Run step Allowed (some (fresh 16 [twoWords])) [((1, .ok 16), some 0)] _ :=
    run_firstCall le_rfl (fun words rest h => by cases h; decide) rfl
  exact ⟨_, _, hrun, argv_always_iff (by decide) hrun⟩

/-- A line with one word more than `m_args` has room for. -/
def seventeenWords : Str := (List.replicate 16 "a ".toList).flatten ++ "a".toList

/-- **The seventeenth word** makes the vector grow, and `cleanArgv` reads behind the array. -/
theorem seventeen_words_fault :
    (tokens seventeenWords).length = 17 ∧
      ∃ es t, Run step Allowed (some (fresh 16 [seventeenWords])) es t ∧ ¬ InBounds t := by
  have hlen : (tokens seventeenWords).length = 17 := by decide +kernel
  have hread : Args.readLoop (fun _ => true) 1 0 [] [seventeenWords] =
      some (tokens seventeenWords, []) := by
    decide +kernel
  refine ⟨hlen, [((1, .ok 32), none)], none, run_firstCall (by decide) ?_ (by decide +kernel), id⟩
  intro words rest h
  rw [hread] at h
  cases h
  omega

end Prompt

end SimpleTaskQueue
