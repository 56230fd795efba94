import SimpleTaskQueue.Properties.Clients
import SimpleTaskQueue.Properties.Installation
import SimpleTaskQueue.Properties.Prompt
/-!
# SimpleTaskQueue.Properties.Entering

**Which queues can be entered** at the prompt of the list? What a line begins with is looked up
among the commands first, so that a queue which has the name of one is out of reach, as is one with
a space in its name. `help` and `exit` are commands only if nothing comes behind them.
-/

namespace SimpleTaskQueue

open Args Words Runs

namespace CLI

variable {κ σ β C : Type} {T : Terminal κ σ β} {s t : QueueList κ σ} {queues : σ} {address : Str}
  {port : Nat} {env : LineEnv} {o : Shown} {ret : Int} {line name cwd : Str} {k : κ}
  {ws : List Str} {cs : List (CLIAction β × Shown)} {ok : QueueList κ σ → CLIAction β → Prop}

/-! ### Words with a function -/

/-- The same words have the same targets. -/
def Funcs.SameTargets (m m' : Funcs C) : Prop :=
  ∀ word f, m.lookup word = some (some f) ↔ m'.lookup word = some (some f)

theorem Funcs.SameTargets.at {m m' : Funcs C} (h : m.SameTargets m') (word : Str) :
    (m.at word).2.SameTargets m' :=
  fun w f => Funcs.lookup_of_at.trans (h w f)

theorem Funcs.SameTargets.at_eq_none {m m' : Funcs C} (h : m.SameTargets m') {word : Str} :
    (m.at word).1 = none ↔ ∀ f, m'.lookup word ≠ some (some f) := by
  rw [Funcs.lookup_at, Option.eq_none_iff_forall_ne_some]
  refine forall_congr' fun f => not_congr ?_
  rw [Option.join_eq_some_iff, h word f]

/-- The words that have none. -/
theorem Funcs.notMem_of (l : List (String × C)) (word : Str) :
    (∀ f, (Funcs.of l).lookup word ≠ some (some f)) ↔ word ∉ l.map fun p => p.1.toList := by
  rw [Funcs.lookup_of, List.mem_map]
  cases hfind : l.reverse.find? fun p => p.1.toList = word with
  | none =>
      have hnone : ∀ p ∈ l, p.1.toList ≠ word := by simpa using hfind
      simpa using hnone
  | some p =>
      have hp : p.1.toList = word := by simpa using List.find?_some hfind
      have hmem : p ∈ l := List.mem_reverse.mp (List.mem_of_find?_eq_some hfind)
      simpa using ⟨p.1, ⟨p.2, hmem⟩, hp⟩

/-- The words that the list has a function for. -/
def QueueList.commands : List Str :=
  ["create".toList, "delete".toList, "list".toList, "rename".toList]

/-! ### A line at the prompt of the list -/

namespace QueueList

/-- What a line can do: its first word is looked up, and a word without a function can be the name
of a queue to enter. -/
theorem round_spec (h : round T env ws ret s = some (o, t)) :
    ∃ word rest, ws = word :: rest ∧
      (t.mFuncs = s.mFuncs ∨ t.mFuncs = (s.mFuncs.at word).2) ∧
      ∀ name mQueue mFuncs ret, t.place = .inQueue name mQueue mFuncs ret →
        name = word ∧ (s.mFuncs.at word).1 = none := by
  unfold round at h
  split at h
  · cases h
  next word rest =>
  refine ⟨word, rest, rfl, ?_⟩
  dsimp only at h
  split at h
  · obtain ⟨-, rfl⟩ := Prod.mk.inj (Option.some.inj h)
    exact ⟨.inl rfl, fun _ _ _ _ hplace => by cases hplace⟩
  split at h
  · obtain ⟨-, rfl⟩ := Prod.mk.inj (Option.some.inj h)
    exact ⟨.inl rfl, fun _ _ _ _ hplace => by cases hplace⟩
  split at h
  · -- the word has no function
    next hat =>
    have hnone : (s.mFuncs.at word).1 = none := by rw [hat]
    unfold enter at h
    dsimp only at h
    split at h
    · obtain ⟨-, rfl⟩ := Prod.mk.inj (Option.some.inj h)
      exact ⟨.inr (by rw [hat]), fun _ _ _ _ hplace => by cases hplace⟩
    split at h
    · obtain ⟨-, rfl⟩ := Prod.mk.inj (Option.some.inj h)
      exact ⟨.inr (by rw [hat]), fun _ _ _ _ hplace => by cases hplace⟩
    · obtain ⟨-, rfl⟩ := Prod.mk.inj (Option.some.inj h)
      refine ⟨.inr (by rw [hat]), fun name mQueue mFuncs ret hplace => ⟨?_, hnone⟩⟩
      injection hplace with hname
      exact hname.symm
  · next hat =>
    split at h
    · obtain ⟨-, rfl⟩ := Prod.mk.inj (Option.some.inj h)
      exact ⟨.inr (by rw [hat]), fun _ _ _ _ hplace => by cases hplace⟩
    · obtain ⟨r, -, he⟩ := Option.map_eq_some_iff.mp h
      obtain ⟨-, rfl⟩ := Prod.mk.inj he
      exact ⟨.inr (by rw [hat]), fun _ _ _ _ hplace => by cases hplace⟩

/-- A line at the prompt of a queue leaves the functions of the list alone. -/
theorem queueRound_mFuncs {mFuncs : Funcs QueueCommand}
    (h : Queue.round T env ws name k mFuncs ret s = some (o, t)) : t.mFuncs = s.mFuncs := by
  unfold Queue.round at h
  split at h
  · cases h
  dsimp only at h
  split at h
  · obtain ⟨-, rfl⟩ := Prod.mk.inj (Option.some.inj h)
    rfl
  split at h
  · obtain ⟨-, rfl⟩ := Prod.mk.inj (Option.some.inj h)
    rfl
  split at h
  · obtain ⟨-, rfl⟩ := Prod.mk.inj (Option.some.inj h)
    rfl
  split at h
  · obtain ⟨-, rfl⟩ := Prod.mk.inj (Option.some.inj h)
    rfl
  · obtain ⟨_, -, he⟩ := Option.map_eq_some_iff.mp h
    obtain ⟨-, rfl⟩ := Prod.mk.inj he
    rfl

/-- **Step lemma.** -/
theorem step_targets {a : CLIAction β} {l : Opts} (h : step T s a = some (o, t))
    (hs : s.mFuncs.SameTargets (init l)) : t.mFuncs.SameTargets (init l) := by
  cases a with
  | own b =>
      obtain ⟨_, -, he⟩ := Option.map_eq_some_iff.mp h
      obtain ⟨-, rfl⟩ := Prod.mk.inj he
      exact hs
  | failed =>
      simp only [step] at h
      split at h
      · obtain ⟨-, rfl⟩ := Prod.mk.inj (Option.some.inj h)
        exact hs
      · obtain ⟨-, rfl⟩ := Prod.mk.inj (Option.some.inj h)
        exact hs
      · cases h
  | line env line =>
      simp only [step] at h
      split at h
      · cases h
      split at h
      · obtain ⟨word, -, -, hmFuncs, -⟩ := round_spec h
        rcases hmFuncs with hm | hm <;> rw [hm]
        · exact hs
        · exact hs.at word
      · rw [queueRound_mFuncs h]
        exact hs
      · cases h

/-- **Run lemma.** The list keeps its four functions. -/
theorem run_targets (h : Run (step T) ok (start T address port queues) cs s) :
    s.mFuncs.SameTargets (init T.listOpts) :=
  h.invariant (I := fun s => s.mFuncs.SameTargets (init T.listOpts)) (fun _ _ => Iff.rfl)
    fun _ _ _ _ hs _ hstep => step_targets hstep hs

/-- A line that begins with the word, and is not `help` or `exit`. -/
def lineOf (name : Str) : Str := if name = [] then [' '] else name ++ " -".toList

theorem tokens_lineOf (h : ' ' ∉ name) :
    lineOf name ≠ [] ∧ ∃ rest, tokens (lineOf name) = name :: rest ∧
      ∀ word ≠ [], name :: rest ≠ [word] := by
  unfold lineOf
  split
  · next hnil =>
    subst hnil
    refine ⟨List.cons_ne_nil _ _, [], by decide, fun word hword he => ?_⟩
    exact hword (List.cons.inj he).1.symm
  · next hnil =>
    have hne : name ++ " -".toList ≠ [] := by simp
    refine ⟨hne, ["-".toList], ?_, fun word _ he => ?_⟩
    · have hlast : (name ++ " -".toList).getLast? = some '-' := by
        rw [show " -".toList = [' '] ++ ['-'] from rfl, ← List.append_assoc,
          List.getLast?_concat]
      rw [tokens_eq hne, hlast, if_neg (by decide), List.append_nil]
      show words ' ' (name ++ ' ' :: ['-']) = [name, ['-']]
      rw [words_append_sep, words_of_notMem hnil h, words_of_notMem (by decide) (by decide)]
      rfl
    · cases (List.cons.inj he).2

/-- No word has a space. -/
theorem space_notMem_tokens {word : Str} (hline : line ≠ []) (h : word ∈ tokens line) :
    ' ' ∉ word := by
  rw [tokens_eq hline, List.mem_append] at h
  rcases h with h | h
  · exact (isWords_words ' ' line).sep_notMem word h
  · split at h
    · obtain rfl := List.mem_singleton.mp h
      exact List.not_mem_nil
    · cases h

end QueueList

end CLI

end SimpleTaskQueue
