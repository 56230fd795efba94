import SimpleTaskQueue.Model.Controller.CLI.QueueList
/-!
# SimpleTaskQueue.Refinement.Commands

What the **commands of the client** can ask for, whatever the arguments are and however cxxopts
reads them: names that are not empty of the list, and ten kinds of jobs of a queue. `Gives` is the
postcondition of a command that does not return early. The functions of a prompt are these commands
for ever, although looking a word up can add one without a target (`Funcs.at`).
-/

namespace SimpleTaskQueue

open Sqlite

namespace CLI

/-! ### Postconditions -/

section Gives

variable {α β : Type} {P Q : α → Prop} {R : β → Prop} {m : Early α} {f : α → Early β}

/-- Where the computation does not return early, its value is as `P` says. -/
def Gives (P : α → Prop) (m : Early α) : Prop := ∀ a, m = .ok a → P a

theorem Gives.any : Gives (fun _ => True) m := fun _ _ => trivial

theorem Gives.early (p : Str × Int) : Gives P (.error p) := fun _ h => (by cases h)

theorem Gives.ok {a : α} (h : P a) : Gives P (.ok a) := fun _ hb => Except.ok.inj hb ▸ h

theorem Gives.bind (hm : Gives Q m) (hf : ∀ a, Q a → Gives R (f a)) : Gives R (m >>= f) := by
  intro b h
  cases m with
  | error p => cases h
  | ok a => exact hf a (hm a rfl) b h

theorem Gives.ite {c : Prop} [Decidable c] {m' : Early α} (h : Gives P m) (h' : Gives P m') :
    Gives P (if c then m else m') := by
  split
  · exact h
  · exact h'

/-- An early return. -/
theorem Gives.guard {c : Prop} [Decidable c] (p : Str × Int) (h : Gives P m) :
    Gives P (if c then (.error p : Early β) >>= fun _ => m else m) :=
  .ite (.bind .any fun _ _ => h) h

end Gives

/-! ### The list -/

namespace ListJob

/-- The names are not empty. -/
def Named : ListJob → Prop
  | create name | delete name => name ≠ []
  | rename source target => source ≠ [] ∧ target ≠ []
  | list => True

end ListJob

namespace QueueList

variable {o : Opts} (words : List Str)

theorem required_ne (o : Options) (result : ParseResult) (option : String) :
    Gives (· ≠ []) (required o result option) := by
  unfold required
  dsimp only
  refine .guard _ (.bind .any fun name _ => ?_)
  split
  · exact .bind (.early _) fun _ h => h
  · next hname => exact .ok (by simpa using hname)

theorem nameOf_ne (o : Options) : Gives (· ≠ []) (nameOf o words) :=
  .guard _ (.bind .any fun _ _ => required_ne _ _ _)

theorem create_named : Gives ListJob.Named (create o words) :=
  .bind (nameOf_ne _ _) fun _ h => .ok h

theorem delete_named : Gives ListJob.Named (delete o words) :=
  .bind (nameOf_ne _ _) fun _ h => .ok h

theorem list_named : Gives ListJob.Named (list o words) :=
  .guard _ (.bind .any fun _ _ => .ok trivial)

theorem rename_named : Gives ListJob.Named (rename o words) :=
  .guard _ (.bind .any fun _ _ => .bind (required_ne _ _ _) fun _ h =>
    .bind (required_ne _ _ _) fun _ h' => .ok ⟨h, h'⟩)

end QueueList

/-! ### A queue -/

/-- The jobs of the ten commands. -/
inductive Job.IsCommand : Job → Prop
  | listPending (before : Str) (env : Env) (name : String) :
      IsCommand (.call before (.listPending env) (Queue.printList name))
  | listFinished (before : Str) (env : Env) (name : String) :
      IsCommand (.call before (.listFinished env) (Queue.printList name))
  | pendingDetails (before : Str) (env : Env) (id : Int) (failed : String) :
      IsCommand (.call before (.pendingDetails env id Task.blank) (Queue.showTask failed))
  | finishedDetails (before : Str) (env : Env) (id : Int) (failed : String) :
      IsCommand (.call before (.finishedDetails env id Task.blank) (Queue.showTask failed))
  | clearPending (before : Str) (env : Env) (failed : String) :
      IsCommand (.call before (.clearPending env) (Queue.done failed))
  | clearFinished (before : Str) (env : Env) (failed : String) :
      IsCommand (.call before (.clearFinished env) (Queue.done failed))
  | current (before : Str) (failed : String) :
      IsCommand (.call before (.currentTask Task.blank) (Queue.showTask failed))
  | add (before : Str) (env : Env) (workDir execName : Str) (args : List Str) (failed : String) :
      IsCommand (.call before (.addTask env { Task.blank with
        workDir := workDir, execName := execName, args := args }) (Queue.done failed))
  | start (before : Str) (failed : String) :
      IsCommand (.call before .start (Queue.done failed))
  | stop (before : Str) (p : Str × Int) : IsCommand (.call before .stop fun _ => some p)
  | remove (ids : List Int) : IsCommand (.remove ids)
  | isRunning : IsCommand .isRunning
  | output : IsCommand .output

namespace Queue

variable {o : Opts} {workDir : Str} (env : LineEnv) (words : List Str)

open Gives in
theorem list_isCommand : Gives Job.IsCommand (list o env words) :=
  .guard _ (bind any fun _ _ => bind any fun _ _ =>
    ite (ok (.listPending ..)) (ite (ok (.listFinished ..)) (early _)))

open Gives in
theorem details_isCommand : Gives Job.IsCommand (details o env words) :=
  .guard _ (bind any fun _ _ => bind any fun _ _ => bind any fun _ _ =>
    ite (ok (.pendingDetails ..)) (ite (ok (.finishedDetails ..)) (early _)))

open Gives in
theorem clear_isCommand : Gives Job.IsCommand (clear o env words) :=
  .guard _ (bind any fun _ _ => bind any fun _ _ =>
    ite (ok (.clearPending ..)) (ite (ok (.clearFinished ..)) (early _)))

theorem current_isCommand : Gives Job.IsCommand (current o env words) :=
  .bind .any fun _ _ => .ok (.current ..)

open Gives in
theorem add_isCommand : Gives Job.IsCommand (add o workDir env words) :=
  .guard _ (bind any fun _ _ => .guard _ (bind any fun _ _ => bind any fun _ _ =>
    ite (bind any fun _ _ => ok (.add ..)) (bind any fun _ _ => ok (.add ..))))

open Gives in
theorem remove_isCommand : Gives Job.IsCommand (remove o env words) :=
  .guard _ (bind any fun _ _ => .guard _ (bind any fun _ _ => ok (.remove _)))

theorem isRunning_isCommand : Gives Job.IsCommand (isRunning o env words) :=
  .bind .any fun _ _ => .ok .isRunning

theorem start_isCommand : Gives Job.IsCommand (start o env words) :=
  .bind .any fun _ _ => .ok (.start ..)

theorem stop_isCommand : Gives Job.IsCommand (stop o env words) :=
  .bind .any fun _ _ => .ok (.stop ..)

theorem output_isCommand : Gives Job.IsCommand (output o env words) :=
  .bind .any fun _ _ => .ok .output

end Queue

/-! ### Functions by name -/

section Funcs

variable {C : Type} {P : C → Prop} {mFuncs : Funcs C} {word w : Str} {l : List (String × C)}

/-- All functions with a target have the property. -/
def Funcs.All (P : C → Prop) (mFuncs : Funcs C) : Prop :=
  ∀ word f, mFuncs.lookup word = some (some f) → P f

theorem Funcs.lookup_at : (mFuncs.at word).1 = (mFuncs.lookup word).join := by
  unfold Funcs.at
  split
  · next h => rw [h, Option.join_some]
  · next h => rw [h, Option.join_none]

/-- Looking a word up changes no target. -/
theorem Funcs.lookup_of_at {f : C} :
    (mFuncs.at word).2.lookup w = some (some f) ↔ mFuncs.lookup w = some (some f) := by
  unfold Funcs.at
  split
  · exact Iff.rfl
  · next h =>
    by_cases hw : w = word
    · subst hw
      simp [h, AList.lookup_insert]
    · rw [AList.lookup_insert_ne hw]

theorem Funcs.All.at (h : mFuncs.All P) : (mFuncs.at word).2.All P :=
  fun w f hf => h w f (Funcs.lookup_of_at.mp hf)

theorem Funcs.All.target {f : C} (h : mFuncs.All P) (hf : (mFuncs.at word).1 = some f) : P f := by
  rw [Funcs.lookup_at, Option.join_eq_some_iff] at hf
  exact h word f hf

theorem Funcs.lookup_of (l : List (String × C)) (w : Str) :
    (Funcs.of l).lookup w = ((l.reverse.find? fun p => p.1.toList = w).map Prod.snd).map some := by
  unfold Funcs.of
  induction l using List.reverseRecOn with
  | nil => rfl
  | append_singleton l p ih =>
      rw [List.foldl_append, List.reverse_append, List.reverse_singleton, List.singleton_append]
      by_cases hw : p.1.toList = w
      · subst hw
        simp [AList.lookup_insert]
      · rw [List.find?_cons_of_neg (by simpa using hw), ← ih]
        exact AList.lookup_insert_ne (Ne.symm hw)

theorem Funcs.all_of (h : ∀ p ∈ l, P p.2) : (Funcs.of l).All P := by
  intro w f hf
  rw [Funcs.lookup_of] at hf
  obtain ⟨f', hf', hsome⟩ := Option.map_eq_some_iff.mp hf
  obtain rfl := Option.some.inj hsome
  obtain ⟨p, hp, rfl⟩ := Option.map_eq_some_iff.mp hf'
  exact h p (List.mem_reverse.mp (List.mem_of_find?_eq_some hp))

end Funcs

/-- The functions of a queue's prompt are the ten commands. -/
theorem Queue.all_init (o : Opts) (cwd : Str) :
    (Queue.init o cwd).All fun f => ∀ env words, Gives Job.IsCommand (f env words) := by
  refine Funcs.all_of fun p hp => ?_
  simp only [List.mem_cons, List.not_mem_nil, or_false] at hp
  rcases hp with rfl | rfl | rfl | rfl | rfl | rfl | rfl | rfl | rfl | rfl
  · exact list_isCommand
  · exact details_isCommand
  · exact clear_isCommand
  · exact remove_isCommand
  · exact current_isCommand
  · exact add_isCommand
  · exact isRunning_isCommand
  · exact start_isCommand
  · exact stop_isCommand
  · exact output_isCommand

/-- The functions of the list's prompt are the four commands. -/
theorem QueueList.all_init (o : Opts) :
    (QueueList.init o).All fun f => ∀ words, Gives ListJob.Named (f words) := by
  refine Funcs.all_of fun p hp => ?_
  simp only [List.mem_cons, List.not_mem_nil, or_false] at hp
  rcases hp with rfl | rfl | rfl | rfl
  · exact create_named
  · exact delete_named
  · exact list_named
  · exact rename_named

end CLI

end SimpleTaskQueue
