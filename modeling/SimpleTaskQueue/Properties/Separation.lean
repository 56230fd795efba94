import SimpleTaskQueue.Refinement.Scan
/-!
# SimpleTaskQueue.Properties.Separation

**Different names, different database files**, as long as no `createQueue` is called for a name
whose file another listed queue has. The code does not check that: `renameQueue` leaves the file
under its old name, and a queue created under the old name opens it again.
-/

namespace SimpleTaskQueue

open Sqlite Runs Bindings SQLiteQueueList

variable {s s₀ u : SQLiteQueueList} {a : ListAction} {o : ListOutput}
  {es : List (ListAction × ListOutput)} {name : Str} {h : Handle} {f : FileName}

/-- No other name is bound to the file `createQueue` is about to open. -/
def FileFree (s : SQLiteQueueList) : ListAction → Prop
  | .createQueue _ name => ∀ f, fileOf name = some f → Free s.bindings name f
  | _ => True

theorem fileFree_iff {env : CreateEnv} : FileFree s (.createQueue env name) ↔
    ∀ m ∈ s.mQueueList.keys, s.bindings m = fileOf name → m = name := by
  constructor
  · intro hfree m hm hf
    obtain ⟨f, hb⟩ := Option.isSome_iff_exists.mp (isSome_bindings.mpr (AList.mem_keys.mpr hm))
    exact hfree f (hf.symm.trans hb) m hb
  · intro hall f hf m hm
    have hmem : m ∈ s.mQueueList := isSome_bindings.mp (Option.isSome_iff_exists.mpr ⟨f, hm⟩)
    exact hall m (AList.mem_keys.mp hmem) (hm.trans hf.symm)

instance (s : SQLiteQueueList) (a : ListAction) : Decidable (FileFree s a) :=
  match a with
  | .createQueue _ _ => decidable_of_iff _ fileFree_iff.symm
  | .listQueue | .deleteQueue _ | .renameQueue _ _ | .call _ _ => .isTrue trivial

/-- **Step lemma.** -/
theorem separate_step (hs : ListStep s a o u) (hfree : FileFree s a)
    (h : Separate s.bindings) : Separate u.bindings := by
  cases hs with
  | create hc =>
      cases hc with
      | @created hd _ _ _ hfile =>
          rw [bindings_insert]
          exact h.bind (hfree hd.file hfile)
      | rejected | refused => exact h
  | delete =>
      rw [bindings_erase]
      exact h.unbind _
  | rename hl =>
      rw [bindings_rename hl]
      exact h.rename _ _
  | call hl =>
      rw [bindings_insert, bind_bound (bindings_of_lookup hl)]
      exact h
  | list | noDelete | noRename | noQueue => exact h

/-- A call on one queue is not noticed by a queue on another file. -/
theorem call_frame {n m : Str} {a b : Action} (h : Separate s.bindings) (hnm : m ≠ n)
    (hs : s.step (.call n a) = some (o, u)) :
    (u.step (.call m b)).map Prod.fst = (s.step (.call m b)).map Prod.fst := by
  cases ListStep.of_step hs with
  | noQueue => rfl
  | @call _ _ hd db o q hl =>
      have hlookup : (s.mQueueList.insert n { hd with queue := q }).lookup m =
          s.mQueueList.lookup m := AList.lookup_insert_ne hnm
      simp only [SQLiteQueueList.step, SQLiteQueueList.call, getQueue, hlookup]
      cases hm : s.mQueueList.lookup m with
      | none => rfl
      | some hd' =>
          have hfile : hd'.file ≠ hd.file := fun hf =>
            hnm (h m n hd.file (hf ▸ bindings_of_lookup hm) (bindings_of_lookup hl))
          have hdb : Directory.database (s.dir.insert hd.file (.file (some q.mToken.db))) hd'.file =
              s.dir.database hd'.file := by
            rw [Directory.database, Directory.database, AList.lookup_insert_ne hfile]
          simp only [hdb]
          split
          · cases s.dir.database hd'.file with
            | none => rfl
            | some db' => simp only [Option.map_map, Function.comp_def]
          · rfl

/-- **Different names never share a database file** in a run, from an initialised list, in which
`createQueue` finds no other name bound to the file it opens. Then no call on a queue changes
what a call on a queue of another name returns. And the condition is exact: a `createQueue`
that succeeds keeps the files apart if and only if it meets the condition. -/
theorem names_never_share (hinit : Initialised s₀)
    (hrun : Run SQLiteQueueList.step FileFree s₀ es s) :
    Separate s.bindings ∧
      (∀ n m a b o u, m ≠ n → s.step (.call n a) = some (o, u) →
        (u.step (.call m b)).map Prod.fst = (s.step (.call m b)).map Prod.fst) ∧
      ∀ env n u, s.step (.createQueue env n) = some (.code .OK, u) →
        (Separate u.bindings ↔ FileFree s (.createQueue env n)) := by
  have hsep : Separate s.bindings := hrun.invariant (I := fun s => Separate s.bindings)
    hinit.mirrored.mirrors.bound.separate
    fun s a o u h hfree hs => separate_step (.of_step hs) hfree h
  refine ⟨hsep, fun n m a b o u hnm hs => call_frame hsep hnm hs, fun env n u hs => ?_⟩
  cases ListStep.of_step hs with
  | create hc =>
      cases hc with
      | @created hd _ _ _ hfile =>
          rw [bindings_insert, separate_bind_iff hsep]
          refine ⟨fun hfree f hf => ?_, fun hfree => hfree _ hfile⟩
          obtain rfl : hd.file = f := Option.some.inj (hfile.symm.trans hf)
          exact hfree

/-- Two queues, the first of which is renamed, and a task for it. -/
def renamedQueue : List ListAction :=
  [.createQueue .ok "a".toList, .createQueue .ok "b".toList, .renameQueue "a".toList "c".toList,
    .call "c".toList (.addTask .rowid listing)]

theorem renamedQueue_runs :
    (script SQLiteQueueList.step FileFree emptyList renamedQueue).isSome := by
  decide +kernel

theorem names_never_share_renamedQueue :
    let s := ((script SQLiteQueueList.step FileFree emptyList renamedQueue).get
      renamedQueue_runs).2
    Separate s.bindings ∧
      (∀ n m a b o u, m ≠ n → s.step (.call n a) = some (o, u) →
        (u.step (.call m b)).map Prod.fst = (s.step (.call m b)).map Prod.fst) ∧
      ∀ env n u, s.step (.createQueue env n) = some (.code .OK, u) →
        (Separate u.bindings ↔ FileFree s (.createQueue env n)) :=
  names_never_share emptyList_initialised (Run.of_script renamedQueue_runs)

/-- A queue is created, renamed, and created again under its first name. -/
def reusedName : List ListAction :=
  [.createQueue .ok "a".toList, .renameQueue "a".toList "b".toList, .createQueue .ok "a".toList]

theorem reusedName_runs : (script SQLiteQueueList.step anyAction emptyList reusedName).isSome := by
  decide +kernel

def reused : List (ListAction × ListOutput) × SQLiteQueueList :=
  (script SQLiteQueueList.step anyAction emptyList reusedName).get reusedName_runs

theorem run_reused : Run SQLiteQueueList.step anyAction emptyList reused.1 reused.2 :=
  Run.of_script reusedName_runs

/-- Both names are bound to `a.db`: a task added under one of them is listed under the other. -/
theorem two_names_share :
    ∃ s₀ es s, Initialised s₀ ∧ Run SQLiteQueueList.step anyAction s₀ es s ∧
      ¬ Separate s.bindings ∧
      ((s.step (.call "a".toList (.addTask .rowid listing))).bind fun r =>
        r.2.step (.call "b".toList (.listPending .rowid))).map Prod.fst ≠
      (s.step (.call "b".toList (.listPending .rowid))).map Prod.fst := by
  refine ⟨emptyList, _, _, emptyList_initialised, run_reused, fun hsep => ?_, by decide +kernel⟩
  have hsome : (reused.2.bindings "a".toList).isSome := by decide +kernel
  have hsame : reused.2.bindings "b".toList = reused.2.bindings "a".toList := by decide +kernel
  obtain ⟨f, hf⟩ := Option.isSome_iff_exists.mp hsome
  exact absurd (hsep _ _ f hf (hsame.trans hf)) (by decide)

end SimpleTaskQueue
