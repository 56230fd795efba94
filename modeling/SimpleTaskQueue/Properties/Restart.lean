import SimpleTaskQueue.Refinement.Scan
/-!
# SimpleTaskQueue.Properties.Restart

**Does the list survive a restart?** As long as neither `deleteQueue` nor `renameQueue` finds its
queue: then the list mirrors the directory, and `init` builds the same list from it. Both
functions change the list only. The file stays, and after a restart the queue is back under the
name it was created with.
-/

namespace SimpleTaskQueue

open Sqlite Runs Bindings SQLiteQueueList

variable {s s₀ t u : SQLiteQueueList} {a : ListAction} {o : ListOutput}
  {es : List (ListAction × ListOutput)} {name : Str} {d : Directory} {f : FileName}
  {fs : List FileName}

/-- A restart in which nothing fails. -/
structure InitEnv.Works (env : InitEnv) : Prop where
  connect : env.connect = true
  verifyDir : env.verifyDir = true
  create : ∀ f, (env.create f).Works

theorem InitEnv.works_ok : InitEnv.ok.Works :=
  ⟨rfl, rfl, fun _ => ⟨rfl, rfl, rfl, rfl, fun _ => nofun⟩⟩

/-- A new list, built by `init` on the same directory, has the same names, and under each name
the same database. -/
def Survives (s : SQLiteQueueList) : Prop :=
  ∀ env : InitEnv, env.Works →
    ((newList s.dir).init env).1 = .OK ∧
    (∀ name, name ∈ ((newList s.dir).init env).2.listQueue.2 ↔ name ∈ s.listQueue.2) ∧
    ∀ name, ((newList s.dir).init env).2.database name = s.database name

/-- What `createQueue` is asked for in such a run: names free of NUL, SQLite not failing. -/
def Plain (_ : SQLiteQueueList) : ListAction → Prop
  | .createQueue env name => NulFree name ∧ env.sqlite.Reliable
  | _ => True

instance (s : SQLiteQueueList) (a : ListAction) : Decidable (Plain s a) :=
  match a with
  | .createQueue _ _ => inferInstanceAs (Decidable (_ ∧ ∀ _ ∈ _, _))
  | .listQueue | .deleteQueue _ | .renameQueue _ _ | .call _ _ => .isTrue trivial

/-- `deleteQueue` and `renameQueue` do not find the queue. -/
def Misses (s : SQLiteQueueList) : ListAction → Prop
  | .deleteQueue name | .renameQueue name _ => name ∉ s.mQueueList
  | _ => True

/-! ### A list that mirrors the directory survives -/

/-- Every file that `init` would list is one it can open. -/
def Listable (d : Directory) : Prop :=
  ∀ f name, d.IsFile f → queueName f = some name → name ≠ [] ∧
    ∃ g db, fileOf name = some g ∧ d.lookup g = some (.file (some db)) ∧ Accepted db

theorem listable_of_mirrored (h : Mirrored s) : Listable s.dir := by
  intro f name hf hl
  obtain ⟨g, hg⟩ := Option.isSome_iff_exists.mp (h.mirrors.listed hf hl)
  obtain ⟨hname, db, hdb, hacc⟩ := h.accepted name g hg
  exact ⟨hname, g, db, (h.home name g hg).1, hdb, hacc⟩

/-- On such a directory `init` goes through and leaves all files alone. -/
theorem scan_listable (fs : List FileName) {env : FileName → CreateEnv} (henv : ∀ f, (env f).Works)
    (hd : Listable d) (hs : ∀ f, s.dir.lookup f = d.lookup f) :
    (scan env fs s).1 = .OK ∧ ∀ f, (scan env fs s).2.dir.lookup f = d.lookup f := by
  induction fs generalizing s with
  | nil => exact ⟨rfl, hs⟩
  | cons f fs ih =>
      by_cases hskip : ∀ c name, s.dir.lookup f = some (.file c) → queueName f ≠ some name
      · rw [scan_skip hskip]
        exact ih hs
      · simp only [not_forall, not_not] at hskip
        obtain ⟨c, name, hc, hn⟩ := hskip
        obtain ⟨hname, g, db, hg, hdb, hacc⟩ := hd f name ⟨c, hs f ▸ hc⟩ hn
        have hopens : s.dir.Opens g db := .existing ((hs g).trans hdb)
        rw [scan_create hc hn]
        have hcreate := createQueue_spec s (env f) name
        generalize s.createQueue (env f) name = r at hcreate ⊢
        obtain ⟨rc, u⟩ := r
        dsimp only at hcreate ⊢
        cases hcreate with
        | @created h _ _ _ hfile hdb' _ hsame =>
            obtain rfl : h.file = g := Option.some.inj (hfile.symm.trans hg)
            obtain rfl := hdb'.unique hopens
            obtain rfl := hsame.resolve_right hacc.ne_emptyDB
            refine ih fun q => ?_
            by_cases hq : q = h.file
            · rw [hq, hdb]
              exact AList.lookup_insert _
            · exact (AList.lookup_insert_ne hq).trans (hs q)
        | @rejected g' _ _ hfile hdb' hbad =>
            obtain rfl : g' = g := Option.some.inj (hfile.symm.trans hg)
            obtain rfl := hdb'.unique hopens
            exact absurd hacc (hbad (henv f).sqlite).1
        | refused hwhy => exact absurd hopens (hwhy (henv f) hname g hg db)

theorem database_eq (hb : s.bindings = u.bindings) (hd : ∀ f, s.dir.lookup f = u.dir.lookup f) :
    s.database name = u.database name := by
  have hdb : s.dir.database = u.dir.database := by
    funext f
    rw [Directory.database, Directory.database, hd f]
  rw [SQLiteQueueList.database, SQLiteQueueList.database, hb, hdb]

/-- **A list that mirrors its directory survives.** -/
theorem survives_of_mirrored (h : Mirrored s) : Survives s := by
  intro env henv
  have hinit : (newList s.dir).init env =
      scan env.create (env.order s.dir.keys) ⟨s.dir, true, ∅⟩ := by
    simp [init, newList, henv.connect, henv.verifyDir]
  obtain ⟨hok, hdir⟩ := scan_listable (env.order s.dir.keys) (s := ⟨s.dir, true, ∅⟩)
    henv.create (listable_of_mirrored h) fun _ => rfl
  rw [← hinit] at hok hdir
  obtain ⟨hm, -⟩ := init_mirrored (Prod.ext hok rfl)
  have hfiles : (((newList s.dir).init env).2.dir).IsFile = s.dir.IsFile := by
    funext f
    rw [Directory.IsFile, Directory.IsFile, hdir f]
  -- both lists mirror the same files
  have hbind := (hfiles ▸ hm.mirrors).unique h.mirrors
  refine ⟨hok, fun name => ?_, fun name => database_eq hbind hdir⟩
  rw [mem_listQueue, mem_listQueue, hbind]

/-! ### The steps -/

/-- **Step lemma.** -/
theorem mirrored_step (h : Mirrored s) (hs : ListStep s a o u) (hplain : Plain s a)
    (hmiss : Misses s a) : Mirrored u := by
  cases hs with
  | create hc =>
      obtain ⟨hnul, hrel⟩ := hplain
      cases hc with
      | created hname hfile _ hacc =>
          exact h.created hname hfile (queueName_fileOf hnul hfile) hacc
      | @rejected f _ _ hfile hdb hbad =>
          -- the file is new, or the one of the listed queue
          exfalso
          obtain ⟨hno, hne⟩ := hbad hrel
          cases hdb with
          | new => exact hne rfl
          | existing hl =>
              obtain ⟨g, hg⟩ := Option.isSome_iff_exists.mp
                (h.mirrors.listed ⟨_, hl⟩ (queueName_fileOf hnul hfile))
              obtain rfl : g = f := Option.some.inj ((h.home _ _ hg).1.symm.trans hfile)
              obtain ⟨-, db, hdb, hacc⟩ := h.accepted _ _ hg
              have heq := (Directory.Opens.existing hdb).unique (.existing hl)
              exact hno (heq ▸ hacc)
      | refused => exact h
  | delete hn => exact absurd hn hmiss
  | rename hl => exact absurd (AList.lookup_isSome.mp (Option.isSome_iff_exists.mpr ⟨_, hl⟩)) hmiss
  | @call _ _ hd db _ q hl ha hdb hq =>
      have hb := bindings_of_lookup hl
      obtain ⟨hhome, hlabel, -⟩ := h.home _ _ hb
      obtain ⟨hname, db', hdb', hacc⟩ := h.accepted _ _ hb
      obtain rfl : db' = db := by simpa [Directory.database, hdb'] using hdb
      exact h.created (h := { hd with queue := q }) hname hhome hlabel
        (hacc.sameShape (sameShape_call ha hq))
  | list | noDelete | noRename | noQueue => exact h

/-- A queue that is found is gone from the list, and back after a restart. -/
theorem not_survives_of_hit (h : Mirrored s) (hs : ListStep s a o u) (hhit : ¬ Misses s a) :
    ¬ Survives u := by
  -- in both cases the files stay and one name goes
  obtain ⟨name, hdir, hin, hout⟩ :
      ∃ name, u.dir = s.dir ∧ (s.bindings name).isSome = true ∧ u.bindings name = none := by
    cases hs with
    | @delete name hn =>
        refine ⟨name, rfl, isSome_bindings.mpr hn, ?_⟩
        rw [bindings_erase, unbind_self]
    | @rename oldName newName hd hl =>
        refine ⟨oldName, rfl, by rw [bindings_of_lookup hl]; rfl, ?_⟩
        rw [bindings_rename hl, rename_old (bindings_of_lookup hl)]
    | noDelete hn | noRename hn => exact absurd hn hhit
    | create | list | call | noQueue => exact absurd trivial hhit
  intro hsurv
  -- a restart lists the file again under the label that went
  obtain ⟨hok, hnames, -⟩ := hsurv .ok InitEnv.works_ok
  obtain ⟨hm, hfiles⟩ := init_mirrored (Prod.ext hok rfl)
  obtain ⟨f, hf⟩ := Option.isSome_iff_exists.mp hin
  obtain ⟨-, hlabel, hfile⟩ := h.home name f hf
  have hback := hm.mirrors.listed (hfiles f (hdir ▸ hfile)) hlabel
  rw [← mem_listQueue, hnames, mem_listQueue, hout] at hback
  cases hback

/-- **The list survives a restart** at every moment of a run, from an initialised list, in which
the created names are free of NUL and SQLite does not fail in `createQueue`, if and only if no
`deleteQueue` and no `renameQueue` finds its queue. -/
theorem survives_restart_iff (hinit : Initialised s₀)
    (hrun : Run SQLiteQueueList.step Plain s₀ es s) :
    (∀ es₁ es₂ t, es = es₁ ++ es₂ → Run SQLiteQueueList.step Plain s₀ es₁ t → Survives t) ↔
      ∀ es₁ a o es₂ t, es = es₁ ++ (a, o) :: es₂ → Run SQLiteQueueList.step Plain s₀ es₁ t →
        Misses t a := by
  refine hrun.always_iff hinit.mirrored (fun _ => survives_of_mirrored) ?_ ?_
  · exact fun _ _ _ _ _ _ ht hok hs hmiss => mirrored_step ht (.of_step hs) hok hmiss
  · exact fun _ _ _ _ _ _ ht _ hs hhit => not_survives_of_hit ht (.of_step hs) hhit

/-- Two queues and a task. -/
def twoQueues : List ListAction :=
  [.createQueue .ok "a".toList, .createQueue .ok "b".toList,
    .call "a".toList (.addTask .rowid listing)]

theorem twoQueues_runs : (script SQLiteQueueList.step Plain emptyList twoQueues).isSome := by
  decide +kernel

def listedQueues : List (ListAction × ListOutput) × SQLiteQueueList :=
  (script SQLiteQueueList.step Plain emptyList twoQueues).get twoQueues_runs

theorem run_listedQueues : Run SQLiteQueueList.step Plain emptyList listedQueues.1 listedQueues.2 :=
  Run.of_script twoQueues_runs

theorem survives_restart_iff_twoQueues :
    (∀ es₁ es₂ t, listedQueues.1 = es₁ ++ es₂ → Run SQLiteQueueList.step Plain emptyList es₁ t →
        Survives t) ↔
      ∀ es₁ a o es₂ t, listedQueues.1 = es₁ ++ (a, o) :: es₂ →
        Run SQLiteQueueList.step Plain emptyList es₁ t → Misses t a :=
  survives_restart_iff emptyList_initialised run_listedQueues

/-- A queue is deleted. -/
def deleteOne : List ListAction :=
  [.createQueue .ok "a".toList, .deleteQueue "a".toList]

/-- A queue is renamed. -/
def renameOne : List ListAction :=
  [.createQueue .ok "a".toList, .renameQueue "a".toList "b".toList]

theorem deleteOne_runs : (script SQLiteQueueList.step Plain emptyList deleteOne).isSome := by
  decide +kernel

theorem renameOne_runs : (script SQLiteQueueList.step Plain emptyList renameOne).isSome := by
  decide +kernel

/-- The names listed after a restart. -/
def namesAfterRestart (s : SQLiteQueueList) : List Str := ((newList s.dir).init .ok).2.listQueue.2

/-- The deleted queue comes back, and the renamed one has its old name. -/
theorem deleted_comes_back :
    Initialised emptyList ∧
    (∃ es s, Run SQLiteQueueList.step Plain emptyList es s ∧ s.listQueue.2 = [] ∧
      namesAfterRestart s = ["a".toList] ∧ ¬ Survives s) ∧
    ∃ es s, Run SQLiteQueueList.step Plain emptyList es s ∧ s.listQueue.2 = ["b".toList] ∧
      namesAfterRestart s = ["a".toList] ∧ ¬ Survives s := by
  have hno : ∀ {s : SQLiteQueueList}, "a".toList ∉ s.listQueue.2 →
      "a".toList ∈ namesAfterRestart s → ¬ Survives s := fun hout hin hsurv =>
    hout (((hsurv .ok InitEnv.works_ok).2.1 _).mp hin)
  refine ⟨emptyList_initialised, ⟨_, _, Run.of_script deleteOne_runs, by decide +kernel,
    by decide +kernel, hno (by decide +kernel) (by decide +kernel)⟩, ⟨_, _,
    Run.of_script renameOne_runs, by decide +kernel, by decide +kernel,
    hno (by decide +kernel) (by decide +kernel)⟩⟩

end SimpleTaskQueue
