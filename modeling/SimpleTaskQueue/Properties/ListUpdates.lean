import SimpleTaskQueue.Refinement.OpeningCalls
import SimpleTaskQueue.Refinement.Scan
/-!
# SimpleTaskQueue.Properties.ListUpdates

**What `renameQueue` and `createQueue` do to the list.** Neither looks its new name up before it
assigns to it. Renaming onto a taken name replaces the queue there; and onto the own name, the
assignment is followed by the erasure of the entry it made. Creating under a taken name replaces
the queue as well, and opens the file that an earlier queue of the name may have left behind.
-/

namespace SimpleTaskQueue

open Sqlite Sqlite.Conn Runs SQLiteQueueList

/-! ### `renameQueue` -/

/-- What `renameQueue` should do. -/
structure RenamesOrKeeps (s u : SQLiteQueueList) (oldName newName : Str) (rc : ErrCode) : Prop where
  moved : rc = .OK → ∃ h, s.mQueueList.lookup oldName = some h ∧
    u.mQueueList.lookup newName = some h
  gone : rc = .OK → oldName ≠ newName → oldName ∉ u.mQueueList
  others : rc = .OK → ∀ n, n ≠ oldName → n ≠ newName →
    u.mQueueList.lookup n = s.mQueueList.lookup n
  size : rc = .OK → u.mQueueList.keys.length = s.mQueueList.keys.length
  refused : oldName ∉ s.mQueueList ∨ newName ∈ s.mQueueList ∧ newName ≠ oldName →
    rc ≠ .OK ∧ u.mQueueList = s.mQueueList

section Rename

variable {s : SQLiteQueueList} {oldName newName : Str}

theorem renameQueue_listed {h : Handle} (hl : s.mQueueList.lookup oldName = some h) :
    s.renameQueue oldName newName =
      (.OK, { s with mQueueList := (s.mQueueList.insert newName h).erase oldName }) := by
  simp only [renameQueue, hl]

theorem renameQueue_unlisted (hl : oldName ∉ s.mQueueList) :
    s.renameQueue oldName newName = (.NOT_FOUND, s) := by
  simp only [renameQueue, AList.lookup_eq_none.mpr hl]

/-- One key is exchanged for another. -/
theorem length_keys_rename {α β : Type} [DecidableEq α] {l : AList fun _ : α => β} {old new : α}
    (hold : old ∈ l) (hnew : new ∉ l) (b : β) :
    ((l.insert new b).erase old).keys.length = l.keys.length := by
  have hne : new ≠ old := fun he => hnew (he ▸ hold)
  have hmem : old ∈ l.keys := hold
  rw [AList.keys_erase, AList.keys_insert, List.erase_of_not_mem hnew,
    List.erase_cons_tail (by simpa using hne), List.length_cons, List.length_erase_of_mem hmem]
  have hpos := List.length_pos_of_mem hmem
  omega

/-- **`renameQueue` loses no queue** exactly if the new name is not in the list. -/
theorem renameQueue_keeps_iff (s : SQLiteQueueList) (oldName newName : Str) :
    RenamesOrKeeps s (s.renameQueue oldName newName).2 oldName newName
        (s.renameQueue oldName newName).1 ↔
      (oldName ∈ s.mQueueList → newName ∉ s.mQueueList) := by
  by_cases hold : oldName ∈ s.mQueueList
  · obtain ⟨h, hl⟩ := Option.isSome_iff_exists.mp (AList.lookup_isSome.mpr hold)
    rw [renameQueue_listed hl]
    constructor
    · intro hkeeps _ hnew
      by_cases heq : newName = oldName
      · -- the entry just made is erased
        obtain ⟨h', -, hl'⟩ := hkeeps.moved rfl
        subst heq
        rw [AList.lookup_erase] at hl'
        cases hl'
      · exact (hkeeps.refused (.inr ⟨hnew, heq⟩)).1 rfl
    · intro hfree
      have hnew := hfree hold
      have hne : newName ≠ oldName := fun he => hnew (he ▸ hold)
      refine ⟨fun _ => ⟨h, hl, ?_⟩, fun _ _ => ?_, fun _ n hn hn' => ?_, fun _ => ?_, fun hno => ?_⟩
      · rw [AList.lookup_erase_ne hne, AList.lookup_insert]
      · simp [AList.mem_erase]
      · rw [AList.lookup_erase_ne hn, AList.lookup_insert_ne hn']
      · exact length_keys_rename hold hnew h
      · rcases hno with hno | ⟨hno, -⟩
        · exact absurd hold hno
        · exact absurd hno hnew
  · rw [renameQueue_unlisted hold]
    refine iff_of_true ⟨nofun, nofun, nofun, nofun, fun _ => ⟨nofun, rfl⟩⟩ fun h => absurd h hold

/-- A list with the queues `a` and `b`. -/
def listAB : SQLiteQueueList :=
  ((emptyList.createQueue .ok "a".toList).2.createQueue .ok "b".toList).2

/-- **A queue is lost** by renaming it to its own name, and by renaming another one to its name. -/
theorem rename_loses_queue :
    ¬ RenamesOrKeeps listAB (listAB.renameQueue "a".toList "a".toList).2 "a".toList "a".toList
        (listAB.renameQueue "a".toList "a".toList).1 ∧
      ¬ RenamesOrKeeps listAB (listAB.renameQueue "a".toList "b".toList).2 "a".toList "b".toList
        (listAB.renameQueue "a".toList "b".toList).1 :=
  ⟨fun h => absurd (h.size (by decide +kernel)) (by decide +kernel),
    fun h => absurd (h.size (by decide +kernel)) (by decide +kernel)⟩

end Rename

/-! ### `createQueue` -/

section Create

variable {s u : SQLiteQueueList} {env : CreateEnv} {name : Str} {f : FileName} {db : QueueDB}
  {rc : ErrCode}

/-- The memory is there, and `sqlite3_open` succeeds. -/
structure Granted (env : CreateEnv) : Prop where
  allocProc : env.allocProc = true
  allocQueue : env.allocQueue = true
  allocToken : env.allocToken = true
  opens : env.opens = true

/-- What `createQueue` needs to succeed; the name may be in the list. -/
def CanCreate (s : SQLiteQueueList) (env : CreateEnv) (name : Str) : Prop :=
  Granted env ∧ name ≠ [] ∧
    ∃ f db, fileOf name = some f ∧ s.dir.Opens f db ∧ Openable db env.sqlite.faults

theorem initQueue_granted {d : Directory} (h : (d.initQueue env name).1 = .OK) :
    env.allocToken = true ∧ env.opens = true := by
  have hclosed : env.opens = false → ∀ path, (d.connectToDB env path).1 = 1 := by
    intro hno path
    cases path <;> simp [Directory.connectToDB, hno]
  unfold Directory.initQueue at h
  split_ifs at h with hname htoken
  refine ⟨by simpa using htoken, ?_⟩
  by_contra hopens
  simp [hclosed (by simpa using hopens)] at h

theorem createQueue_granted (h : (s.createQueue env name).1 = .OK) : Granted env := by
  unfold createQueue at h
  split_ifs at h with hproc hqueue
  split at h
  · next hinit _ =>
    obtain ⟨htoken, hopens⟩ := initQueue_granted (congrArg Prod.fst hinit)
    exact ⟨by simpa using hproc, by simpa using hqueue, htoken, hopens⟩
  · cases h

/-- On a file that can be opened `connectToDB` decides. -/
theorem createQueue_opened (hg : Granted env) (hname : name ≠ []) (hfile : fileOf name = some f)
    (hdb : s.dir.Opens f db) :
    let r := connectToDB true ((Conn.open db).given env.sqlite)
    let d := s.dir.insert f (.file (some r.2.db))
    s.createQueue env name =
      if r.1 = 0 then
        (.OK, { s with
          dir := d
          mQueueList := s.mQueueList.insert name ⟨f, ⟨r.2, Task.blank, false, false, []⟩⟩ })
      else (.OS_ERROR, { s with dir := d }) := by
  intro r d
  have hconn : s.dir.connectToDB env (some f) = (r.1, r.2, d) := by
    cases hdb with
    | existing h => simp [Directory.connectToDB, hg.opens, h, r, d]
    | new h => simp [Directory.connectToDB, hg.opens, h, r, d]
  have hinit : s.dir.initQueue env name =
      if r.1 ≠ 0 then (.OS_ERROR, none, d)
      else (.OK, some ⟨r.2, Task.blank, false, false, []⟩, d) := by
    simp only [Directory.initQueue, List.isEmpty_iff, hname, hg.allocToken, hfile, hconn, if_false,
      Bool.not_true, Bool.false_eq_true]
  simp only [createQueue, hg.allocProc, hg.allocQueue, hinit, hfile]
  by_cases h0 : r.1 = 0 <;> simp [h0]

theorem createQueue_opens (h : (s.createQueue env name).1 = .OK) :
    name ≠ [] ∧ ∃ f db, fileOf name = some f ∧ s.dir.Opens f db := by
  have hspec := createQueue_spec s env name
  generalize s.createQueue env name = r at h hspec
  obtain ⟨rc, u⟩ := r
  cases hspec with
  | created hname hfile hdb => exact ⟨hname, _, _, hfile, hdb⟩
  | rejected | refused => cases h

/-- **When `createQueue` succeeds.** -/
theorem createQueue_ok_iff (s : SQLiteQueueList) (env : CreateEnv) (name : Str) :
    (s.createQueue env name).1 = .OK ↔ CanCreate s env name := by
  constructor
  · intro h
    have hg := createQueue_granted h
    obtain ⟨hname, f, db, hfile, hdb⟩ := createQueue_opens h
    refine ⟨hg, hname, f, db, hfile, hdb,
      (connectToDB_zero_iff ((Conn.open db).given env.sqlite)).mp ?_⟩
    rw [createQueue_opened hg hname hfile hdb] at h
    by_contra h0
    rw [if_neg h0] at h
    cases h
  · rintro ⟨hg, hname, f, db, hfile, hdb, hopen⟩
    rw [createQueue_opened hg hname hfile hdb, if_pos ((connectToDB_zero_iff _).mpr hopen)]

theorem createQueue_failed (h : (s.createQueue env name).1 ≠ .OK) :
    (s.createQueue env name).2.mQueueList = s.mQueueList := by
  have hspec := createQueue_spec s env name
  generalize s.createQueue env name = r at h hspec
  obtain ⟨rc, u⟩ := r
  cases hspec with
  | created => exact absurd rfl h
  | rejected | refused => rfl

/-- No task waits, and none is finished. -/
def NoTasks (db : QueueDB) : Prop :=
  (db .pending).map Table.rows = some [] ∧ (db .done).map Table.rows = some []

/-- What `createQueue` should do. -/
structure CreatesOrKeeps (s u : SQLiteQueueList) (name : Str) (rc : ErrCode) : Prop where
  listed : name ∈ s.mQueueList → rc ≠ .OK ∧ u.mQueueList = s.mQueueList
  created : name ∉ s.mQueueList → rc = .OK →
    (∃ db, u.database name = some db ∧ NoTasks db) ∧
      ∀ n ≠ name, u.mQueueList.lookup n = s.mQueueList.lookup n
  failed : rc ≠ .OK → u.mQueueList = s.mQueueList

/-- The file that the name stands for is new or empty, or has no task in it. -/
def CleanFile (s : SQLiteQueueList) (name : Str) : Prop :=
  ∀ f, fileOf name = some f → ∀ db, s.dir.Opens f db → db = emptyDB ∨ NoTasks db

/-- The new queue reads what `connectToDB` left in the file. -/
theorem createQueue_created (hcan : CanCreate s env name) :
    ∃ f db, fileOf name = some f ∧ s.dir.Opens f db ∧
      let r := connectToDB true ((Conn.open db).given env.sqlite)
      r.1 = 0 ∧ (s.createQueue env name).2.database name = some r.2.db ∧
      ∀ n ≠ name, (s.createQueue env name).2.mQueueList.lookup n = s.mQueueList.lookup n := by
  obtain ⟨hg, hname, f, db, hfile, hdb, hopen⟩ := hcan
  have h0 := (connectToDB_zero_iff ((Conn.open db).given env.sqlite)).mpr hopen
  refine ⟨f, db, hfile, hdb, h0, ?_⟩
  rw [createQueue_opened hg hname hfile hdb, if_pos h0]
  refine ⟨?_, fun n hn => AList.lookup_insert_ne hn⟩
  simp [database, bindings, Directory.database]

/-- What `connectToDB` leaves in the file has tasks exactly if the file had some. -/
theorem noTasks_connectToDB {c : Conn TableName} (h : (connectToDB true c).1 = 0) :
    NoTasks (connectToDB true c).2.db ↔ c.db = emptyDB ∨ NoTasks c.db := by
  obtain ⟨hacc, hsame | ⟨hempty, hfresh⟩⟩ := connectToDB_spec c h
  · rw [hsame] at hacc ⊢
    exact ⟨.inr, fun h => h.resolve_left hacc.ne_emptyDB⟩
  · rw [hfresh, hempty]
    exact iff_of_true ⟨rfl, rfl⟩ (.inl rfl)

theorem cleanFile_iff (hfile : fileOf name = some f) (hdb : s.dir.Opens f db) :
    CleanFile s name ↔ db = emptyDB ∨ NoTasks db := by
  refine ⟨fun h => h f hfile db hdb, fun h g hg db' hdb' => ?_⟩
  obtain rfl : f = g := Option.some.inj (hfile.symm.trans hg)
  rwa [hdb'.unique hdb]

/-- **`createQueue` creates a new queue or changes nothing** exactly if it fails, or the name is not
in the list and its file has no tasks in it. -/
theorem createQueue_creates_iff (h : s.step (.createQueue env name) = some (.code rc, u)) :
    CreatesOrKeeps s u name rc ↔
      (CanCreate s env name → name ∉ s.mQueueList ∧ CleanFile s name) := by
  simp only [SQLiteQueueList.step, Option.ite_none_right_eq_some, Option.some.injEq, Prod.mk.injEq,
    ListOutput.code.injEq] at h
  obtain ⟨-, rfl, rfl⟩ := h
  by_cases hcan : CanCreate s env name
  · have hok := (createQueue_ok_iff s env name).mpr hcan
    obtain ⟨f, db, hfile, hdb, h0, hdata, hothers⟩ := createQueue_created hcan
    have hclean := (noTasks_connectToDB h0).trans (cleanFile_iff hfile hdb).symm
    constructor
    · intro hnew _
      have hunlisted : name ∉ s.mQueueList := fun hl => (hnew.listed hl).1 hok
      obtain ⟨⟨db', hdb', hempty⟩, -⟩ := hnew.created hunlisted hok
      obtain rfl := Option.some.inj (hdata.symm.trans hdb')
      exact ⟨hunlisted, hclean.mp hempty⟩
    · intro hgood
      obtain ⟨hunlisted, hcl⟩ := hgood hcan
      exact ⟨fun hl => absurd hl hunlisted, fun _ _ => ⟨⟨_, hdata, hclean.mpr hcl⟩, hothers⟩,
        fun hno => absurd hok hno⟩
  · have hno := (createQueue_ok_iff s env name).not.mpr hcan
    have hkept := createQueue_failed hno
    exact iff_of_true ⟨fun _ => ⟨hno, hkept⟩, fun _ hok => absurd hok hno, fun _ => hkept⟩
      fun h => absurd h hcan

theorem createQueue_creates_first :
    CreatesOrKeeps emptyList (emptyList.createQueue .ok "a".toList).2 "a".toList
      (emptyList.createQueue .ok "a".toList).1 := by
  have hstep : emptyList.step (.createQueue .ok "a".toList) =
      some (.code (emptyList.createQueue .ok "a".toList).1,
        (emptyList.createQueue .ok "a".toList).2) := by
    rw [SQLiteQueueList.step, if_pos ⟨rfl, by decide⟩]
  refine (createQueue_creates_iff hstep).mpr fun _ => ⟨by decide +kernel, fun f _ db hdb => ?_⟩
  cases hdb with
  | existing h => cases h
  | new h => exact .inl rfl

/-- A queue is created. -/
def oneCreated : List ListAction := [.createQueue .ok "a".toList]

theorem oneCreated_runs : (script SQLiteQueueList.step anyAction emptyList oneCreated).isSome := by
  decide +kernel

/-- A queue is created, gets a task, and is deleted. -/
def oneDeleted : List ListAction :=
  [.createQueue .ok "a".toList, .call "a".toList (.addTask .rowid listing), .deleteQueue "a".toList]

theorem oneDeleted_runs : (script SQLiteQueueList.step anyAction emptyList oneDeleted).isSome := by
  decide +kernel

/-- **`createQueue` replaces a listed queue**, and gives a new one the tasks of a deleted one. -/
theorem create_replaces :
    (∃ es s, Run SQLiteQueueList.step anyAction emptyList es s ∧
      ¬ CreatesOrKeeps s (s.createQueue .ok "a".toList).2 "a".toList
        (s.createQueue .ok "a".toList).1) ∧
    ∃ es s, Run SQLiteQueueList.step anyAction emptyList es s ∧ "a".toList ∉ s.mQueueList ∧
      ¬ CreatesOrKeeps s (s.createQueue .ok "a".toList).2 "a".toList
        (s.createQueue .ok "a".toList).1 := by
  refine ⟨⟨_, _, Run.of_script oneCreated_runs, fun h => ?_⟩,
    _, _, Run.of_script oneDeleted_runs, by decide +kernel, fun h => ?_⟩
  · exact (h.listed (by decide +kernel)).1 (by decide +kernel)
  · obtain ⟨⟨db, hdb, hempty, -⟩, -⟩ := h.created (by decide +kernel) (by decide +kernel)
    have hrows : ((((script SQLiteQueueList.step anyAction emptyList oneDeleted).get
        oneDeleted_runs).2.createQueue .ok "a".toList).2.database "a".toList).map
        (fun db => (db .pending).map Table.rows) ≠ some (some []) := by
      decide +kernel
    rw [hdb] at hrows
    exact hrows (congrArg some hempty)

end Create

end SimpleTaskQueue
