import SimpleTaskQueue.Model.Dao.FileSystem
import SimpleTaskQueue.Refinement.Scan
/-!
# SimpleTaskQueue.Refinement.FileSystem

**Names without `/` stay in the target directory** (`resolve_child`). On these the list of queues
on a file system does what it does on the directory alone (`Within`), so that what is shown of the
directory holds there. Creating a queue makes no directory and removes no file, so paths keep
leading to the same places (`Grows`).
-/

namespace SimpleTaskQueue

open Sqlite Paths

/-! ### Paths -/

theorem cstr_append {s : Str} (h : NulFree s) (t : Str) : cstr (s ++ t) = s ++ cstr t :=
  List.takeWhile_append_of_pos fun _ hc => bne_iff_ne.mpr fun h0 => h (h0 ▸ hc)

/-- Behind a NUL nothing is read. -/
theorem cstr_append_of_not {s : Str} (h : ¬ NulFree s) (t : Str) : cstr (s ++ t) = cstr s := by
  induction s with
  | nil => exact absurd List.not_mem_nil h
  | cons c cs ih =>
      by_cases hc : c = nul
      · simp [cstr, hc]
      · have hcs : ¬ NulFree cs := fun hcs =>
          h fun hmem => (List.mem_cons.mp hmem).elim (fun h0 => hc h0.symm) hcs
        simpa [cstr, hc] using ih hcs

theorem moves_append_slash (p q : Str) : moves (p ++ '/' :: q) = moves p ++ moves q := by
  rw [moves, List.splitOn_append_cons_self, List.map_append]
  rfl

/-- A name is a component of its own. -/
theorem IsFileName.moves {c : Str} (h : IsFileName c) : moves c = [.down c] := by
  rw [SimpleTaskQueue.moves, List.splitOn_eq_singleton h.slash, List.map_singleton,
    if_neg (not_or.mpr ⟨h.nonempty, h.dot⟩), if_neg h.dotdot]

/-- A name with the extension. -/
theorem isFileName_dotDb {name : Str} (hname : NulFree name) (hslash : '/' ∉ name) :
    IsFileName (name ++ dotDb) where
  nulFree := fun h => (List.mem_append.mp h).elim hname (by decide)
  slash := fun h => (List.mem_append.mp h).elim hslash (by decide)
  nonempty := by simp [dotDb]
  dot := fun h => by
    have hlen := congrArg List.length h
    simp [dotDb] at hlen
  dotdot := fun h => by
    have hlen := congrArg List.length h
    simp [dotDb] at hlen

variable {fs fs' : FileSystem} {T l : Location Str} {target c : Str}

/-- **A path of one component** behind the target directory leads to its child of that name. -/
theorem resolve_child (hT : fs.resolve target = some T) (hdir : fs.isDirectory T = true)
    (htarget : NulFree target) (hc : IsFileName c) :
    fs.resolve (target ++ "/".toList ++ c) = some (T ++ [c]) := by
  have hpath : cstr (target ++ "/".toList ++ c) = target ++ '/' :: c := by
    rw [List.append_assoc, cstr_append htarget]
    exact congrArg (target ++ ·) (congrArg ('/' :: ·) (cstr_of_nulFree hc.nulFree))
  unfold FileSystem.resolve at hT ⊢
  rw [cstr_of_nulFree htarget] at hT
  rw [hpath]
  cases target with
  | nil => cases hT
  | cons x xs =>
      have hmoves : moves (x :: (xs ++ '/' :: c)) = moves (x :: xs) ++ [.down c] := by
        rw [← hc.moves, ← moves_append_slash]
        rfl
      simp only [List.cons_append, hmoves]
      exact walk_snoc_down hT hdir

/-- A NUL in the target path hides what is behind it. -/
theorem resolve_of_not (h : ¬ NulFree target) (t : Str) :
    fs.resolve (target ++ t) = fs.resolve target := by
  unfold FileSystem.resolve
  rw [cstr_append_of_not h]

/-! ### What opening a file does to the file system -/

/-- The directories are the same, and the files are still there. -/
structure Grows (fs fs' : FileSystem) : Prop where
  cwd : fs'.cwd = fs.cwd
  isDirectory : fs'.isDirectory = fs.isDirectory
  file : ∀ l c, fs.node l = some (.file c) → ∃ c', fs'.node l = some (.file c')

theorem Grows.refl (fs : FileSystem) : Grows fs fs := ⟨rfl, rfl, fun _ c h => ⟨c, h⟩⟩

theorem Grows.trans {fs'' : FileSystem} (h : Grows fs fs') (h' : Grows fs' fs'') :
    Grows fs fs'' where
  cwd := h'.cwd.trans h.cwd
  isDirectory := h'.isDirectory.trans h.isDirectory
  file := fun l c hc => by
    obtain ⟨c', hc'⟩ := h.file l c hc
    exact h'.file l c' hc'

theorem Grows.resolve (h : Grows fs fs') (path : Str) : fs'.resolve path = fs.resolve path := by
  unfold FileSystem.resolve
  rw [h.isDirectory, h.cwd]

/-- A file is written where no directory is. -/
theorem grows_write (hl : fs.isDirectory l = false) (c : Option QueueDB) :
    Grows fs (fs.write l (.file c)) where
  cwd := rfl
  isDirectory := by
    funext l'
    by_cases h : l' = l
    · rw [h, hl]
      simp [FileSystem.isDirectory, FileSystem.write]
    · simp [FileSystem.isDirectory, FileSystem.write, h]
  file := fun l' c' hc' => by
    by_cases h : l' = l
    · exact ⟨c, by simp [FileSystem.write, h]⟩
    · exact ⟨c', by simpa [FileSystem.write, h] using hc'⟩

/-- `connectToDB` on a path: what it opens is no directory, and is a file then. -/
theorem connectToDB_grows (fs : FileSystem) (env : CreateEnv) (loc : Option (Location Str)) :
    let r := fs.connectToDB env loc
    Grows fs r.2.2 ∧ (r.1 = 0 → ∃ l c, loc = some l ∧ fs.isDirectory l = false ∧
      r.2.2.node l = some (.file c)) := by
  unfold FileSystem.connectToDB
  cases loc with
  | none => exact ⟨.refl fs, fun h => by cases h⟩
  | some l =>
      dsimp only
      split
      · exact ⟨.refl fs, fun h => by cases h⟩
      · split
        · next hnode =>
          have hl : fs.isDirectory l = false := by simp [FileSystem.isDirectory, hnode]
          exact ⟨grows_write hl _, fun _ => ⟨l, _, rfl, hl, Function.update_self ..⟩⟩
        · next hnode =>
          have hl : fs.isDirectory l = false := by simp [FileSystem.isDirectory, hnode]
          exact ⟨grows_write hl _, fun _ => ⟨l, _, rfl, hl, Function.update_self ..⟩⟩
        all_goals exact ⟨.refl fs, fun h => by cases h⟩

theorem initQueue_grows (fs : FileSystem) (env : CreateEnv) (name : Str)
    (loc : Option (Location Str)) :
    let r := fs.initQueue env name loc
    Grows fs r.2.2 ∧ (r.1 = .OK → ∃ l c, loc = some l ∧ fs.isDirectory l = false ∧
      r.2.2.node l = some (.file c)) := by
  obtain ⟨hgrows, hopen⟩ := connectToDB_grows fs env loc
  unfold FileSystem.initQueue
  split
  · exact ⟨.refl fs, fun h => by cases h⟩
  · split
    · exact ⟨.refl fs, fun h => by cases h⟩
    · dsimp only
      split
      · exact ⟨hgrows, fun h => by cases h⟩
      · next h0 => exact ⟨hgrows, fun _ => hopen (not_not.mp h0)⟩

namespace PathQueueList

variable {s u : PathQueueList} {name : Str} {env : CreateEnv} {f : FileName}

/-- Where the file of the queue under a name is. -/
def location (s : PathQueueList) (name : Str) : Option (Location Str) :=
  (s.mQueueList.lookup name).map PathHandle.location

/-- **`createQueue`** adds files only, and one queue to the list if it succeeds. -/
theorem createQueue_spec (s : PathQueueList) (env : CreateEnv) (name : Str) :
    let r := s.createQueue env name
    Grows s.fs r.2.fs ∧ r.2.targetPath = s.targetPath ∧
      (r.1 ≠ .OK ∨ ∃ l q c, s.fileOf name = some l ∧ s.fs.isDirectory l = false ∧
        r.2.fs.node l = some (.file c) ∧ r.2.mQueueList = s.mQueueList.insert name ⟨l, q⟩) := by
  obtain ⟨hgrows, hok⟩ := initQueue_grows s.fs env name (s.fileOf name)
  unfold createQueue
  split
  · exact ⟨.refl _, rfl, .inl nofun⟩
  · split
    · exact ⟨.refl _, rfl, .inl nofun⟩
    · split
      · next queue fs l hinit hfile =>
        rw [hinit, hfile] at hok
        rw [hinit] at hgrows
        obtain ⟨l', c, hl, hdir, hnode⟩ := hok rfl
        obtain rfl := Option.some.inj hl
        exact ⟨hgrows, rfl, .inr ⟨l, queue, c, hfile, hdir, hnode, rfl⟩⟩
      · next hinit _ =>
        rw [hinit] at hgrows
        exact ⟨hgrows, rfl, .inl nofun⟩

/-- The target path leads to the directory `T`. -/
structure Target (T : Location Str) (s : PathQueueList) : Prop where
  resolve : s.fs.resolve s.targetPath = some T
  directory : s.fs.isDirectory T = true

theorem Target.grows (h : Target T s) (hfs : Grows s.fs u.fs)
    (hpath : u.targetPath = s.targetPath) : Target T u where
  resolve := by rw [hpath, hfs.resolve, h.resolve]
  directory := by rw [hfs.isDirectory, h.directory]

theorem Target.fileOf (h : Target T s) (htarget : NulFree s.targetPath) (hname : NulFree name)
    (hslash : '/' ∉ name) : s.fileOf name = some (T ++ [name ++ dotDb]) := by
  rw [PathQueueList.fileOf, List.append_assoc]
  exact resolve_child h.resolve h.directory htarget (isFileName_dotDb hname hslash)

/-- Behind a target path with a NUL there is only the directory itself. -/
theorem Target.nulFree (h : Target T s) {t : Str} {l : Location Str}
    (hl : s.fs.resolve (s.targetPath ++ t) = some l) (hdir : s.fs.isDirectory l = false) :
    NulFree s.targetPath := by
  by_contra hnul
  rw [resolve_of_not hnul, h.resolve] at hl
  obtain rfl := Option.some.inj hl
  rw [h.directory] at hdir
  cases hdir

/-- **A queue was created** on the file its path leads to. -/
theorem Target.created (h : Target T s) (hok : (s.createQueue env name).1 = .OK) :
    ∃ l q c, s.fileOf name = some l ∧ NulFree s.targetPath ∧
      (s.createQueue env name).2.fs.node l = some (.file c) ∧
      (s.createQueue env name).2.mQueueList = s.mQueueList.insert name ⟨l, q⟩ := by
  obtain ⟨-, -, hno | ⟨l, q, c, hl, hdir, hnode, hlist⟩⟩ := createQueue_spec s env name
  · exact absurd hok hno
  · refine ⟨l, q, c, hl, ?_, hnode, hlist⟩
    rw [PathQueueList.fileOf, List.append_assoc, List.append_assoc] at hl
    exact h.nulFree hl hdir

/-- A regular file that `init` finds is in the directory. -/
theorem Target.entry (h : Target T s) {c : Option QueueDB} (hf : s.entry f = some (.file c)) :
    NulFree s.targetPath ∧ s.fs.node (T ++ [f.val]) = some (.file c) := by
  rw [PathQueueList.entry, Option.bind_eq_some_iff] at hf
  obtain ⟨l, hl, hnode⟩ := hf
  have hnul : NulFree s.targetPath := by
    rw [List.append_assoc] at hl
    exact h.nulFree hl (by simp [FileSystem.isDirectory, hnode])
  rw [resolve_child h.resolve h.directory hnul f.property] at hl
  obtain rfl := Option.some.inj hl
  exact ⟨hnul, hnode⟩

/-! ### The directory on its own -/

/-- `d` is the content of the directory `T`. -/
def Shows (T : Location Str) (fs : FileSystem) (d : Directory) : Prop :=
  ∀ f : FileName, d.lookup f = fs.node (T ++ [f.val])

/-- The list on the file system is the list on the directory `T`. -/
structure Within (T : Location Str) (s : PathQueueList) (D : SQLiteQueueList) : Prop where
  target : Target T s
  nulFree : NulFree s.targetPath
  shows : Shows T s.fs D.dir
  queues : ∀ n, s.mQueueList.lookup n =
    (D.mQueueList.lookup n).map fun h => ⟨T ++ [h.file.val], h.queue⟩

theorem Within.location {D : SQLiteQueueList} (h : Within T s D) (name : Str) :
    s.location name = (D.bindings name).map fun f => T ++ [f.val] := by
  rw [PathQueueList.location, h.queues, SQLiteQueueList.bindings, Option.map_map, Option.map_map]
  rfl

theorem shows_write {T : Location Str} {fs : FileSystem} {d : Directory} (h : Shows T fs d)
    (f : FileName) (e : Entry) : Shows T (fs.write (T ++ [f.val]) e) (d.insert f e) := by
  intro g
  by_cases hg : g = f
  · subst hg
    simp [FileSystem.write]
  · have hne : g.val ≠ f.val := fun h => hg (Subtype.ext h)
    rw [AList.lookup_insert_ne hg, h g]
    simp [FileSystem.write, hne]

/-- Opening the file of a queue is the same on both levels. -/
theorem shows_connectToDB {T : Location Str} {fs : FileSystem} {d : Directory} (h : Shows T fs d)
    (env : CreateEnv) (f : FileName) :
    let r := fs.connectToDB env (some (T ++ [f.val]))
    let R := d.connectToDB env (some f)
    r.1 = R.1 ∧ r.2.1 = R.2.1 ∧ Shows T r.2.2 R.2.2 := by
  simp only [FileSystem.connectToDB, Directory.connectToDB, ← h f]
  cases env.opens with
  | false => exact ⟨rfl, rfl, h⟩
  | true =>
      cases d.lookup f with
      | none => exact ⟨rfl, rfl, shows_write h f _⟩
      | some e =>
          cases e with
          | directory | special => exact ⟨rfl, rfl, h⟩
          | file c =>
              cases c with
              | none => exact ⟨rfl, rfl, h⟩
              | some db => exact ⟨rfl, rfl, shows_write h f _⟩

theorem shows_initQueue {T : Location Str} {fs : FileSystem} {d : Directory} (h : Shows T fs d)
    (env : CreateEnv) (hfile : SimpleTaskQueue.fileOf name = some f) :
    let r := fs.initQueue env name (some (T ++ [f.val]))
    let R := d.initQueue env name
    r.1 = R.1 ∧ r.2.1 = R.2.1 ∧ Shows T r.2.2 R.2.2 := by
  obtain ⟨hrc, hconn, hshows⟩ := shows_connectToDB h env f
  simp only [FileSystem.initQueue, Directory.initQueue, hfile, hrc, hconn]
  split
  · exact ⟨rfl, rfl, h⟩
  · split
    · exact ⟨rfl, rfl, h⟩
    · split
      · exact ⟨rfl, rfl, hshows⟩
      · exact ⟨rfl, rfl, hshows⟩

/-- The file of a name without `/`. -/
theorem fileOf_child (hname : NulFree name) (hslash : '/' ∉ name) :
    ∃ f, SimpleTaskQueue.fileOf name = some f ∧ f.val = name ++ dotDb := by
  have hc := isFileName_dotDb hname hslash
  have hval : cstr (name ++ ".db".toList) = name ++ dotDb := cstr_dotDb hname
  refine ⟨⟨name ++ dotDb, hc⟩, ?_, rfl⟩
  unfold SimpleTaskQueue.fileOf
  simp only [hval]
  exact dif_pos hc

/-- **`createQueue`** on both levels. -/
theorem Within.createQueue {D : SQLiteQueueList} (h : Within T s D) (env : CreateEnv)
    (hname : NulFree name) (hslash : '/' ∉ name) :
    (s.createQueue env name).1 = (D.createQueue env name).1 ∧
      Within T (s.createQueue env name).2 (D.createQueue env name).2 := by
  obtain ⟨f, hfile, hval⟩ := fileOf_child hname hslash
  have hloc : s.fileOf name = some (T ++ [f.val]) := by
    rw [h.target.fileOf h.nulFree hname hslash, hval]
  obtain ⟨hrc, hqueue, hshows⟩ := shows_initQueue h.shows env hfile
  obtain ⟨hgrows, hpath, -⟩ := createQueue_spec s env name
  have htarget := h.target.grows hgrows hpath
  have hnul : NulFree (s.createQueue env name).2.targetPath := hpath ▸ h.nulFree
  revert htarget hnul
  simp only [PathQueueList.createQueue, SQLiteQueueList.createQueue, hloc, hfile]
  cases env.allocProc with
  | false => exact fun _ _ => ⟨rfl, h⟩
  | true =>
      cases env.allocQueue with
      | false => exact fun _ _ => ⟨rfl, h⟩
      | true =>
          generalize s.fs.initQueue env name (some (T ++ [f.val])) = r at hrc hqueue hshows ⊢
          generalize D.dir.initQueue env name = R at hrc hqueue hshows ⊢
          obtain ⟨rc, q, fs⟩ := r
          obtain ⟨rc', q', d⟩ := R
          obtain rfl : rc = rc' := hrc
          obtain rfl : q = q' := hqueue
          intro htarget hnul
          cases rc <;> cases q <;> refine ⟨rfl, htarget, hnul, hshows, fun n => ?_⟩
          case OK.some q =>
            -- the new queue, on both levels on the file of its name
            by_cases hn : n = name
            · subst hn
              simp
            · simpa [hn] using h.queues n
          all_goals exact h.queues n

/-- `init` finds a file in the directory. -/
theorem Within.entry {D : SQLiteQueueList} (h : Within T s D) (f : FileName) :
    s.entry f = D.dir.lookup f := by
  rw [PathQueueList.entry,
    resolve_child h.target.resolve h.target.directory h.nulFree f.property, h.shows f]
  rfl

/-- A file that the loop of `init` passes over. -/
theorem scan_skip {env : FileName → CreateEnv} {fs : List FileName}
    (h : ∀ c name, s.entry f = some (.file c) → queueName f ≠ some name) :
    scan env (f :: fs) s = scan env fs s := by
  rw [PathQueueList.scan]
  split
  · next c name hc hn => exact absurd hn (h c name hc)
  · rfl

theorem scan_create {env : FileName → CreateEnv} {fs : List FileName} {c : Option QueueDB}
    (hf : s.entry f = some (.file c)) (hn : queueName f = some name) :
    scan env (f :: fs) s =
      if (s.createQueue (env f) name).1 ≠ .OK then
        (.OS_ERROR, { (s.createQueue (env f) name).2 with mQueueList := ∅ })
      else scan env fs (s.createQueue (env f) name).2 := by
  rw [PathQueueList.scan, hf, hn]

/-- **The loop of `init`** on both levels. -/
theorem Within.scan {D : SQLiteQueueList} (h : Within T s D) (env : FileName → CreateEnv)
    (fs : List FileName) :
    (PathQueueList.scan env fs s).1 = (SQLiteQueueList.scan env fs D).1 ∧
      Within T (PathQueueList.scan env fs s).2 (SQLiteQueueList.scan env fs D).2 := by
  induction fs generalizing s D with
  | nil => exact ⟨rfl, h⟩
  | cons f fs ih =>
      by_cases hskip : ∀ c name, s.entry f = some (.file c) → queueName f ≠ some name
      · have hskip' : ∀ c name, D.dir.lookup f = some (.file c) → queueName f ≠ some name :=
          fun c name hc => hskip c name ((h.entry f).trans hc)
        rw [scan_skip hskip, SQLiteQueueList.scan_skip hskip']
        exact ih h
      · simp only [not_forall, not_not] at hskip
        obtain ⟨c, name, hc, hn⟩ := hskip
        obtain ⟨hname, hslash⟩ := nulFree_queueName hn
        obtain ⟨hrc, hwithin⟩ := h.createQueue (env f) hname hslash
        rw [scan_create hc hn, SQLiteQueueList.scan_create ((h.entry f).symm.trans hc) hn, hrc]
        split
        · exact ⟨rfl, hwithin.target.grows (.refl _) rfl, hwithin.nulFree, hwithin.shows,
            fun _ => rfl⟩
        · exact ih hwithin

/-- **`init`** on both levels. -/
theorem Target.init (h : Target T s) (hnul : NulFree s.targetPath) {d : Directory}
    (hd : Shows T s.fs d) {env : InitEnv} (hinit : s.init env d.keys = (.OK, u)) :
    ∃ D, (newList d).init env = (.OK, D) ∧ Within T u D := by
  unfold PathQueueList.init at hinit
  split at hinit
  · cases hinit
  · next hconnect =>
    split at hinit
    · cases hinit
    · next hverify =>
      have hempty : Within T { s with mQueueList := ∅ } ⟨d, true, ∅⟩ :=
        ⟨h.grows (.refl _) rfl, hnul, hd, fun _ => rfl⟩
      obtain ⟨hrc, hwithin⟩ := hempty.scan env.create (env.order d.keys)
      rw [hinit] at hrc hwithin
      refine ⟨_, ?_, hwithin⟩
      rw [SQLiteQueueList.init, if_neg hconnect, if_neg hverify]
      exact Prod.ext hrc.symm rfl

/-- What `std::filesystem::directory_iterator` gives: all there is in the directory, once. -/
structure Iterates (T : Location Str) (fs : FileSystem) (files : List FileName) : Prop where
  nodup : files.Nodup
  mem : ∀ f : FileName, f ∈ files ↔ (fs.node (T ++ [f.val])).isSome = true

/-- The directory that is iterated over. -/
theorem Iterates.directory {files : List FileName} (h : Iterates T fs files) :
    ∃ d : Directory, d.keys = files ∧ Shows T fs d := by
  let entries : List (Sigma fun _ : FileName => Entry) :=
    files.map fun f => ⟨f, (fs.node (T ++ [f.val])).getD .special⟩
  have hkeys : entries.keys = files := (List.map_map ..).trans (List.map_id files)
  have hnodup : entries.NodupKeys := by
    rw [List.NodupKeys, hkeys]
    exact h.nodup
  refine ⟨⟨entries, hnodup⟩, hkeys, fun f => ?_⟩
  cases hf : fs.node (T ++ [f.val]) with
  | none =>
      refine List.dlookup_eq_none.mpr fun hmem => ?_
      have hsome := (h.mem f).mp (hkeys ▸ hmem)
      rw [hf] at hsome
      cases hsome
  | some e =>
      have hmem : f ∈ files := (h.mem f).mpr (by rw [hf]; rfl)
      refine List.mem_dlookup hnodup (List.mem_map.mpr ⟨f, hmem, ?_⟩)
      rw [hf]
      rfl

end PathQueueList

end SimpleTaskQueue
