import SimpleTaskQueue.Refinement.FileSystem
/-!
# SimpleTaskQueue.Properties.QueueNames

**Do names and files correspond?** They do for names without `/`, and for all files but one.
`createQueue` takes a `/` for a part of the path, so that the file can be in another directory.
`init` takes the file `db`, which has no extension, for a database of that name, and then opens
`db.db`; from the file `.db` it reads the empty name.
-/

namespace SimpleTaskQueue

open Sqlite Paths

namespace PathQueueList

variable {s u : PathQueueList} {T : Location Str} {name : Str} {env : CreateEnv} {f : FileName}
  {files : List FileName}

/-- The queue is on a file in the target directory from which `init` reads its name. -/
def Stored (T : Location Str) (s : PathQueueList) (name : Str) : Prop :=
  ∃ f c, s.location name = some (T ++ [f.val]) ∧ s.entry f = some (.file c) ∧
    queueName f = some name

/-- **A created queue is stored** if its name has no `/`. -/
theorem createQueue_stored_iff (hT : Target T s) (hname : NulFree name)
    (hok : s.createQueue env name = (.OK, u)) : u.Stored T name ↔ '/' ∉ name := by
  constructor
  · rintro ⟨f, c, -, -, hf⟩
    exact (nulFree_queueName hf).2
  · intro hslash
    obtain ⟨l, q, c, hl, hnul, hnode, hlist⟩ := hT.created (congrArg Prod.fst hok)
    obtain ⟨hgrows, hpath, -⟩ := createQueue_spec s env name
    rw [hok] at hnode hlist hgrows hpath
    rw [hT.fileOf hnul hname hslash] at hl
    obtain rfl := Option.some.inj hl
    obtain ⟨f, -, hval⟩ := fileOf_child hname hslash
    have hf : queueName f = some name := queueName_dotDb hval
    have hT' : Target T u := hT.grows hgrows hpath
    refine ⟨f, c, ?_, ?_, hf⟩
    · rw [location, hlist, AList.lookup_insert, hval]
      rfl
    · -- the file is where `init` looks for it
      rw [entry, resolve_child hT'.resolve hT'.directory (hpath ▸ hnul) f.property,
        Option.bind_some, hval]
      exact hnode

/-- After `init` every database file has a queue of its name, on the file of that name. -/
theorem init_location (hT : Target T s) (hfiles : Iterates T s.fs files) {env : InitEnv}
    (hok : s.init env files = (.OK, u)) {c : Option QueueDB} (hfile : s.entry f = some (.file c))
    (hf : queueName f = some name) : u.location name = some (T ++ [name ++ dotDb]) := by
  obtain ⟨hnul, hnode⟩ := hT.entry hfile
  obtain ⟨d, rfl, hd⟩ := hfiles.directory
  obtain ⟨D, hinit, hwithin⟩ := hT.init hnul hd hok
  obtain ⟨hmirror, hkept⟩ := SQLiteQueueList.init_mirrored hinit
  obtain ⟨g, hg⟩ := Option.isSome_iff_exists.mp
    (hmirror.mirrors.listed (hkept f ⟨c, (hd f).trans hnode⟩) hf)
  have hval : g.val = name ++ dotDb :=
    (fileOf_eq_some (hmirror.home name g hg).1).trans (cstr_dotDb (nulFree_queueName hf).1)
  rw [hwithin.location, hg, Option.map_some, hval]

/-- The name `init` reads off a file is that of the file it opens, unless the file is `db`. -/
theorem dotDb_queueName_iff (hf : queueName f = some name) :
    name ++ dotDb = f.val ↔ f.val ≠ "db".toList := by
  constructor
  · intro hval hdb
    have hlen := congrArg List.length (hval.trans hdb)
    simp [dotDb] at hlen
  · intro hdb
    exact ((queueName_cases hf).resolve_right fun h => hdb h.1).symm

/-- The empty name is that of the file `.db`. -/
theorem queueName_nil_iff : queueName f = some [] ↔ f.val = ".db".toList := by
  constructor
  · intro hf
    rcases queueName_cases hf with hval | ⟨-, hname⟩
    · exact hval
    · cases hname
  · intro hval
    exact queueName_dotDb hval

/-- **Names and files.** -/
theorem names_match_iff (hT : Target T s) (hfiles : Iterates T s.fs files) :
    (∀ env name u, NulFree name → s.createQueue env name = (.OK, u) →
      (u.Stored T name ↔ '/' ∉ name)) ∧
    (∀ env u f c name, s.init env files = (.OK, u) → s.entry f = some (.file c) →
      queueName f = some name → (u.location name = some (T ++ [f.val]) ↔ f.val ≠ "db".toList)) ∧
    ∀ f, queueName f = some [] ↔ f.val = ".db".toList := by
  refine ⟨fun env name u => createQueue_stored_iff hT, ?_, fun f => queueName_nil_iff⟩
  intro env u f c name hok hfile hf
  rw [init_location hT hfiles hok hfile hf, ← dotDb_queueName_iff hf]
  simp

/-- A target directory with a directory `sub` and one file. -/
def oneFile (file : FileName) : PathQueueList where
  fs :=
    { node := fun l =>
        if l = [] ∨ l = ["q".toList] ∨ l = ["q".toList, "sub".toList] then some .directory
        else if l = ["q".toList, file.val] then some (.file (some emptyDB))
        else none
      cwd := [] }
  targetPath := "/q".toList
  mQueueList := ∅

/-- The entries of the directory. -/
def oneFiles (file : FileName) : List FileName := [⟨"sub".toList, by decide⟩, file]

theorem oneFile_target (file : FileName) : Target ["q".toList] (oneFile file) :=
  ⟨rfl, rfl⟩

theorem oneFile_node (file f : FileName) :
    (oneFile file).fs.node (["q".toList] ++ [f.val]) =
      if f.val = "sub".toList then some .directory
      else if f.val = file.val then some (.file (some emptyDB))
      else none := by
  simp [oneFile]

theorem oneFile_iterates {file : FileName} (hfile : file.val ≠ "sub".toList) :
    Iterates ["q".toList] (oneFile file).fs (oneFiles file) where
  nodup := by
    have hne : (⟨"sub".toList, by decide⟩ : FileName) ≠ file := fun h => hfile (h ▸ rfl)
    exact List.nodup_cons.mpr ⟨by simpa using hne, List.nodup_singleton _⟩
  mem := by
    intro f
    rw [oneFile_node, oneFiles, List.mem_cons, List.mem_singleton, Subtype.ext_iff, Subtype.ext_iff]
    split
    · next hsub => exact ⟨fun _ => rfl, fun _ => .inl hsub⟩
    · next hsub =>
      split
      · next hf => exact ⟨fun _ => rfl, fun _ => .inr hf⟩
      · next hf => exact ⟨fun h => (h.elim hsub hf).elim, nofun⟩

theorem eq_ok {r : ErrCode × PathQueueList} (h : r.1 = .OK) : r = (.OK, r.2) := Prod.ext h rfl

/-- The file is there. -/
theorem oneFile_entry {file : FileName} (hfile : file.val ≠ "sub".toList) :
    (oneFile file).entry file = some (.file (some emptyDB)) := by
  have hnode : (oneFile file).fs.node (["q".toList] ++ [file.val]) =
      some (.file (some emptyDB)) := by
    rw [oneFile_node, if_neg hfile, if_pos rfl]
  have hT := oneFile_target file
  rw [entry,
    resolve_child hT.resolve hT.directory (show NulFree "/q".toList by decide) file.property]
  exact hnode

/-- With the file `a.db` in the directory. -/
theorem names_match_iff_a :
    let file : FileName := ⟨"a.db".toList, by decide⟩
    ((oneFile file).createQueue .ok "b".toList).2.Stored ["q".toList] "b".toList ∧
      ((oneFile file).init .ok (oneFiles file)).2.location "a".toList =
        some ["q".toList, "a.db".toList] ∧
      queueName file ≠ some [] := by
  obtain ⟨hcreate, hinit, hempty⟩ :=
    names_match_iff (oneFile_target ⟨"a.db".toList, by decide⟩) (oneFile_iterates (by decide))
  have ha : queueName ⟨"a.db".toList, by decide⟩ = some "a".toList := by decide
  refine ⟨?_, ?_, ?_⟩
  · exact (hcreate .ok _ _ (by decide) (eq_ok (by decide +kernel))).mpr (by decide)
  · exact (hinit .ok _ ⟨"a.db".toList, by decide⟩ _ _ (eq_ok (by decide +kernel))
      (oneFile_entry (by decide)) ha).mpr (by decide)
  · exact fun h => absurd ((hempty _).mp h) (by decide)

/-- The queue `sub/x` is not in the target directory but in `sub`, and `../x` is above it; the
file `db` is no queue but has one opened, on `db.db`; and the file `.db` has the empty name, which
makes `init` fail. -/
theorem names_differ :
    let db : FileName := ⟨"db".toList, by decide⟩
    let ext : FileName := ⟨".db".toList, by decide⟩
    (∃ u, (oneFile db).createQueue .ok "sub/x".toList = (.OK, u) ∧
      u.location "sub/x".toList = some ["q".toList, "sub".toList, "x.db".toList] ∧
      ¬ u.Stored ["q".toList] "sub/x".toList) ∧
    (∃ u, (oneFile db).createQueue .ok "../x".toList = (.OK, u) ∧
      u.location "../x".toList = some ["x.db".toList] ∧
      ¬ u.Stored ["q".toList] "../x".toList) ∧
    (∃ u, (oneFile db).init .ok (oneFiles db) = (.OK, u) ∧
      (oneFile db).entry db = some (.file (some emptyDB)) ∧ queueName db = some "db".toList ∧
      u.location "db".toList = some ["q".toList, "db.db".toList]) ∧
    (oneFile ext).entry ext = some (.file (some emptyDB)) ∧ queueName ext = some [] ∧
      ((oneFile ext).init .ok (oneFiles ext)).1 = .OS_ERROR := by
  have hno : ∀ {u : PathQueueList} {name : Str}, '/' ∈ name → ¬ u.Stored ["q".toList] name := by
    rintro u name hslash ⟨f, c, -, -, hf⟩
    exact (nulFree_queueName hf).2 hslash
  have hdb : queueName ⟨"db".toList, by decide⟩ = some "db".toList := by decide
  have hext : queueName ⟨".db".toList, by decide⟩ = some [] := by decide
  refine ⟨⟨_, eq_ok (by decide +kernel), by decide +kernel, hno (by decide)⟩,
    ⟨_, eq_ok (by decide +kernel), by decide +kernel, hno (by decide)⟩,
    ⟨_, eq_ok (by decide +kernel), oneFile_entry (by decide), hdb, by decide +kernel⟩,
    oneFile_entry (by decide), hext, by decide +kernel⟩

end PathQueueList

end SimpleTaskQueue
