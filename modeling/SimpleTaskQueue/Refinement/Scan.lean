import SimpleTaskQueue.Refinement.QueueList
/-!
# SimpleTaskQueue.Refinement.Scan

What `SQLiteQueueList::init` builds: a list that **mirrors** the directory (`Mirrored`). Every
queue is on the file of its own name, `connectToDB` accepts that file, and every database file
is listed under the name read off it. `Scanned` is the invariant of the loop over the directory,
with the files still to come as a parameter.
-/

namespace SimpleTaskQueue

open Sqlite Runs Bindings

namespace SQLiteQueueList

variable {s u : SQLiteQueueList} {name : Str} {d : Directory} {f g : FileName} {fs : List FileName}
  {env : InitEnv}

theorem isFile_insert {c : Option QueueDB} :
    Directory.IsFile (d.insert f (.file c)) g ↔ d.IsFile g ∨ g = f := by
  unfold Directory.IsFile
  by_cases h : g = f
  · subst h
    simp
  · rw [AList.lookup_insert_ne h]
    simp [h]

/-- The list mirrors the directory, but for the files `fs`. -/
structure Scanned (fs : List FileName) (s : SQLiteQueueList) : Prop where
  conn : s.mConn = true
  home : AtHome fileOf queueName s.dir.IsFile s.bindings
  accepted : ∀ name f, s.bindings name = some f →
    name ≠ [] ∧ ∃ db, s.dir.lookup f = some (.file (some db)) ∧ Accepted db
  listed : ∀ f name, s.dir.IsFile f → queueName f = some name →
    f ∈ fs ∨ (s.bindings name).isSome = true

/-- The list mirrors the directory. -/
abbrev Mirrored (s : SQLiteQueueList) : Prop := Scanned [] s

theorem Mirrored.mirrors (h : Mirrored s) :
    Mirrors fileOf queueName s.dir.IsFile s.bindings where
  bound := h.home
  listed := fun hf hl => (h.listed _ _ hf hl).resolve_left List.not_mem_nil

/-- A queue was created on a file that carries its name. -/
theorem Scanned.created (hs : Scanned fs s) {h : Handle} {db : QueueDB} (hname : name ≠ [])
    (hfile : fileOf name = some h.file) (hlabel : queueName h.file = some name)
    (hacc : Accepted db) :
    Scanned fs { s with
      dir := s.dir.insert h.file (.file (some db)), mQueueList := s.mQueueList.insert name h } where
  conn := hs.conn
  home := by
    rw [bindings_insert]
    exact AtHome.bind hs.home hfile hlabel fun q => isFile_insert.mpr
  accepted := by
    intro m f hm
    rw [bindings_insert] at hm
    by_cases hf : f = h.file
    · -- the new content is the one of the file, under whatever name
      subst hf
      refine ⟨?_, db, AList.lookup_insert _, hacc⟩
      rcases bind_eq_some.mp hm with ⟨rfl, -⟩ | ⟨-, hm⟩
      · exact hname
      · exact (hs.accepted m _ hm).1
    · rw [AList.lookup_insert_ne hf]
      rcases bind_eq_some.mp hm with ⟨-, hf'⟩ | ⟨-, hm⟩
      · exact absurd hf'.symm hf
      · exact hs.accepted m f hm
  listed := by
    intro f m hf hl
    rw [bindings_insert, isSome_bind]
    rcases isFile_insert.mp hf with hf | rfl
    · exact (hs.listed f m hf hl).imp_right .inr
    · exact .inr (.inl (Option.some.inj (hl.symm.trans hlabel)))

/-- The head of the files to come is settled. -/
theorem Scanned.tail (hs : Scanned (f :: fs) s)
    (hf : s.dir.IsFile f → ∀ name, queueName f = some name → (s.bindings name).isSome = true) :
    Scanned fs s :=
  { hs with
    listed := by
      intro g m hg hl
      rcases hs.listed g m hg hl with hmem | hm
      · rcases List.mem_cons.mp hmem with rfl | hmem
        · exact .inr (hf hg m hl)
        · exact .inl hmem
      · exact .inr hm }

/-- A file that `init` does not list. -/
theorem scan_skip {env : FileName → CreateEnv} (h : ∀ c name, s.dir.lookup f = some (.file c) →
      queueName f ≠ some name) : scan env (f :: fs) s = scan env fs s := by
  rw [scan]
  split
  · next c name hc hn => exact absurd hn (h c name hc)
  · rfl

theorem scan_create {env : FileName → CreateEnv} {c : Option QueueDB}
    (hf : s.dir.lookup f = some (.file c)) (hn : queueName f = some name) :
    scan env (f :: fs) s =
      if (s.createQueue (env f) name).1 ≠ .OK then
        (.OS_ERROR, { (s.createQueue (env f) name).2 with mConn := false, mQueueList := ∅ })
      else scan env fs (s.createQueue (env f) name).2 := by
  rw [scan, hf, hn]

/-- **The loop of `init`.** If it succeeds the list mirrors the directory, in which all files
are still there. -/
theorem scan_scanned (env : FileName → CreateEnv) (hs : Scanned fs s)
    (hok : (scan env fs s).1 = .OK) :
    Mirrored (scan env fs s).2 ∧ ∀ f, s.dir.IsFile f → (scan env fs s).2.dir.IsFile f := by
  induction fs generalizing s with
  | nil => exact ⟨hs, fun _ hf => hf⟩
  | cons f fs ih =>
      by_cases hskip : ∀ c name, s.dir.lookup f = some (.file c) → queueName f ≠ some name
      · rw [scan_skip hskip] at hok ⊢
        refine ih (hs.tail fun hf name hn => ?_) hok
        obtain ⟨c, hc⟩ := hf
        exact absurd hn (hskip c name hc)
      · simp only [not_forall, not_not] at hskip
        obtain ⟨c, name, hc, hn⟩ := hskip
        -- a database file: `init` goes on only if its queue was created
        rw [scan_create hc hn] at hok ⊢
        have hcreate := createQueue_spec s (env f) name
        generalize s.createQueue (env f) name = r at hok hcreate ⊢
        obtain ⟨rc, u⟩ := r
        dsimp only at hok hcreate ⊢
        cases hcreate with
        | rejected | refused => exact absurd hok nofun
        | @created h _ _ hname hfile _ hacc =>
            have hlabel := queueName_fileOf (nulFree_queueName hn).1 hfile
            have hs' := (hs.created hname hfile hlabel hacc).tail fun _ m hm => by
              rw [bindings_insert, isSome_bind]
              exact .inl (Option.some.inj (hm.symm.trans hn))
            obtain ⟨hm, hfiles⟩ := ih hs' hok
            exact ⟨hm, fun g hg => hfiles g (isFile_insert.mpr (.inl hg))⟩

/-- **`init`** builds a list that mirrors the directory. -/
theorem init_mirrored (h : (newList d).init env = (.OK, s)) :
    Mirrored s ∧ ∀ f, d.IsFile f → s.dir.IsFile f := by
  unfold init at h
  split at h
  · cases h
  · split at h
    · cases h
    · have hstart : Scanned (env.order d.keys) ⟨d, true, ∅⟩ :=
        ⟨rfl, fun _ _ => nofun, fun _ _ => nofun, fun f _ hf _ => by
          obtain ⟨c, hc⟩ := hf
          have hmem : f ∈ d.keys := AList.lookup_isSome.mp (Option.isSome_iff_exists.mpr ⟨_, hc⟩)
          exact .inl ((env.perm d.keys).mem_iff.mpr hmem)⟩
      have hs := scan_scanned env.create hstart
      simp only [newList] at h
      rw [h] at hs
      exact hs rfl

/-- What a successful `init` has built mirrors the directory. -/
theorem Initialised.mirrored (h : Initialised s) : Mirrored s := by
  obtain ⟨d, env, h⟩ := h
  exact (init_mirrored h).1

/-- A list on an empty directory. -/
def emptyList : SQLiteQueueList := ((newList ∅).init .ok).2

theorem emptyList_initialised : Initialised emptyList := ⟨∅, .ok, rfl⟩

end SQLiteQueueList

end SimpleTaskQueue
