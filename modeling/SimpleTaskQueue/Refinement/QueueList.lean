import SimpleTaskQueue.Core.Bindings
import SimpleTaskQueue.Model.Dao.SQLiteQueueList
import SimpleTaskQueue.Refinement.Opening
/-!
# SimpleTaskQueue.Refinement.QueueList

The list of queues as **bindings of names to files** (`bindings`): `createQueue` binds,
`deleteQueue` unbinds and `renameQueue` renames, while a call on a queue changes nothing but
the content of its file. `ListStep` says once what each step can do, failures included.
-/

namespace SimpleTaskQueue

open Sqlite Runs

/-! ### Names and files -/

/-- The extension of a database file. -/
def dotDb : Str := ".db".toList

theorem findLastOf_dotDb (name : Str) : findLastOf (name ++ dotDb) '.' = some name.length := by
  simp [findLastOf, dotDb, List.idxOf?_cons]

theorem cstr_dotDb {name : Str} (hname : NulFree name) : cstr (name ++ dotDb) = name ++ dotDb := by
  refine cstr_of_nulFree fun h => ?_
  rcases List.mem_append.mp h with h | h
  · exact hname h
  · exact absurd h (by decide)

theorem fileOf_eq_some {name : Str} {f : FileName} (hf : fileOf name = some f) :
    f.val = cstr (name ++ dotDb) := by
  unfold fileOf at hf
  split at hf
  · cases hf
    rfl
  · cases hf

theorem queueName_dotDb {name : Str} {f : FileName} (hval : f.val = name ++ dotDb) :
    queueName f = some name := by
  have hdrop : (name ++ dotDb).drop (name.length + 1) = "db".toList := by
    rw [← List.drop_drop, List.drop_left]
    rfl
  simp only [queueName, hval, findLastOf_dotDb, hdrop, ne_eq, not_true_eq_false, if_false,
    List.take_left]

/-- `init` reads the name of a queue off its file. -/
theorem queueName_fileOf {name : Str} {f : FileName} (hname : NulFree name)
    (hf : fileOf name = some f) : queueName f = some name :=
  queueName_dotDb ((fileOf_eq_some hf).trans (cstr_dotDb hname))

theorem findLastOf_some {s : Str} {c : Char} {i : Nat} (h : findLastOf s c = some i) :
    s = s.take i ++ c :: s.drop (i + 1) := by
  simp only [findLastOf, Option.map_eq_some_iff] at h
  obtain ⟨j, hj, rfl⟩ := h
  rw [List.idxOf?, List.findIdx?_eq_some_iff_getElem] at hj
  obtain ⟨hlt, hc, -⟩ := hj
  have hlen : j < s.length := by simpa using hlt
  rw [List.getElem_reverse, beq_iff_eq] at hc
  rw [← hc, List.getElem_cons_drop, List.take_append_drop]

/-- The files `init` makes a queue of: those with the extension, and the file `db`. -/
theorem queueName_cases {name : Str} {f : FileName} (h : queueName f = some name) :
    f.val = name ++ dotDb ∨ f.val = "db".toList ∧ name = "db".toList := by
  simp only [queueName] at h
  cases hi : findLastOf f.val '.' with
  | none =>
      simp only [hi] at h
      split at h
      · cases h
      · next hdb =>
        obtain rfl := Option.some.inj h
        exact .inr ⟨not_not.mp hdb, not_not.mp hdb⟩
  | some i =>
      simp only [hi] at h
      split at h
      · cases h
      · next hdb =>
        obtain rfl := Option.some.inj h
        have hval := findLastOf_some hi
        rw [not_not.mp hdb] at hval
        exact .inl hval

theorem nulFree_queueName {name : Str} {f : FileName} (h : queueName f = some name) :
    NulFree name ∧ '/' ∉ name := by
  have hsub : ∀ c ∈ name, c ∈ f.val := by
    intro c hc
    rcases queueName_cases h with hs | ⟨hs, rfl⟩
    · rw [hs]
      exact List.mem_append_left _ hc
    · rw [hs]
      exact hc
  exact ⟨fun hc => f.property.nulFree (hsub _ hc), fun hc => f.property.slash (hsub _ hc)⟩

/-! ### Bindings -/

namespace SQLiteQueueList

/-- The file each listed name is bound to. -/
def bindings (s : SQLiteQueueList) : Bindings Str FileName := fun name =>
  (s.mQueueList.lookup name).map Handle.file

/-- The content of the queue under a name. -/
def database (s : SQLiteQueueList) (name : Str) : Option QueueDB :=
  (s.bindings name).bind s.dir.database

variable {s u : SQLiteQueueList} {name : Str} {d : Directory} {f : FileName} {h : Handle}

theorem bindings_of_lookup (hl : s.mQueueList.lookup name = some h) :
    s.bindings name = some h.file := by
  rw [bindings, hl]
  rfl

theorem isSome_bindings : (s.bindings name).isSome = true ↔ name ∈ s.mQueueList := by
  rw [bindings, Option.isSome_map]
  exact AList.lookup_isSome

theorem mem_listQueue : name ∈ s.listQueue.2 ↔ (s.bindings name).isSome = true := by
  rw [isSome_bindings, AList.mem_keys]
  unfold listQueue
  split
  · next hnil =>
    rw [List.isEmpty_iff.mp hnil]
  · rfl

theorem bindings_insert (s : SQLiteQueueList) (d : Directory) (name : Str) (h : Handle) :
    bindings { s with dir := d, mQueueList := s.mQueueList.insert name h } =
      s.bindings.bind name h.file := by
  funext m
  by_cases hm : m = name
  · subst hm
    simp [bindings, Bindings.bind]
  · simp [bindings, Bindings.bind, hm]

theorem bindings_erase (s : SQLiteQueueList) (name : Str) :
    bindings { s with mQueueList := s.mQueueList.erase name } = s.bindings.unbind name := by
  funext m
  by_cases hm : m = name
  · subst hm
    simp [bindings, Bindings.unbind]
  · simp [bindings, Bindings.unbind, hm]

theorem bindings_rename (hl : s.mQueueList.lookup name = some h) (newName : Str) :
    bindings { s with mQueueList := (s.mQueueList.insert newName h).erase name } =
      s.bindings.rename name newName := by
  rw [Bindings.rename, bindings_of_lookup hl]
  exact (bindings_erase { s with mQueueList := s.mQueueList.insert newName h } name).trans
    (congrArg (Bindings.unbind · name) (bindings_insert s s.dir newName h))

/-- Binding a name to the file it is bound to changes nothing. -/
theorem bind_bound (hb : s.bindings name = some f) : s.bindings.bind name f = s.bindings := by
  rw [Bindings.bind, ← hb, Function.update_eq_self]

/-! ### Creating a queue -/

end SQLiteQueueList

/-- What `sqlite3_open` finds in a file it can open. -/
inductive Directory.Opens (d : Directory) (f : FileName) : QueueDB → Prop
  | existing {db : QueueDB} (h : d.lookup f = some (.file (some db))) : Opens d f db
  | new (h : d.lookup f = none) : Opens d f emptyDB

theorem Directory.Opens.unique {d : Directory} {f : FileName} {db db' : QueueDB}
    (h : d.Opens f db) (h' : d.Opens f db') : db = db' := by
  cases h with
  | existing h =>
      cases h' with
      | existing h' => exact Option.some.inj (Entry.file.inj (Option.some.inj (h.symm.trans h')))
      | new h' => rw [h'] at h; cases h
  | new h =>
      cases h' with
      | existing h' => rw [h] at h'; cases h'
      | new h' => rfl

/-- Nothing fails. -/
structure CreateEnv.Works (env : CreateEnv) : Prop where
  allocProc : env.allocProc = true
  allocQueue : env.allocQueue = true
  allocToken : env.allocToken = true
  opens : env.opens = true
  sqlite : env.sqlite.Reliable

/-- `connectToDB` on a path. -/
inductive Directory.Connects (d : Directory) (env : CreateEnv) (path : Option FileName) :
    Nat → Directory → Prop
  /-- The file is accepted as it is, or was empty. -/
  | opened {f : FileName} {db db' : QueueDB} (hpath : path = some f) (hdb : d.Opens f db)
      (hacc : Accepted db') (hsame : db' = db ∨ db = emptyDB) :
      Connects d env path 0 (d.insert f (.file (some db')))
  /-- The file was opened, and may have been created, in vain. -/
  | rejected {f : FileName} {db db' : QueueDB} {n : Nat} (hn : n ≠ 0) (hpath : path = some f)
      (hdb : d.Opens f db) (hbad : env.sqlite.Reliable → ¬ Accepted db ∧ db ≠ emptyDB) :
      Connects d env path n (d.insert f (.file (some db')))
  /-- There is nothing to open, or the system refuses. -/
  | closed {n : Nat} (hn : n ≠ 0)
      (hwhy : env.opens = true → ∀ f, path = some f → ∀ db, ¬ d.Opens f db) :
      Connects d env path n d

theorem Directory.connects (d : Directory) (env : CreateEnv) (path : Option FileName) :
    d.Connects env path (d.connectToDB env path).1 (d.connectToDB env path).2.2 := by
  have hon : ∀ {f : FileName} {db : QueueDB}, path = some f → d.Opens f db →
      let r := SimpleTaskQueue.connectToDB true ((Conn.open db).given env.sqlite)
      d.Connects env path r.1 (d.insert f (.file (some r.2.db))) := by
    intro f db hpath hdb r
    by_cases h0 : r.1 = 0
    · obtain ⟨hacc, hsame⟩ := connectToDB_spec _ h0
      rw [h0]
      exact .opened hpath hdb hacc (hsame.imp_right And.left)
    · -- without failures only the content of the file can be the reason
      refine .rejected h0 hpath hdb fun hrel => ?_
      have hno := fun hgood => h0 (connectToDB_reliable hrel hgood)
      exact ⟨fun hacc => hno (.inl hacc), fun hempty => hno (.inr hempty)⟩
  cases path with
  | none => exact .closed Nat.one_ne_zero fun _ _ => nofun
  | some f =>
      simp only [Directory.connectToDB]
      cases hopens : env.opens with
      | false => exact .closed Nat.one_ne_zero fun h => by rw [hopens] at h; cases h
      | true =>
          -- what is neither missing nor a database cannot be opened
          have hclosed : ∀ e, d.lookup f = some e → (∀ db, e ≠ .file (some db)) →
              d.Connects env (some f) 1 d := by
            refine fun e hl hno => .closed Nat.one_ne_zero fun _ g hg db hdb => ?_
            cases hg
            cases hdb with
            | existing h => exact hno db (Option.some.inj (hl.symm.trans h))
            | new h => rw [hl] at h; cases h
          cases hl : d.lookup f with
          | none => exact hon rfl (.new hl)
          | some e =>
              cases e with
              | directory | special => exact hclosed _ hl nofun
              | file c =>
                  cases c with
                  | none => exact hclosed _ hl nofun
                  | some db => exact hon rfl (.existing hl)

namespace SQLiteQueueList

/-- `createQueue`. -/
inductive Creation (s : SQLiteQueueList) (env : CreateEnv) (name : Str) :
    ErrCode → SQLiteQueueList → Prop
  | created {h : Handle} {db db' : QueueDB} (hname : name ≠ [])
      (hfile : fileOf name = some h.file) (hdb : s.dir.Opens h.file db) (hacc : Accepted db')
      (hsame : db' = db ∨ db = emptyDB) :
      Creation s env name .OK { s with
        dir := s.dir.insert h.file (.file (some db')), mQueueList := s.mQueueList.insert name h }
  /-- The file was opened, and may have been created, in vain. -/
  | rejected {f : FileName} {db db' : QueueDB} (hfile : fileOf name = some f)
      (hdb : s.dir.Opens f db) (hbad : env.sqlite.Reliable → ¬ Accepted db ∧ db ≠ emptyDB) :
      Creation s env name .OS_ERROR { s with dir := s.dir.insert f (.file (some db')) }
  | refused (hwhy : env.Works → name ≠ [] → ∀ f, fileOf name = some f → ∀ db, ¬ s.dir.Opens f db) :
      Creation s env name .OS_ERROR s

theorem createQueue_spec (s : SQLiteQueueList) (env : CreateEnv) (name : Str) :
    Creation s env name (s.createQueue env name).1 (s.createQueue env name).2 := by
  unfold createQueue
  by_cases hproc : env.allocProc = true
  swap
  · rw [if_pos (by simp [hproc])]
    exact .refused fun hw => absurd hw.allocProc hproc
  by_cases hqueue : env.allocQueue = true
  swap
  · rw [if_neg (by simp [hproc]), if_pos (by simp [hqueue])]
    exact .refused fun hw => absurd hw.allocQueue hqueue
  rw [if_neg (by simp [hproc]), if_neg (by simp [hqueue])]
  unfold Directory.initQueue
  by_cases hname : name = []
  · simp only [hname, List.isEmpty_nil, if_true]
    exact .refused fun _ h => absurd rfl h
  by_cases htoken : env.allocToken = true
  swap
  · simp only [List.isEmpty_iff, hname, htoken, if_false, Bool.not_false, if_true]
    exact .refused fun hw => absurd hw.allocToken htoken
  have hconn := s.dir.connects env (fileOf name)
  simp only [List.isEmpty_iff, hname, htoken, if_false, Bool.not_true, Bool.false_eq_true]
  -- everything was allocated: the outcome is that of `connectToDB`
  generalize s.dir.connectToDB env (fileOf name) = r at hconn ⊢
  obtain ⟨n, c, d⟩ := r
  dsimp only at hconn ⊢
  cases hconn with
  | opened hpath hdb hacc hsame =>
      simp only [ne_eq, not_true_eq_false, if_false, hpath]
      exact .created (h := ⟨_, c, Task.blank, false, false, []⟩) hname hpath hdb hacc hsame
  | rejected hn hpath hdb hbad =>
      rw [if_pos hn]
      exact .rejected hpath hdb hbad
  | closed hn hwhy =>
      rw [if_pos hn]
      exact .refused fun hw _ => hwhy hw.opens

/-! ### The steps -/

/-- What a step can do. -/
inductive ListStep (s : SQLiteQueueList) : ListAction → ListOutput → SQLiteQueueList → Prop
  | create {env : CreateEnv} {name : Str} {rc : ErrCode} {u : SQLiteQueueList}
      (hc : Creation s env name rc u) : ListStep s (.createQueue env name) (.code rc) u
  | list : ListStep s .listQueue (.names s.listQueue.1 s.listQueue.2) s
  | delete {name : Str} (hn : name ∈ s.mQueueList) :
      ListStep s (.deleteQueue name) (.code .OK) { s with mQueueList := s.mQueueList.erase name }
  | noDelete {name : Str} (hn : name ∉ s.mQueueList) :
      ListStep s (.deleteQueue name) (.code .NOT_FOUND) s
  | rename {oldName newName : Str} {h : Handle} (hl : s.mQueueList.lookup oldName = some h) :
      ListStep s (.renameQueue oldName newName) (.code .OK)
        { s with mQueueList := (s.mQueueList.insert newName h).erase oldName }
  | noRename {oldName newName : Str} (hn : oldName ∉ s.mQueueList) :
      ListStep s (.renameQueue oldName newName) (.code .NOT_FOUND) s
  | call {name : Str} {a : Action} {h : Handle} {db : QueueDB} {o : Output} {q : SQLiteQueue}
      (hl : s.mQueueList.lookup name = some h) (ha : a.isDatabaseCall = true)
      (hdb : s.dir.database h.file = some db) (hq : (h.queue.load db).step a = some (o, q)) :
      ListStep s (.call name a) (.call o) { s with
        dir := s.dir.insert h.file (.file (some q.mToken.db))
        mQueueList := s.mQueueList.insert name { h with queue := q } }
  | noQueue {name : Str} {a : Action} (hl : s.mQueueList.lookup name = none) :
      ListStep s (.call name a) .noQueue s

theorem ListStep.of_step {a : ListAction} {o : ListOutput} (h : s.step a = some (o, u)) :
    ListStep s a o u := by
  cases a with
  | createQueue env name =>
      simp only [step] at h
      split at h
      · simp only [Option.some.injEq, Prod.mk.injEq] at h
        obtain ⟨rfl, rfl⟩ := h
        exact .create (createQueue_spec s env name)
      · cases h
  | listQueue =>
      simp only [step, Option.some.injEq, Prod.mk.injEq] at h
      obtain ⟨rfl, rfl⟩ := h
      exact .list
  | deleteQueue name =>
      simp only [step, deleteQueue, Option.some.injEq, Prod.mk.injEq] at h
      obtain ⟨rfl, rfl⟩ := h
      split
      · next hn => exact .delete hn
      · next hn => exact .noDelete hn
  | renameQueue oldName newName =>
      simp only [step, renameQueue, Option.some.injEq, Prod.mk.injEq] at h
      obtain ⟨rfl, rfl⟩ := h
      cases hl : s.mQueueList.lookup oldName with
      | none => exact .noRename (AList.lookup_eq_none.mp hl)
      | some it => exact .rename hl
  | call name a =>
      simp only [step, SQLiteQueueList.call, getQueue] at h
      cases hl : s.mQueueList.lookup name with
      | none =>
          simp only [hl, Option.some.injEq, Prod.mk.injEq] at h
          obtain ⟨rfl, rfl⟩ := h
          exact .noQueue hl
      | some hd =>
          simp only [hl] at h
          split at h
          · next ha =>
            cases hdb : s.dir.database hd.file with
            | none => simp [hdb] at h
            | some db =>
                simp only [hdb, Option.map_eq_some_iff, Prod.mk.injEq] at h
                obtain ⟨⟨o', q⟩, hq, rfl, rfl⟩ := h
                exact .call hl ha hdb hq
          · cases h

/-- A call of a client keeps the shape of the database. -/
theorem sameShape_call {q q' : SQLiteQueue} {a : Action} {o : Output}
    (ha : a.isDatabaseCall = true) (h : q.step a = some (o, q')) :
    SameShape q.mToken.db q'.mToken.db := by
  have hcall : ∀ {β : Type} {m : QueueM β} {env : Env}, Preserves SameShape m →
      SameShape q.mToken.db (q.call env m).2.mToken.db := fun hm => hm (q.mToken.given _)
  cases a with
  | start | stop | worker => cases ha
  | currentTask out =>
      simp only [SQLiteQueue.step, Option.some.injEq, Prod.mk.injEq] at h
      exact h.2 ▸ refl _
  | listPending | listFinished =>
      simp only [SQLiteQueue.step, Option.some.injEq, Prod.mk.injEq] at h
      exact h.2 ▸ hcall (preserves_listIDInTable _)
  | pendingDetails | finishedDetails =>
      simp only [SQLiteQueue.step, Option.some.injEq, Prod.mk.injEq] at h
      exact h.2 ▸ hcall (preserves_taskDetails _ _ _)
  | clearPending | clearFinished =>
      simp only [SQLiteQueue.step, Option.some.injEq, Prod.mk.injEq] at h
      exact h.2 ▸ hcall (preserves_clearTable (by decide))
  | addTask =>
      simp only [SQLiteQueue.step, Option.some.injEq, Prod.mk.injEq] at h
      exact h.2 ▸ hcall (preserves_addTask _)
  | removeTask =>
      simp only [SQLiteQueue.step, Option.some.injEq, Prod.mk.injEq] at h
      exact h.2 ▸ hcall (preserves_removeTask _ _)

end SQLiteQueueList

end SimpleTaskQueue
