import SimpleTaskQueue.Model.Controller.GRPCServer.Service
import SimpleTaskQueue.Model.Dao.GRPCQueueList
import SimpleTaskQueue.Refinement.Life
import SimpleTaskQueue.Refinement.QueueList
/-!
# SimpleTaskQueue.Refinement.Service

Each database file of a server **lives a life of its own**. `lifeEvents f` is what a step of the
server does to the file `f`; as long as no file is opened that another object has open
(`FileFree`), these steps are a run of `QueueLife` (`run_life`), however the handlers and threads
interleave, whatever the other queues do, and however the queues are renamed, deleted and created
again.

`Moves` says once what each step can do.
-/

namespace SimpleTaskQueue

open Sqlite Sqlite.Conn Protos Runs

/-- `createQueue` gets as far as `connectToDB`, on this file. -/
def CreateEnv.reaches (env : CreateEnv) (name : Str) : Option FileName :=
  if env.allocProc && env.allocQueue && !name.isEmpty && env.allocToken && env.opens then
    fileOf name
  else none

theorem fileOf_of_reaches {env : CreateEnv} {name : Str} {f : FileName}
    (hf : env.reaches name = some f) : fileOf name = some f := by
  unfold CreateEnv.reaches at hf
  split at hf
  · exact hf
  · cases hf

namespace Service

/-- `connectToDB` on a file with the given content. -/
abbrev connected (env : CreateEnv) (db : QueueDB) : Nat × Conn TableName :=
  connectToDB true ((Conn.open db).given env.sqlite)

variable {s u : Service} {d : Directory} {env : CreateEnv} {name : Str} {f g : FileName}
  {a : ServiceAction} {b : Action} {o : ServiceOutput} {h h' : QueueObject} {j k : Nat}
  {db : QueueDB} {q : SQLiteQueue} {x : QueueLife} {key : Option Nat}

/-! ### The steps -/

/-- `createQueue`. -/
inductive Creation (s : Service) (env : CreateEnv) (name : Str) : ErrCode → Service → Prop
  | created {f : FileName} {db : QueueDB} (hf : env.reaches name = some f) (hdb : s.dir.Opens f db)
      (h0 : (connected env db).1 = 0) :
      Creation s env name .OK ⟨s.dir.insert f (.file (some (connected env db).2.db)),
        s.objects ++ [⟨⟨f, ⟨(connected env db).2, Task.blank, false, false, []⟩⟩, .alive⟩],
        s.mQueueList.insert name s.objects.length⟩
  /-- The file was opened, and may have been created, in vain. -/
  | rejected {f : FileName} {db : QueueDB} (hf : env.reaches name = some f)
      (hdb : s.dir.Opens f db) (h1 : (connected env db).1 ≠ 0) :
      Creation s env name .OS_ERROR
        { s with dir := s.dir.insert f (.file (some (connected env db).2.db)) }
  | refused (hwhy : ∀ f, env.reaches name = some f → ∀ db, ¬ s.dir.Opens f db) :
      Creation s env name .OS_ERROR s

/-- What `connectToDB` does with the path of a file. -/
theorem connectToDB_cases (d : Directory) (env : CreateEnv) (path : Option FileName) :
    (∃ f db, path = some f ∧ env.opens = true ∧ d.Opens f db ∧
      d.connectToDB env path = ((connected env db).1, (connected env db).2,
        d.insert f (.file (some (connected env db).2.db)))) ∨
    d.connectToDB env path = (1, Conn.open emptyDB, d) ∧
      (env.opens = true → ∀ f, path = some f → ∀ db, ¬ d.Opens f db) := by
  cases path with
  | none => exact .inr ⟨rfl, fun _ _ hf => by cases hf⟩
  | some f =>
      cases hopens : env.opens with
      | false =>
          refine .inr ⟨?_, fun hc => by cases hc⟩
          simp only [Directory.connectToDB, hopens, Bool.not_false, if_true]
      | true =>
          -- what is neither missing nor a database cannot be opened
          have hclosed : ∀ e, d.lookup f = some e → (∀ db, e ≠ .file (some db)) →
              ∀ db, ¬ d.Opens f db := by
            intro e hl hno db hdb
            cases hdb with
            | existing h => exact hno db (Option.some.inj (hl.symm.trans h))
            | new h => rw [hl] at h; cases h
          have hstuck : ∀ e, d.lookup f = some e → (∀ db, e ≠ .file (some db)) →
              true = true → ∀ g, some f = some g → ∀ db, ¬ d.Opens g db := by
            intro e hl hno _ g hg
            obtain rfl := Option.some.inj hg
            exact hclosed e hl hno
          cases hl : d.lookup f with
          | none =>
              refine .inl ⟨f, emptyDB, rfl, rfl, .new hl, ?_⟩
              simp only [Directory.connectToDB, hopens, hl, Bool.not_true, Bool.false_eq_true,
                if_false]
          | some e =>
              cases e with
              | directory =>
                  refine .inr ⟨?_, hstuck _ hl (by simp)⟩
                  simp only [Directory.connectToDB, hopens, hl, ite_self]
              | special =>
                  refine .inr ⟨?_, hstuck _ hl (by simp)⟩
                  simp only [Directory.connectToDB, hopens, hl, ite_self]
              | file c =>
                  cases c with
                  | none =>
                      refine .inr ⟨?_, hstuck _ hl (by simp)⟩
                      simp only [Directory.connectToDB, hopens, hl, ite_self]
                  | some db =>
                      refine .inl ⟨f, db, rfl, rfl, .existing hl, ?_⟩
                      simp only [Directory.connectToDB, hopens, hl, Bool.not_true,
                        Bool.false_eq_true, if_false]

theorem createQueue_spec (s : Service) (env : CreateEnv) (name : Str) :
    Creation s env name (s.createQueue env name).1 (s.createQueue env name).2 := by
  have hno : ∀ {rc : ErrCode} {u : Service}, rc = .OS_ERROR → u = s → env.reaches name = none →
      Creation s env name rc u := by
    rintro _ _ rfl rfl hf
    exact .refused fun f hf' => by rw [hf] at hf'; cases hf'
  unfold createQueue
  by_cases hproc : env.allocProc = true
  swap
  · rw [if_pos (by simp [hproc])]
    exact hno rfl rfl (by simp [CreateEnv.reaches, hproc])
  by_cases hqueue : env.allocQueue = true
  swap
  · rw [if_neg (by simp [hproc]), if_pos (by simp [hqueue])]
    exact hno rfl rfl (by simp [CreateEnv.reaches, hqueue])
  rw [if_neg (by simp [hproc]), if_neg (by simp [hqueue])]
  unfold Directory.initQueue
  by_cases hname : name = []
  · simp only [hname, List.isEmpty_nil, if_true]
    exact .refused fun f hf => by simp [CreateEnv.reaches] at hf
  by_cases htoken : env.allocToken = true
  swap
  · simp only [List.isEmpty_iff, hname, htoken, if_false, Bool.not_false, if_true]
    exact hno rfl rfl (by simp [CreateEnv.reaches, htoken])
  simp only [List.isEmpty_iff, hname, htoken, if_false, Bool.not_true, Bool.false_eq_true]
  -- everything was allocated: the outcome is that of `connectToDB`
  have hreach : env.opens = true → env.reaches name = fileOf name := by
    intro hopens
    simp [CreateEnv.reaches, hproc, hqueue, hname, htoken, hopens]
  rcases connectToDB_cases s.dir env (fileOf name) with
    ⟨f, db, hpath, hopens, hdb, hrun⟩ | ⟨hrun, hwhy⟩ <;> rw [hrun]
  · rw [hpath] at hreach
    by_cases h0 : (connected env db).1 = 0
    · simp only [h0, ne_eq, not_true_eq_false, if_false, hpath]
      exact .created (hreach hopens) hdb h0
    · rw [if_pos h0]
      exact .rejected (hreach hopens) hdb h0
  · rw [if_pos Nat.one_ne_zero]
    refine .refused fun f hf => ?_
    by_cases hopens : env.opens = true
    · exact hwhy hopens f (hreach hopens ▸ hf)
    · simp [CreateEnv.reaches, hopens] at hf

/-- What a step does to the file. -/
def lifeEvents (f : FileName) : ServiceAction × ServiceOutput → List QueueLifeEvent
  | (.request (.create env req), .status st) =>
    if env.reaches req.name = some f then [(.init env.sqlite, .code (GRPCQueueList.code st))]
    else []
  | (_, .called _ g e) => if g = f then [(.call e.1, e.2)] else []
  | (.restart, _) => [(.exit, .silent)]
  | _ => []

theorem lifeEvents_called {e : Event} : lifeEvents f (a, .called k g e) =
    if g = f then [(.call e.1, e.2)] else [] := by
  cases a with
  | request r => cases r <;> rfl
  | destroy | worker | restart => rfl

/-- The names under which the step may put another queue, or none. -/
def rebinds : ServiceAction → List Str
  | .request (.create _ req) => [req.name]
  | .request (.rename req) => [req.oldname, req.newName]
  | .request (.delete req) => [req.name]
  | _ => []

/-- What a step can do; `key` is what the handler has found. -/
inductive Moves (s : Service) (key : Option Nat) : ServiceAction → ServiceOutput → Service → Prop
  | create {env : CreateEnv} {req : QueueReq} {st : Status} {u : Service}
      (hc : Creation s env req.name (GRPCQueueList.code st) u) :
      Moves s key (.request (.create env req)) (.status st) u
  /-- At most the names of the queues change. -/
  | quiet {a : ServiceAction} {o : ServiceOutput} {l : AList fun _ : Str => Nat}
      (hr : a ≠ .restart) (ha : ∀ f, lifeEvents f (a, o) = [])
      (hl : ∀ n k, l.lookup n = some k → ∃ m, s.mQueueList.lookup m = some k)
      (hkeep : ∀ n, n ∉ rebinds a → l.lookup n = s.mQueueList.lookup n)
      (hnone : s.mQueueList.lookup [] = none → l.lookup [] = none) :
      Moves s key a o { s with mQueueList := l }
  /-- An object makes a step; it may be the last one of its own. -/
  | called {a : ServiceAction} {k : Nat} {b : Action} {h : QueueObject} {o : Output}
      {q : SQLiteQueue} {stage : Stage} (ha : target key a = some (k, b))
      (hk : s.objects[k]? = some h) (hgone : h.stage ≠ .gone)
      (hopen : key = some k ∨ h.isOpen = true)
      (hstage : stage = h.stage ∨
        stage = .destroyed ∧ a.destroyed = some k ∧ ∀ n, s.mQueueList.lookup n ≠ some k)
      (hq : (s.load h).step b = some (o, q)) :
      Moves s key a (.called k h.file (b, o)) (s.store k { h with stage := stage } q)
  | restart : Moves s key .restart .silent
      ⟨s.dir, s.objects.map fun h => { h with stage := .gone }, ∅⟩

/-- Each name is listed once. -/
theorem listed_iff : s.listed k = true ↔ ∃ n, s.mQueueList.lookup n = some k := by
  simp only [listed, List.any_eq_true, beq_iff_eq]
  constructor
  · rintro ⟨⟨n, k'⟩, hmem, rfl⟩
    exact ⟨n, AList.mem_lookup_iff.mpr hmem⟩
  · rintro ⟨n, hn⟩
    exact ⟨⟨n, k⟩, AList.mem_lookup_iff.mp hn, rfl⟩

theorem onObject_some {r : ServiceOutput × Service} (hs : s.onObject k b = some r) :
    ∃ h o q, s.objects[k]? = some h ∧ h.stage ≠ .gone ∧ (s.load h).step b = some (o, q) ∧
      r = (.called k h.file (b, o), s.store k h q) := by
  unfold onObject at hs
  split at hs
  · cases hs
  next h hk =>
  split at hs
  · cases hs
  next hgone =>
  simp only [Option.map_eq_some_iff] at hs
  obtain ⟨⟨o, q⟩, hq, rfl⟩ := hs
  exact ⟨h, o, q, hk, hgone, hq, rfl⟩

/-- A thread that can make a step has not returned. -/
theorem isOpen_of_worker {i : Nat} {w : Work} {o : Output} (hgone : h.stage ≠ .gone)
    (hq : (s.load h).step (.worker i w) = some (o, q)) : h.isOpen = true := by
  obtain ⟨pc, pc', q', hpc, hl, -⟩ := SQLiteQueue.step_worker hq
  have hne : pc ≠ .returned := by cases hl <;> simp
  have hmem : pc ∈ h.queue.threads := List.mem_of_getElem? hpc
  have hany : h.queue.threads.any (fun pc => pc != .returned) = true :=
    List.any_eq_true.mpr ⟨pc, hmem, by simpa using hne⟩
  unfold QueueObject.isOpen
  split
  · rfl
  · exact hany
  · next hg => exact absurd hg hgone

theorem Creation.code {rc : ErrCode} (h : Creation s env name rc u) :
    rc = .OK ∨ rc = .OS_ERROR := by
  cases h with
  | created => exact .inl rfl
  | rejected | refused => exact .inr rfl

/-- The status of a code that is `OK` or `OS_ERROR` tells which of them it was. -/
theorem code_status {rc : ErrCode} (hrc : rc = .OK ∨ rc = .OS_ERROR) (msg : Str) :
    GRPCQueueList.code (if rc ≠ .OK then toGRPCStatus rc msg else Status.OK) = rc := by
  rcases hrc with rfl | rfl <;> rfl

/-- `Create`. -/
theorem create_spec (s : Service) (env : CreateEnv) (req : QueueReq) :
    Creation s env req.name (GRPCQueueList.code (QueueListImpl.create queueList env req s).1)
      (QueueListImpl.create queueList env req s).2 := by
  unfold QueueListImpl.create QueueListImpl.handle
  by_cases hname : req.name.isEmpty = true
  · rw [if_pos hname]
    refine .refused fun f hf => ?_
    simp [CreateEnv.reaches, hname] at hf
  · rw [if_neg hname]
    have hc : Creation s env req.name (queueList.createQueue env req.name s).1
        (queueList.createQueue env req.name s).2 := s.createQueue_spec env req.name
    dsimp only
    rw [code_status hc.code]
    exact hc

/-- A name that is not empty is put in, and one is taken out. -/
theorem lookup_nil_rename {l : AList fun _ : Str => Nat} {oldName newName : Str}
    (hnew : newName ≠ []) (h : l.lookup [] = none) :
    ((l.insert newName k).erase oldName).lookup [] = none := by
  by_cases hold : oldName = []
  · rw [hold, AList.lookup_erase]
  · rw [AList.lookup_erase_ne (Ne.symm hold), AList.lookup_insert_ne (Ne.symm hnew), h]

theorem lookup_nil_erase {l : AList fun _ : Str => Nat} {name : Str} (h : l.lookup [] = none) :
    (l.erase name).lookup [] = none := by
  by_cases hname : name = []
  · rw [hname, AList.lookup_erase]
  · rw [AList.lookup_erase_ne (Ne.symm hname), h]

/-- Behind `Rename` the list has no other queues. -/
theorem rename_spec (s : Service) (req : RenameQueueReq) :
    ∃ l, (QueueListImpl.rename queueList req s).2 = { s with mQueueList := l } ∧
      (∀ n k, l.lookup n = some k → ∃ m, s.mQueueList.lookup m = some k) ∧
      (∀ n, n ∉ rebinds (.request (.rename req)) → l.lookup n = s.mQueueList.lookup n) ∧
      (s.mQueueList.lookup [] = none → l.lookup [] = none) := by
  have hsame : ∃ l, s = { s with mQueueList := l } ∧
      (∀ n k, l.lookup n = some k → ∃ m, s.mQueueList.lookup m = some k) ∧
      (∀ n, n ∉ rebinds (.request (.rename req)) → l.lookup n = s.mQueueList.lookup n) ∧
      (s.mQueueList.lookup [] = none → l.lookup [] = none) :=
    ⟨s.mQueueList, rfl, fun n k hn => ⟨n, hn⟩, fun _ _ => rfl, id⟩
  unfold QueueListImpl.rename QueueListImpl.handle
  split
  · exact hsame
  next hnames =>
  simp only [queueList, renameQueue]
  split
  · next k hk =>
    refine ⟨_, rfl, fun n k' hn => ?_, fun n hn => ?_, lookup_nil_rename (by simp_all)⟩
    · by_cases hold : n = req.oldname
      · rw [hold, AList.lookup_erase] at hn
        cases hn
      · rw [AList.lookup_erase_ne hold] at hn
        by_cases hnew : n = req.newName
        · rw [hnew, AList.lookup_insert] at hn
          exact ⟨req.oldname, hk.trans hn⟩
        · rw [AList.lookup_insert_ne hnew] at hn
          exact ⟨n, hn⟩
    · simp only [rebinds, List.mem_cons, List.not_mem_nil, or_false, not_or] at hn
      rw [AList.lookup_erase_ne hn.1, AList.lookup_insert_ne hn.2]
  · exact hsame

theorem delete_spec (s : Service) (req : QueueReq) :
    ∃ l, (QueueListImpl.delete queueList req s).2 = { s with mQueueList := l } ∧
      (∀ n k, l.lookup n = some k → ∃ m, s.mQueueList.lookup m = some k) ∧
      (∀ n, n ∉ rebinds (.request (.delete req)) → l.lookup n = s.mQueueList.lookup n) ∧
      (s.mQueueList.lookup [] = none → l.lookup [] = none) := by
  have hsame : ∃ l, s = { s with mQueueList := l } ∧
      (∀ n k, l.lookup n = some k → ∃ m, s.mQueueList.lookup m = some k) ∧
      (∀ n, n ∉ rebinds (.request (.delete req)) → l.lookup n = s.mQueueList.lookup n) ∧
      (s.mQueueList.lookup [] = none → l.lookup [] = none) :=
    ⟨s.mQueueList, rfl, fun n k hn => ⟨n, hn⟩, fun _ _ => rfl, id⟩
  unfold QueueListImpl.delete QueueListImpl.handle
  split
  · exact hsame
  simp only [queueList, deleteQueue]
  split
  · refine ⟨_, rfl, fun n k hn => ?_, fun n hn => ?_, lookup_nil_erase⟩
    · by_cases hname : n = req.name
      · rw [hname, AList.lookup_erase] at hn
        cases hn
      · rw [AList.lookup_erase_ne hname] at hn
        exact ⟨n, hn⟩
    · exact AList.lookup_erase_ne (by simpa [rebinds] using hn)
  · exact hsame

/-- Nothing but an answer. -/
theorem quiet_same (hr : a ≠ .restart) (ha : ∀ f, lifeEvents f (a, o) = []) : Moves s key a o s :=
  .quiet hr ha (fun n _ hn => ⟨n, hn⟩) (fun _ _ => rfl) id

theorem Moves.of_act (hs : s.act key a = some (o, u)) : Moves s key a o u := by
  cases a with
  | restart =>
      obtain ⟨rfl, rfl⟩ := Prod.mk.inj (Option.some.inj hs)
      exact .restart
  | destroy k =>
      simp only [act] at hs
      split at hs
      · cases hs
      next hlist =>
      unfold destroy at hs
      split at hs
      · cases hs
      next h hk =>
      split at hs
      · cases hs
      next hd =>
      have halive : h.stage = .alive := not_not.mp hd
      simp only [Option.map_eq_some_iff, Prod.mk.injEq] at hs
      obtain ⟨⟨o, q⟩, hq, rfl, rfl⟩ := hs
      refine .called rfl hk (by simp [halive]) (.inr ?_)
        (.inr ⟨rfl, rfl, fun n hn => hlist (listed_iff.mpr ⟨n, hn⟩)⟩) hq
      simp [QueueObject.isOpen, halive]
  | worker k i w =>
      obtain ⟨h, o, q, hk, hgone, hq, he⟩ := onObject_some hs
      obtain ⟨rfl, rfl⟩ := Prod.mk.inj he
      exact .called rfl hk hgone (.inr (isOpen_of_worker hgone hq)) (.inl rfl) hq
  | request r =>
      cases r with
      | create env req =>
          simp only [act] at hs
          split at hs
          · cases hs
          obtain ⟨rfl, rfl⟩ := Prod.mk.inj (Option.some.inj hs)
          exact .create (s.create_spec env req)
      | rename req =>
          obtain ⟨rfl, rfl⟩ := Prod.mk.inj (Option.some.inj hs)
          obtain ⟨l, hl, hsub, hkeep, hnone⟩ := s.rename_spec req
          rw [hl]
          exact .quiet (by simp) (fun _ => rfl) hsub hkeep hnone
      | delete req =>
          obtain ⟨rfl, rfl⟩ := Prod.mk.inj (Option.some.inj hs)
          obtain ⟨l, hl, hsub, hkeep, hnone⟩ := s.delete_spec req
          rw [hl]
          exact .quiet (by simp) (fun _ => rfl) hsub hkeep hnone
      | list | getQueue req =>
          simp only [act, Option.some.injEq, Prod.mk.injEq] at hs
          obtain ⟨rfl, rfl⟩ := hs
          exact quiet_same (by simp) fun _ => rfl
      | isRunning name =>
          simp only [act] at hs
          split at hs
          · obtain ⟨rfl, rfl⟩ := Prod.mk.inj (Option.some.inj hs)
            exact quiet_same (by simp) fun _ => rfl
          split at hs
          · cases hs
          split at hs
          · cases hs
          obtain ⟨rfl, rfl⟩ := Prod.mk.inj (Option.some.inj hs)
          exact quiet_same (by simp) fun _ => rfl
      | call name b =>
          simp only [act] at hs
          split at hs
          · cases hs
          split at hs
          · obtain ⟨rfl, rfl⟩ := Prod.mk.inj (Option.some.inj hs)
            exact quiet_same (by simp) fun _ => rfl
          · next k b hk =>
            obtain ⟨h, o, q, hobj, hgone, hq, he⟩ := onObject_some hs
            obtain ⟨rfl, rfl⟩ := Prod.mk.inj he
            refine .called hk hobj hgone (.inl ?_) (.inl rfl) hq
            simp only [target, Option.map_eq_some_iff, Prod.mk.injEq] at hk
            obtain ⟨k', hk', rfl, -⟩ := hk
            exact hk'

/-! ### What always holds -/

structure Sound (s : Service) : Prop where
  /-- The objects in the list are alive. -/
  listed : ∀ n k, s.mQueueList.lookup n = some k → ∃ h, s.objects[k]? = some h ∧ h.stage = .alive
  /-- An object has opened a database. -/
  stored : ∀ h ∈ s.objects, ∃ db, s.dir.lookup h.file = some (.file (some db))

theorem sound_new (d : Directory) : Sound (new d) where
  listed := fun n k hn => by cases hn
  stored := fun h hh => by cases hh

theorem lookup_insert_database {db' : QueueDB} (hf : d.lookup f = some (.file (some db))) :
    ∃ db'', (d.insert g (.file (some db'))).lookup f = some (.file (some db'')) := by
  by_cases hfg : f = g
  · exact ⟨db', by rw [hfg, AList.lookup_insert]⟩
  · exact ⟨db, by rw [AList.lookup_insert_ne hfg, hf]⟩

/-- **Step lemma.** -/
theorem Sound.step (hs : Sound s) (hm : Moves s key a o u) : Sound u := by
  have hstored : ∀ {g : FileName} {db : QueueDB}, ∀ h ∈ s.objects, ∃ db',
      (s.dir.insert g (.file (some db))).lookup h.file = some (.file (some db')) := by
    intro g db h hh
    obtain ⟨db', hdb'⟩ := hs.stored h hh
    exact lookup_insert_database hdb'
  cases hm with
  | @create env req st _ hc =>
      generalize GRPCQueueList.code _ = rc at hc
      cases hc with
      | @created f db hf hdb h0 =>
          refine ⟨fun n k hn => ?_, fun h hh => ?_⟩
          · dsimp only at hn ⊢
            by_cases hname : n = req.name
            · rw [hname, AList.lookup_insert] at hn
              obtain rfl := Option.some.inj hn
              exact ⟨_, List.getElem?_concat_length, rfl⟩
            · rw [AList.lookup_insert_ne hname] at hn
              obtain ⟨h, hk, hd⟩ := hs.listed n k hn
              exact ⟨h, List.getElem?_append_left (List.getElem?_eq_some_iff.mp hk).1 ▸ hk, hd⟩
          · rcases List.mem_append.mp hh with hh | hh
            · exact hstored h hh
            · obtain rfl := List.mem_singleton.mp hh
              exact ⟨_, AList.lookup_insert s.dir⟩
      | rejected => exact ⟨hs.listed, hstored⟩
      | refused => exact hs
  | quiet _ _ hl =>
      refine ⟨fun n k hn => ?_, hs.stored⟩
      obtain ⟨m, hm⟩ := hl n k hn
      exact hs.listed m k hm
  | @called _ k b h o q stage ha hk _ _ hstage hq =>
      refine ⟨fun n j hn => ?_, fun h' hh => ?_⟩
      · obtain ⟨h', hj, hd⟩ := hs.listed n j hn
        by_cases hkj : k = j
        · subst hkj
          obtain rfl : h = h' := Option.some.inj (hk.symm.trans hj)
          refine ⟨_, getElem?_set_of_some hk, ?_⟩
          rcases hstage with rfl | ⟨-, -, hno⟩
          · exact hd
          · exact absurd hn (hno n)
        · exact ⟨h', (List.getElem?_set_ne hkj).trans hj, hd⟩
      · obtain ⟨j, hj⟩ := List.getElem?_of_mem hh
        rcases getElem?_set_some hj with ⟨-, rfl⟩ | ⟨-, hj⟩
        · exact ⟨_, AList.lookup_insert s.dir⟩
        · exact hstored h' (List.mem_of_getElem? hj)
  | restart =>
      refine ⟨fun n k hn => (by cases hn), fun h hh => ?_⟩
      obtain ⟨h₀, hh₀, rfl⟩ := List.mem_map.mp hh
      exact hs.stored h₀ hh₀

/-! ### One file -/

/-- No object has the file open that `createQueue` is about to open. -/
def FileFree (s : Service) : ServiceAction → Prop
  | .request (.create _ req) =>
    ∀ f ∈ fileOf req.name, ∀ h ∈ s.objects, h.file = f → h.isOpen = false
  | _ => True

instance : Decidable (FileFree s a) := by
  unfold FileFree
  split <;> infer_instance

/-- A discipline of the steps of each object. -/
def Each (P : SQLiteQueue → Action → Prop) (s : Service) (key : Option Nat) (a : ServiceAction) :
    Prop :=
  ∀ p ∈ target key a, ∀ h ∈ s.objects[p.1]?, P (s.load h) p.2

instance {P : SQLiteQueue → Action → Prop} [∀ q b, Decidable (P q b)] :
    Decidable (Each P s key a) :=
  inferInstanceAs (Decidable (∀ _ ∈ _, ∀ _ ∈ _, _))

/-- The object that was opened on the file last; all others on it are closed. -/
def Holder (f : FileName) (objects : List QueueObject) : QueueLife → Prop
  | .closed _ => ∀ h ∈ objects, h.file = f → h.isOpen = false
  | .opened q => ∃ (k : Nat) (h : QueueObject), objects[k]? = some h ∧ h.file = f ∧
    h.queue.load q.mToken.db = q ∧
    ∀ (j : Nat) (h' : QueueObject), objects[j]? = some h' → h'.file = f → j ≠ k → h'.isOpen = false

/-- The server has the file at a moment of its life. -/
structure Shows (f : FileName) (s : Service) (x : QueueLife) : Prop where
  content : s.dir.Opens f x.content
  holder : Holder f s.objects x

/-- The file of another queue is written. -/
theorem opens_insert (hgf : g ≠ f) {e : Entry} :
    Directory.Opens (d.insert g e) f db ↔ d.Opens f db := by
  have hl : (d.insert g e).lookup f = d.lookup f := AList.lookup_insert_ne hgf.symm
  constructor
  · intro h
    cases h with
    | existing h => exact .existing (hl ▸ h)
    | new h => exact .new (hl ▸ h)
  · intro h
    cases h with
    | existing h => exact .existing (hl.trans h)
    | new h => exact .new (hl.trans h)

theorem opens_insert_self (d : Directory) :
    Directory.Opens (d.insert f (.file (some db))) f db :=
  .existing (AList.lookup_insert d)

/-- A new object on another file. -/
theorem Holder.concat_of_ne {objects : List QueueObject} (hx : Holder f objects x)
    (hf : h.file ≠ f) : Holder f (objects ++ [h]) x := by
  cases x with
  | closed db =>
      intro h' hh
      rcases List.mem_append.mp hh with hh | hh
      · exact hx h' hh
      · obtain rfl := List.mem_singleton.mp hh
        exact fun hf' => absurd hf' hf
  | opened q =>
      obtain ⟨k, h₀, hk, hfile, hq, hothers⟩ := hx
      refine ⟨k, h₀, List.getElem?_append_left (List.getElem?_eq_some_iff.mp hk).1 ▸ hk, hfile, hq,
        fun j h' hj hf' hjk => ?_⟩
      rcases getElem?_concat_some hj with ⟨-, rfl⟩ | ⟨-, hj⟩
      · exact absurd hf' hf
      · exact hothers j h' hj hf' hjk

/-- An object on another file makes a step. -/
theorem Holder.set_of_ne {objects : List QueueObject} (hx : Holder f objects x)
    (hk : objects[k]? = some h) (hf : h.file ≠ f) (hsame : h'.file = h.file) :
    Holder f (objects.set k h') x := by
  cases x with
  | closed db =>
      intro h₁ hh
      obtain ⟨j, hj⟩ := List.getElem?_of_mem hh
      rcases getElem?_set_some hj with ⟨-, rfl⟩ | ⟨-, hj⟩
      · exact fun hf' => absurd (hsame.symm.trans hf') hf
      · exact hx h₁ (List.mem_of_getElem? hj)
  | opened q =>
      obtain ⟨k₀, h₀, hk₀, hfile, hq, hothers⟩ := hx
      have hne : k ≠ k₀ := by
        rintro rfl
        obtain rfl : h = h₀ := Option.some.inj (hk.symm.trans hk₀)
        exact hf hfile
      refine ⟨k₀, h₀, (List.getElem?_set_ne hne).trans hk₀, hfile, hq, fun j h₁ hj hf' hjk => ?_⟩
      rcases getElem?_set_some hj with ⟨-, rfl⟩ | ⟨-, hj⟩
      · exact absurd (hsame.symm.trans hf') hf
      · exact hothers j h₁ hj hf' hjk

/-- The last object opened on the file, from a new object on. -/
theorem Holder.concat {objects : List QueueObject} (hf : h.file = f)
    (hclosed : ∀ h' ∈ objects, h'.file = f → h'.isOpen = false)
    (hq : h.queue.load q.mToken.db = q) : Holder f (objects ++ [h]) (.opened q) := by
  refine ⟨objects.length, h, List.getElem?_concat_length, hf, hq, fun j h' hj hf' hjk => ?_⟩
  rcases getElem?_concat_some hj with ⟨rfl, -⟩ | ⟨-, hj⟩
  · exact absurd rfl hjk
  · exact hclosed h' (List.mem_of_getElem? hj) hf'

/-- The last object opened on the file makes a step. -/
theorem Holder.set {objects : List QueueObject} (hk : objects[k]? = some h) (hf : h'.file = f)
    (hq : h'.queue.load q.mToken.db = q)
    (hothers : ∀ j h', objects[j]? = some h' → h'.file = f → j ≠ k → h'.isOpen = false) :
    Holder f (objects.set k h') (.opened q) := by
  refine ⟨k, h', getElem?_set_of_some hk, hf, hq, fun j h₁ hj hf' hjk => ?_⟩
  rcases getElem?_set_some hj with ⟨rfl, -⟩ | ⟨-, hj⟩
  · exact absurd rfl hjk
  · exact hothers j h₁ hj hf' hjk

/-- Only the content of the file changes. -/
theorem Holder.load {objects : List QueueObject} (hx : Holder f objects x) (db : QueueDB) :
    Holder f objects (x.load db) := by
  cases x with
  | closed db => exact hx
  | opened q =>
      obtain ⟨k, h, hk, hfile, hq, hothers⟩ := hx
      refine ⟨k, h, hk, hfile, ?_, hothers⟩
      show h.queue.load db = q.load db
      rw [← hq]
      rfl

theorem content_load (x : QueueLife) (db : QueueDB) : (x.load db).content = db := by
  cases x <;> rfl

/-- An open object on the file is the one that was opened last, and the machine of its queue is
that of the file. -/
theorem Shows.opened (hx : Shows f s x) (hk : s.objects[k]? = some h) (hf : h.file = f)
    (hopen : h.isOpen = true) (hsound : Sound s) : x = .opened (s.load h) ∧
      ∀ j h', s.objects[j]? = some h' → h'.file = f → j ≠ k → h'.isOpen = false := by
  obtain ⟨hcont, hhold⟩ := hx
  cases x with
  | closed db =>
      have hcl := hhold h (List.mem_of_getElem? hk) hf
      simp [hopen] at hcl
  | opened q =>
      obtain ⟨k₀, h₀, hk₀, -, hq, hothers⟩ := hhold
      obtain rfl : k = k₀ := by
        by_contra hne
        have hcl := hothers k h hk hf hne
        simp [hopen] at hcl
      obtain rfl : h = h₀ := Option.some.inj (hk.symm.trans hk₀)
      obtain ⟨db, hdb⟩ := hsound.stored h (List.mem_of_getElem? hk)
      rw [hf] at hdb
      have hsame : db = q.mToken.db := Directory.Opens.unique (.existing hdb) hcont
      refine ⟨?_, hothers⟩
      rw [Service.load, Directory.database, hf, hdb, ← hq, hsame]
      rfl

theorem each_init (P : SQLiteQueue → Action → Prop) (x : QueueLife) (env : Env) :
    QueueLife.Each P x (.init env) := by
  cases x <;> trivial

theorem each_exit (P : SQLiteQueue → Action → Prop) (x : QueueLife) :
    QueueLife.Each P x .exit := by
  cases x <;> trivial

/-- What a handler has found is not destroyed. -/
def Held (s : Service) (key : Option Nat) : Prop :=
  ∀ k ∈ key, ∃ h, s.objects[k]? = some h ∧ h.stage ≠ .destroyed

/-- An object that makes a step is open. -/
theorem Held.isOpen (hkey : Held s key) (hk : s.objects[k]? = some h) (hgone : h.stage ≠ .gone)
    (hopen : key = some k ∨ h.isOpen = true) : h.isOpen = true := by
  rcases hopen with rfl | hopen
  · obtain ⟨h', hk', hd⟩ := hkey k rfl
    obtain rfl : h = h' := Option.some.inj (hk.symm.trans hk')
    have halive : h.stage = .alive := by
      cases hs : h.stage with
      | alive => rfl
      | destroyed => exact absurd hs hd
      | gone => exact absurd hs hgone
    simp [QueueObject.isOpen, halive]
  · exact hopen

/-- **Step lemma.** What a step does to the file is some steps in its life. -/
theorem Shows.step {P : SQLiteQueue → Action → Prop} (hx : Shows f s x) (hsound : Sound s)
    (hkey : Held s key) (hfree : FileFree s a) (hP : Each P s key a) (hm : Moves s key a o u) :
    ∃ y, Shows f u y ∧ Run QueueLife.step (QueueLife.Each P) x (lifeEvents f (a, o)) y := by
  cases hm with
  | quiet _ ha =>
      rw [ha f]
      exact ⟨x, ⟨hx.content, hx.holder⟩, .nil⟩
  | restart =>
      refine ⟨.closed x.content, ⟨hx.content, fun h hh hf => ?_⟩,
        Run.single (each_exit P x) (by cases x <;> rfl)⟩
      obtain ⟨h₀, hh₀, rfl⟩ := List.mem_map.mp hh
      rfl
  | @called _ k b h o q stage ha hk hgone hopen hstage hq =>
      rw [lifeEvents_called]
      by_cases hf : h.file = f
      · rw [if_pos hf]
        obtain ⟨rfl, hothers⟩ := hx.opened hk hf (hkey.isOpen hk hgone hopen) hsound
        refine ⟨.opened q, ⟨?_, ?_⟩, Run.single (hP _ ha _ hk) ?_⟩
        · show Directory.Opens (s.dir.insert h.file (.file (some q.mToken.db))) f q.mToken.db
          rw [hf]
          exact opens_insert_self s.dir
        · exact Holder.set hk hf rfl hothers
        · simp [QueueLife.step, hq]
      · rw [if_neg hf]
        refine ⟨x, ⟨(opens_insert hf).mpr hx.content, hx.holder.set_of_ne hk hf rfl⟩, .nil⟩
  | @create env req st _ hc =>
      show ∃ y, Shows f u y ∧ Run QueueLife.step (QueueLife.Each P) x
        (if env.reaches req.name = some f then
          [(.init env.sqlite, .code (GRPCQueueList.code st))] else []) y
      generalize GRPCQueueList.code st = rc at hc ⊢
      cases hc with
      | @created g db hg hdb h0 =>
          by_cases hgf : g = f
          · subst hgf
            obtain rfl := hdb.unique hx.content
            rw [if_pos hg]
            refine ⟨.opened ⟨(connected env x.content).2, Task.blank, false, false, []⟩,
              ⟨opens_insert_self s.dir, ?_⟩, Run.single (each_init P x _) (if_pos h0)⟩
            exact Holder.concat rfl (hfree g (fileOf_of_reaches hg)) rfl
          · rw [if_neg fun hf => hgf (Option.some.inj (hg.symm.trans hf))]
            exact ⟨x, ⟨(opens_insert hgf).mpr hx.content, hx.holder.concat_of_ne hgf⟩, .nil⟩
      | @rejected g db hg hdb h1 =>
          by_cases hgf : g = f
          · subst hgf
            obtain rfl := hdb.unique hx.content
            rw [if_pos hg]
            refine ⟨x.load (connected env x.content).2.db, ⟨?_, hx.holder.load _⟩,
              Run.single (each_init P x _) (if_neg h1)⟩
            rw [content_load]
            exact opens_insert_self s.dir
          · rw [if_neg fun hf => hgf (Option.some.inj (hg.symm.trans hf))]
            exact ⟨x, ⟨(opens_insert hgf).mpr hx.content, hx.holder⟩, .nil⟩
      | refused hwhy =>
          rw [if_neg fun hf => hwhy f hf x.content hx.content]
          exact ⟨x, hx, .nil⟩

/-! ### Every interleaving -/

/-- What is held stays so, unless the step destroys it. -/
theorem Held.step {key' : Option Nat} (hkey : Held s key) (hm : Moves s key' a o u)
    (hno : ∀ k ∈ a.destroyed, key ≠ some k) : Held u key := by
  intro k hk
  obtain ⟨h, hobj, hd⟩ := hkey k hk
  have hlt := (List.getElem?_eq_some_iff.mp hobj).1
  cases hm with
  | @create env req st _ hc =>
      generalize GRPCQueueList.code _ = rc at hc
      cases hc with
      | created => exact ⟨h, List.getElem?_append_left hlt ▸ hobj, hd⟩
      | rejected | refused => exact ⟨h, hobj, hd⟩
  | quiet => exact ⟨h, hobj, hd⟩
  | @called _ j b h' o q stage ha hj hgone hopen hstage hq =>
      by_cases hjk : j = k
      · subst hjk
        obtain rfl : h' = h := Option.some.inj (hj.symm.trans hobj)
        refine ⟨_, getElem?_set_of_some hj, ?_⟩
        rcases hstage with rfl | ⟨-, hdes, -⟩
        · exact hd
        · exact absurd hk (hno j hdes)
      · exact ⟨h, (List.getElem?_set_ne hjk).trans hobj, hd⟩
  | restart =>
      refine ⟨{ h with stage := .gone }, ?_, by simp⟩
      rw [List.getElem?_map, hobj]
      rfl

/-- What always holds of the server and the calls in flight. -/
structure SoundSession (s : Session) : Prop where
  server : Sound s.server
  requests : ∀ c ∈ s.calls, c.action.isRequest = true
  held : ∀ c ∈ s.calls, ∀ key ∈ c.key, Held s.server key

theorem held_find (hs : Sound s) (a : ServiceAction) : Held s (s.find a) := by
  have hname : ∀ n, Held s (s.getQueue n) := by
    intro n k hk
    obtain ⟨h, hobj, hd⟩ := hs.listed n k hk
    exact ⟨h, hobj, by simp [hd]⟩
  have hnone : Held s none := fun k hk => by cases hk
  cases a with
  | destroy | worker | restart => exact hnone
  | request r =>
      cases r with
      | call name | isRunning name => exact hname name
      | create | rename | delete | list | getQueue => exact hnone

variable {S T : Session} {m : SessionMove} {e : Linearizable.Event ServiceAction ServiceOutput}

/-- A call goes on; the server stays. -/
theorem SoundSession.set {i : Nat}
    {c c' : Linearizable.Call ServiceAction (Option Nat) ServiceOutput}
    (h : SoundSession S) (hc : S.calls[i]? = some c) (ha : c'.action = c.action)
    (hkey : ∀ key ∈ c'.key, Held S.server key) :
    SoundSession { S with calls := S.calls.set i c' } where
  server := h.server
  requests := by
    intro c₁ hc₁
    rcases List.mem_or_eq_of_mem_set hc₁ with hc₁ | rfl
    · exact h.requests c₁ hc₁
    · exact ha ▸ h.requests c (List.mem_of_getElem? hc)
  held := by
    intro c₁ hc₁
    rcases List.mem_or_eq_of_mem_set hc₁ with hc₁ | rfl
    · exact h.held c₁ hc₁
    · exact hkey

/-- The server makes a step that destroys nothing a handler has a pointer on. -/
theorem SoundSession.moves (h : SoundSession S) (hm : Moves S.server key a o u)
    (hno : ∀ k ∈ a.destroyed, ∀ c ∈ S.calls, c.key ≠ some (some k)) :
    SoundSession { S with server := u } where
  server := h.server.step hm
  requests := h.requests
  held := fun c hc key hkey => (h.held c hc key hkey).step hm fun k hk he =>
    hno k hk c hc (he ▸ hkey)

/-- **Step lemma.** -/
theorem SoundSession.step (h : SoundSession S) (hp : Pointers S m)
    (hs : Linearizable.Step Service.server S m e T) : SoundSession T := by
  cases hs with
  | @send a =>
      refine ⟨h.server, fun c hc => ?_, fun c hc => ?_⟩
      · rcases List.mem_append.mp hc with hc | hc
        · exact h.requests c hc
        · exact List.mem_singleton.mp hc ▸ hp
      · rcases List.mem_append.mp hc with hc | hc
        · exact h.held c hc
        · obtain rfl := List.mem_singleton.mp hc
          exact fun key hkey => by cases hkey
  | @find i a hc =>
      refine h.set hc rfl fun key hkey => ?_
      obtain rfl : S.server.find a = key := Option.some.inj hkey
      exact held_find h.server a
  | @act i a k o x hc ha =>
      have hreq := h.requests _ (List.mem_of_getElem? hc)
      have hno : a.destroyed = none := by
        cases a with
        | request => rfl
        | destroy | worker | restart => cases hreq
      have hmoved : SoundSession { S with server := x } :=
        h.moves (.of_act ha) fun k hk => by rw [hno] at hk; cases hk
      exact hmoved.set hc rfl fun key hkey => by cases hkey
  | answer hc => exact h.set hc rfl fun key hkey => by cases hkey
  | own ha => exact h.moves (.of_act ha) hp.2

variable {es es' : List SessionEvent} {ok : Session → SessionMove → Prop}

/-- **Run lemma.** -/
theorem run_sound (hrun : Run session ok ⟨new d, []⟩ es S) (hok : ∀ S m, ok S m → Pointers S m) :
    SoundSession S :=
  hrun.invariant ⟨sound_new d, by simp, by simp⟩ fun S m _ _ h hm hs =>
    h.step (hok S m hm) (.of_step hs)

theorem SoundSession.acting (h : SoundSession S)
    (hact : Linearizable.acting Service.server S m = some (a, key)) : Held S.server key := by
  cases m with
  | act i =>
      simp only [Linearizable.acting] at hact
      split at hact
      · next hc =>
        obtain ⟨rfl, rfl⟩ := Prod.mk.inj (Option.some.inj hact)
        exact h.held _ (List.mem_of_getElem? hc) _ rfl
      · cases hact
  | own b =>
      obtain ⟨rfl, rfl⟩ := Prod.mk.inj (Option.some.inj hact)
      exact held_find h.server b
  | send | find | answer => cases hact

/-- What a move does to the file. -/
def moveEvents (f : FileName) : SessionEvent → List QueueLifeEvent
  | (_, .acted _ a o) => lifeEvents f (a, o)
  | _ => []

/-- The steps of the server on one file. -/
def lifeOf (f : FileName) (es : List SessionEvent) : List QueueLifeEvent :=
  es.flatMap (moveEvents f)

theorem lifeOf_append : lifeOf f (es ++ es') = lifeOf f es ++ lifeOf f es' := List.flatMap_append

/-- The runs in which no file is opened a second time, and each object obeys a discipline. -/
def Orderly (P : SQLiteQueue → Action → Prop) (S : Session) (m : SessionMove) : Prop :=
  Pointers S m ∧
    Linearizable.OnAct server (fun s key a => FileFree s a ∧ Each P s key a) S m

instance {P : SQLiteQueue → Action → Prop} [∀ q b, Decidable (P q b)] :
    Decidable (Orderly P S m) :=
  inferInstanceAs (Decidable (_ ∧ _))

theorem orderly_any {P : SQLiteQueue → Action → Prop} (S : Session) (m : SessionMove)
    (h : Orderly P S m) : Orderly anyAction S m :=
  ⟨h.1, fun p hp => ⟨(h.2 p hp).1, fun _ _ _ _ => trivial⟩⟩

/-- **Run lemma.** In every interleaving the steps of the server on one file are a run of its
own. -/
theorem run_life {P : SQLiteQueue → Action → Prop} (hf : d.Opens f db)
    (hrun : Run session (Orderly P) ⟨new d, []⟩ es S) :
    ∃ x, Shows f S.server x ∧
      Run QueueLife.step (QueueLife.Each P) (.closed db) (lifeOf f es) x := by
  have h₀ : Shows f (new d) (.closed db) := ⟨hf, fun h hh => by cases hh⟩
  refine hrun.simulate (fun S x => Shows f S.server x) (moveEvents f) h₀
    fun es S m e T x hpre hx hok hs => ?_
  have hsound := run_sound hpre fun _ _ hok => hok.1
  rcases (Linearizable.Step.of_step hs).server with ⟨i, a, o, key, rfl, hact, ha⟩ | ⟨hno, hsame⟩
  · obtain ⟨hfree, hP⟩ := hok.2 _ hact
    exact hx.step hsound.server (hsound.acting hact) hfree hP (.of_act ha)
  · have hnil : moveEvents f (m, e) = [] := by
      cases e with
      | acted i a o => exact absurd rfl (hno i a o)
      | sent | found | answered => rfl
    rw [hnil, hsame]
    exact ⟨x, hx, .nil⟩

end Service

end SimpleTaskQueue
