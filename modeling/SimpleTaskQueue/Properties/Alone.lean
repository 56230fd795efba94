import SimpleTaskQueue.Properties.Installation
import SimpleTaskQueue.Refinement.Ghost
/-!
# SimpleTaskQueue.Properties.Alone

**On a server a queue is as it is alone.** What the queue object that created a file is called for,
and what it answers, is a run of the machine of a single queue from `SQLiteQueue.fresh`, whatever
the handlers, the other queues and the list do meanwhile; and every run of a single queue can be had
on a server. So what holds of all runs of a queue holds of the queues of a server.
-/

namespace SimpleTaskQueue

open Sqlite Runs SQLiteQueue

variable {P : SQLiteQueue → Action → Prop} {x y : QueueLife} {l : List QueueLifeEvent}
  {q u : SQLiteQueue} {env : Env} {o : Output}

/-- The discipline does not look at what the connection remembers. -/
def AboutMembers (P : SQLiteQueue → Action → Prop) : Prop :=
  ∀ ⦃q q' a⦄, SameQueue q q' → P q a → P q' a

/-! ### New files -/

theorem partlyCreated_ledgerDB : PartlyCreated (ledgerDB emptyLedger) :=
  ⟨.inr rfl, .inr rfl, .inr (.inr rfl)⟩

/-- A new object on a file that was not called yet. -/
theorem sameQueue_connected {db : QueueDB} (hdb : PartlyCreated db)
    (h0 : (connectToDB true ((Conn.open db).given env)).1 = 0) :
    SameQueue ⟨(connectToDB true ((Conn.open db).given env)).2, Task.blank, false, false, []⟩
      fresh := by
  have hkeep := (keeps_partly_connectToDB true ((Conn.open db).given env) hdb).1
  exact sameQueue_fresh (hkeep.eq_ledgerDB (connectToDB_spec _ h0).1)
    (clean_connectToDB true ((Conn.open db).given env) rfl).1

namespace QueueLife

/-- From the first call on, the file is not opened again, and the process does not end. -/
def OneObject (l : List QueueLifeEvent) : Prop :=
  ∃ l₁ l₂, l = l₁ ++ l₂ ∧ calls l₁ = [] ∧ ∀ e ∈ l₂, ∃ a, e.1 = .call a

/-- Calls alone are a run of the object. -/
theorem run_calls (h : Run QueueLife.step (Each P) y l x)
    (hl : ∀ e ∈ l, ∃ a, e.1 = .call a) :
    l = [] ∧ x = y ∨
      ∃ q u, y = .opened q ∧ x = .opened u ∧ Run SQLiteQueue.step P q (calls l) u := by
  induction h with
  | nil => exact .inl ⟨rfl, rfl⟩
  | @snoc l x z a o _ hok hs ih =>
      obtain ⟨b, rfl⟩ : ∃ b, a = .call b := hl (a, o) (by simp)
      cases x with
      | closed db => cases hs
      | opened u =>
          simp only [QueueLife.step, Option.map_eq_some_iff, Prod.mk.injEq] at hs
          obtain ⟨⟨p, v⟩, hv, rfl, rfl⟩ := hs
          refine .inr ?_
          rw [calls_snoc_call]
          rcases ih fun e he => hl e (List.mem_append_left _ he) with
            ⟨rfl, rfl⟩ | ⟨q, u', rfl, hu', hrun⟩
          · exact ⟨u, v, rfl, rfl, Run.nil.snoc hok hv⟩
          · obtain rfl := QueueLife.opened.inj hu'
            exact ⟨q, v, rfl, rfl, hrun.snoc hok hv⟩

/-- Nothing was called yet. -/
def Untouched : QueueLife → Prop
  | closed db => PartlyCreated db
  | opened q => SameQueue q fresh

theorem Untouched.partlyCreated (h : x.Untouched) : PartlyCreated x.content := by
  cases x with
  | closed db => exact h
  | opened q =>
      have hdb : q.mToken.db = ledgerDB emptyLedger := h.db.trans fresh_refines.db
      show PartlyCreated q.mToken.db
      rw [hdb]
      exact partlyCreated_ledgerDB

theorem Untouched.init (h : x.Untouched) (hs : x.step (.init env) = some (o, y)) :
    y.Untouched := by
  rcases QueueLife.step_init hs with ⟨hopen, -, rfl⟩ | ⟨-, -, rfl⟩
  · exact sameQueue_connected h.partlyCreated hopen
  · cases x with
    | closed db => exact (keeps_partly_connectToDB true ((Conn.open db).given env) h).1
    | opened q =>
        -- there is a ledger in the file, which the opening keeps
        have hdb : q.mToken.db = ledgerDB emptyLedger := h.db.trans fresh_refines.db
        have hsame : (connectToDB true ((Conn.open q.mToken.db).given env)).2.db = q.mToken.db := by
          rw [hdb]
          exact connectToDB_ledger _ _
        show SameQueue (q.load (connectToDB true ((Conn.open q.mToken.db).given env)).2.db) fresh
        rw [hsame]
        exact h

theorem Untouched.exit (h : x.Untouched) (hs : x.step .exit = some (o, y)) : y.Untouched := by
  have hs' : some (Output.silent, QueueLife.closed x.content) = some (o, y) := by
    cases x <;> exact hs
  obtain ⟨-, rfl⟩ := Prod.mk.inj (Option.some.inj hs')
  exact h.partlyCreated

/-- **Run lemma.** Without a call the file stays as it was created. -/
theorem run_untouched (h : Run QueueLife.step (Each P) (.closed emptyDB) l x)
    (hl : calls l = []) : x.Untouched := by
  induction h with
  | nil => exact partlyCreated_emptyDB
  | @snoc l y x a o _ _ hs ih =>
      cases a with
      | init => exact (ih (calls_snoc_init.symm.trans hl)).init hs
      | exit => exact (ih (calls_snoc_exit.symm.trans hl)).exit hs
      | call a =>
          rw [calls_snoc_call] at hl
          exact absurd hl (by simp)

/-- The calls of the first object. -/
theorem run_oneObject (hP : AboutMembers P)
    (h : Run QueueLife.step (Each P) (.closed emptyDB) l x) (hl : OneObject l) :
    ∃ u, Run SQLiteQueue.step P fresh (calls l) u := by
  obtain ⟨l₁, l₂, rfl, hnone, hcalls⟩ := hl
  obtain ⟨y, h₁, h₂⟩ := h.split
  rw [calls_append, hnone, List.nil_append]
  rcases run_calls h₂ hcalls with ⟨rfl, -⟩ | ⟨q, u, rfl, -, hu⟩
  · exact ⟨fresh, .nil⟩
  · have hq : SameQueue q fresh := run_untouched h₁ hnone
    obtain ⟨v, hv, -⟩ := hq.run hu fun _ _ _ hsame hok => hP hsame hok
    exact ⟨v, hv⟩

end QueueLife

namespace Service

variable {d : Directory} {s : Service} {S : Session} {f : FileName} {name : Str} {a : Action}
  {es : List Event}

/-! ### A queue of its own on a server -/

/-- The server has one queue, which behaves like `q`. -/
structure Serves (s : Service) (name : Str) (f : FileName) (q : SQLiteQueue) : Prop where
  found : s.getQueue name = some 0
  object : ∃ u, s.objects = [⟨⟨f, u⟩, .alive⟩] ∧
    s.dir.lookup f = some (.file (some u.mToken.db)) ∧ SameQueue q u

/-- A step of the queue is one of the object. -/
theorem Serves.onObject (hP : AboutMembers P) (h : s.Serves name f q) (hok : P q a)
    (hs : q.step a = some (o, u)) :
    (∀ g ∈ s.objects[0]?, P (s.load g) a) ∧
      ∃ s', s.onObject 0 a = some (.called 0 f (a, o), s') ∧ s'.Serves name f u := by
  obtain ⟨v, hobj, hdb, hsame⟩ := h.object
  have hload : s.load ⟨⟨f, v⟩, .alive⟩ = v := by
    simp only [load, Directory.database, hdb, Option.getD_some]
    rfl
  obtain ⟨v', hv', hsame'⟩ := hsame.step hs
  have hget : s.objects[0]? = some ⟨⟨f, v⟩, .alive⟩ := by rw [hobj]; rfl
  refine ⟨fun g hg => ?_, s.store 0 ⟨⟨f, v⟩, .alive⟩ v', ?_, h.found, v', ?_, ?_, hsame'⟩
  · obtain rfl := Option.some.inj (hget.symm.trans hg)
    rw [hload]
    exact hP hsame hok
  · simp only [Service.onObject, hget, hload, hv', reduceCtorEq, if_false, Option.map_some]
  · simp only [store, hobj, List.set_cons_zero]
  · exact AList.lookup_insert _

theorem lifeOf_called {m : SessionMove} {j : Option Nat} {b : ServiceAction} {k : Nat} :
    lifeOf f [(m, .acted j b (.called k f (a, o)))] = [(.call a, o)] := by
  show lifeEvents f (b, .called k f (a, o)) ++ [] = _
  rw [List.append_nil, lifeEvents_called, if_pos rfl]

/-- A step of a thread. -/
theorem Serves.worker {i : Nat} {w : Work} (hP : AboutMembers P) (h : S.server.Serves name f q)
    (hok : P q (.worker i w)) (hs : q.step (.worker i w) = some (o, u)) :
    ∃ es S', Run session (Orderly P) S es S' ∧
      lifeOf f es = [(.call (.worker i w), o)] ∧ S'.server.Serves name f u := by
  obtain ⟨hobj, s', hact, hserves⟩ := h.onObject hP hok hs
  have hstep : session S (.own (.worker 0 i w)) =
      some (.acted none (.worker 0 i w) (.called 0 f (.worker i w, o)), ⟨s', S.calls⟩) := by
    show (S.server.onObject 0 (.worker i w)).map _ = _
    rw [hact]
    rfl
  have hpointers : Pointers S (.own (.worker 0 i w)) := ⟨rfl, fun k hk => by cases hk⟩
  refine ⟨_, _, Run.single ⟨hpointers, fun p hp => ?_⟩ hstep, lifeOf_called, hserves⟩
  obtain rfl := Option.some.inj hp
  refine ⟨trivial, fun p hp => ?_⟩
  obtain rfl := Option.some.inj hp
  exact hobj

/-- The steps that a step of the queue takes on the server: those of a handler, or one of a
thread. -/
theorem Serves.moves (hP : AboutMembers P) (h : S.server.Serves name f q) (hok : P q a)
    (hs : q.step a = some (o, u)) :
    ∃ es S', Run session (Orderly P) S es S' ∧ lifeOf f es = [(.call a, o)] ∧
      S'.server.Serves name f u := by
  by_cases hcall : a.isCall = true
  swap
  · obtain ⟨i, w, rfl⟩ : ∃ i w, a = .worker i w := by
      cases a <;> first | exact ⟨_, _, rfl⟩ | exact absurd rfl hcall
    exact h.worker hP hok hs
  obtain ⟨hobj, s', hact, hserves⟩ := h.onObject hP hok hs
  let r : ServiceAction := .request (.call name a)
  let n := S.calls.length
  let S₁ : Session := ⟨S.server, S.calls ++ [.sent r]⟩
  let S₂ : Session := ⟨S.server, S₁.calls.set n (.found r (some 0))⟩
  let S₃ : Session := ⟨s', S₂.calls.set n (.done r (.called 0 f (a, o)))⟩
  have hsent : S₁.calls[n]? = some (.sent r) := List.getElem?_concat_length
  have hfound : S₂.calls[n]? = some (.found r (some 0)) := by
    refine List.getElem?_set_self ?_
    simp [S₁, n]
  have hdo : server.act S.server (some 0) r = some (.called 0 f (a, o), s') := by
    show (if !a.isCall then none else _) = _
    rw [if_neg (by simp [hcall])]
    exact hact
  have hsend : session S (.send r) = some (.sent n, S₁) := rfl
  have hfind : session S₁ (.find n) = some (.found n, S₂) := by
    simp only [session, Linearizable.step, hsent]
    rw [show server.find S₁.server r = some 0 from h.found]
  have hstep : session S₂ (.act n) = some (.acted (some n) r (.called 0 f (a, o)), S₃) := by
    simp only [session, Linearizable.step, hfound]
    rw [show server.act S₂.server (some 0) r = _ from hdo]
    rfl
  refine ⟨_, S₃, ((Run.nil.snoc ?_ hsend).snoc ?_ hfind).snoc ?_ hstep, ?_, hserves⟩
  · exact ⟨rfl, fun p hp => by cases hp⟩
  · exact ⟨trivial, fun p hp => by cases hp⟩
  · refine ⟨trivial, fun p hp => ?_⟩
    simp only [Linearizable.acting, hfound] at hp
    obtain rfl := Option.some.inj hp
    refine ⟨trivial, fun p hp => ?_⟩
    obtain rfl := Option.some.inj hp
    exact hobj
  · rw [lifeOf_append, lifeOf_called]
    rfl

/-- **Run lemma.** -/
theorem Serves.run (hP : AboutMembers P) (h : S.server.Serves name f fresh)
    (hrun : Run SQLiteQueue.step P fresh es q) :
    ∃ es' S', Run session (Orderly P) S es' S' ∧
      lifeOf f es' = es.map fun e => (.call e.1, e.2) := by
  suffices hall : ∃ es' S', Run session (Orderly P) S es' S' ∧
      lifeOf f es' = (es.map fun e => (.call e.1, e.2)) ∧ S'.server.Serves name f q by
    obtain ⟨es', S', hrun', hlife, -⟩ := hall
    exact ⟨es', S', hrun', hlife⟩
  induction hrun with
  | nil => exact ⟨[], S, .nil, rfl, h⟩
  | @snoc es q u a o _ hok hs ih =>
      obtain ⟨es', S', hrun', hlife, hq⟩ := ih
      obtain ⟨es'', S'', hrun'', hlife', hu⟩ := hq.moves hP hok hs
      refine ⟨es' ++ es'', S'', hrun'.append hrun'', ?_, hu⟩
      rw [lifeOf_append, hlife, hlife', List.map_append]
      rfl

/-- `createQueue` for a new file. -/
theorem createQueue_serves (hname : name ≠ []) (hf : fileOf name = some f)
    (hnew : d.lookup f = none) :
    ∃ s', (new d).createQueue .ok name = (.OK, s') ∧ s'.Serves name f fresh := by
  have hreaches : CreateEnv.ok.reaches name = some f := by
    simp [CreateEnv.reaches, CreateEnv.ok, hname, hf]
  have h0 : (connected .ok emptyDB).1 = 0 := by decide +kernel
  have hsame : SameQueue ⟨(connected .ok emptyDB).2, Task.blank, false, false, []⟩ fresh :=
    sameQueue_connected partlyCreated_emptyDB h0
  have hc := createQueue_spec (new d) .ok name
  generalize (new d).createQueue .ok name = p at hc
  obtain ⟨rc, s'⟩ := p
  cases hc with
  | @created g db hg hopens _ =>
      obtain rfl := Option.some.inj (hreaches.symm.trans hg)
      obtain rfl := hopens.unique (.new hnew)
      generalize connected .ok emptyDB = r at hsame ⊢
      exact ⟨_, rfl, AList.lookup_insert _, _, rfl, AList.lookup_insert _, hsame.symm⟩
  | @rejected g db hg hopens h1 =>
      obtain rfl := Option.some.inj (hreaches.symm.trans hg)
      obtain rfl := hopens.unique (.new hnew)
      exact absurd h0 h1
  | refused hwhy => exact absurd (.new hnew) (hwhy f hreaches emptyDB)

/-- The first queue of a server. -/
theorem exists_serves (hname : name ≠ []) (hslash : '/' ∉ name) (hf : fileOf name = some f)
    (hnew : d.lookup f = none) :
    ∃ es S, Run session (Orderly P) ⟨new d, []⟩ es S ∧
      (∃ env o, lifeOf f es = [(.init env, o)]) ∧ S.server.Serves name f fresh := by
  obtain ⟨s', hs', hserves⟩ := createQueue_serves hname hf hnew
  let r : ServiceAction := .request (.create .ok ⟨name⟩)
  have hact : server.act (new d) none r = some (.status Status.OK, s') := by
    have hempty : name.isEmpty = false := by
      rw [Bool.eq_false_iff, ne_eq, List.isEmpty_iff]
      exact hname
    show (if '/' ∈ name then none else _) = _
    rw [if_neg hslash]
    simp only [QueueListImpl.create, QueueListImpl.handle, hempty, queueList, hs']
    rfl
  let S₁ : Session := ⟨new d, [.sent r]⟩
  let S₂ : Session := ⟨new d, [.found r none]⟩
  let S₃ : Session := ⟨s', [.done r (.status Status.OK)]⟩
  have hsend : session ⟨new d, []⟩ (.send r) = some (.sent 0, S₁) := rfl
  have hfind : session S₁ (.find 0) = some (.found 0, S₂) := rfl
  have hstep : session S₂ (.act 0) = some (.acted (some 0) r (.status Status.OK), S₃) := by
    show (server.act (new d) none r).map _ = _
    rw [hact]
    rfl
  refine ⟨_, S₃, ((Run.nil.snoc ?_ hsend).snoc ?_ hfind).snoc ?_ hstep, ?_, hserves⟩
  · exact ⟨rfl, fun p hp => by cases hp⟩
  · exact ⟨trivial, fun p hp => by cases hp⟩
  · refine ⟨trivial, fun p hp => ?_⟩
    obtain rfl := Option.some.inj hp
    exact ⟨fun g _ h hh => (List.not_mem_nil hh).elim, fun p hp => by cases hp⟩
  · have hreaches : CreateEnv.ok.reaches name = some f := by
      simp [CreateEnv.reaches, CreateEnv.ok, hname, hf]
    rw [lifeOf_append]
    refine ⟨Env.rowid, .code (GRPCQueueList.code Status.OK), ?_⟩
    show (if CreateEnv.ok.reaches name = some f then _ else _) ++ [] = _
    rw [if_pos hreaches]
    rfl

/-- **On a server a queue is as it is alone.** The histories of the calls on a new file, for as long
as one object has it open, and whatever else happens on the server, are the histories of a queue. -/
theorem history_iff_alone (hP : AboutMembers P) (hname : name ≠ []) (hslash : '/' ∉ name)
    (hf : fileOf name = some f) (hnew : d.lookup f = none) :
    (∃ es' S, Run session (Orderly P) ⟨new d, []⟩ es' S ∧ QueueLife.OneObject (lifeOf f es') ∧
      callsOn f es' = es) ↔
      ∃ q, Run SQLiteQueue.step P fresh es q := by
  constructor
  · rintro ⟨es', S, hrun, hone, rfl⟩
    obtain ⟨x, -, hlife⟩ := run_life (.new hnew) hrun
    exact QueueLife.run_oneObject hP hlife hone
  · rintro ⟨q, hrun⟩
    obtain ⟨es₁, S₁, h₁, ⟨env, o, hinit⟩, hserves⟩ := exists_serves hname hslash hf hnew
    obtain ⟨es', S, hrun', hlife⟩ := hserves.run hP hrun
    have hcalls : QueueLife.calls (es.map fun e => (QueueLifeAction.call e.1, e.2)) = es := by
      rw [QueueLife.calls, List.filterMap_map]
      exact List.filterMap_some
    refine ⟨es₁ ++ es', S, h₁.append hrun', ⟨[(.init env, o)],
      es.map fun e => (.call e.1, e.2), ?_, rfl, ?_⟩, ?_⟩
    · rw [lifeOf_append, hinit, hlife]
    · intro e he
      obtain ⟨e', -, rfl⟩ := List.mem_map.mp he
      exact ⟨e'.1, rfl⟩
    · rw [callsOn, lifeOf_append, hinit, hlife, QueueLife.calls_append, hcalls]
      rfl

/-- A task is added and taken up. -/
def takenUp : List Action :=
  [.addTask Env.rowid listing, .start, .worker 0 .go, .worker 0 (.init Env.rowid)]

theorem oneWorker_aboutMembers : AboutMembers OneWorker := fun _ _ _ h hok => h.oneWorker hok

theorem takenUp_runs : (script SQLiteQueue.step OneWorker fresh takenUp).isSome := by
  decide +kernel

/-- So it can be on a server. -/
theorem history_iff_alone_takenUp :
    ∃ es S, Run session (Orderly OneWorker) ⟨new ∅, []⟩ es S ∧
      QueueLife.OneObject (lifeOf fileA es) ∧
      callsOn fileA es = ((script SQLiteQueue.step OneWorker fresh takenUp).get takenUp_runs).1 :=
  (history_iff_alone oneWorker_aboutMembers (by decide) (by decide)
    (show fileOf "a".toList = some fileA from rfl) rfl).mpr ⟨_, Run.of_script takenUp_runs⟩

end Service

end SimpleTaskQueue
