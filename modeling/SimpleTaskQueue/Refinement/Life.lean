import SimpleTaskQueue.Model.Dao.SQLiteQueue.Life
import SimpleTaskQueue.Refinement.File
import SimpleTaskQueue.Refinement.Handles
import SimpleTaskQueue.Refinement.Provenance
/-!
# SimpleTaskQueue.Refinement.Life

The abstract queue over the **whole life of its file**. The ledger is the content of the file, so it
outlives the queue objects; the task in flight is a member of one of them, and goes with it.

`LifeTracked` is a life of a file together with the ledgers it goes through, from the moment the
file was created. A life in which nothing was created is one in which nothing was called
(`life_tracked`). Provenance and validity of the ledger are carried over from one object to the
next.
-/

namespace SimpleTaskQueue

open Sqlite Sqlite.Conn Runs SQLiteQueue

/-- A step in the life of a file. -/
abbrev QueueLifeEvent := QueueLifeAction × Output

namespace QueueLife

/-- A discipline of the calls, for each of the objects. -/
def Each (P : SQLiteQueue → Action → Prop) : QueueLife → QueueLifeAction → Prop
  | opened q, .call a => P q a
  | _, _ => True

variable {s u : QueueLife} {es es' : List QueueLifeEvent} {a : QueueLifeAction} {o : Output}

@[simp] theorem calls_append : calls (es ++ es') = calls es ++ calls es' := List.filterMap_append

@[simp] theorem calls_snoc_call {b : Action} :
    calls (es ++ [(.call b, o)]) = calls es ++ [(b, o)] := calls_append

@[simp] theorem calls_snoc_init {env : Env} : calls (es ++ [(.init env, o)]) = calls es := by
  rw [calls_append]
  exact List.append_nil _

@[simp] theorem calls_snoc_exit : calls (es ++ [(.exit, o)]) = calls es := by
  rw [calls_append]
  exact List.append_nil _

/-- What the opening of the file for a new object does. -/
theorem step_init {env : Env} (hs : s.step (.init env) = some (o, u)) :
    let r := connectToDB true ((Conn.open s.content).given env)
    r.1 = 0 ∧ o = .code .OK ∧ u = opened ⟨r.2, Task.blank, false, false, []⟩ ∨
      r.1 ≠ 0 ∧ o = .code .OS_ERROR ∧ u = s.load r.2.db := by
  intro r
  change (if r.1 = 0 then _ else _) = _ at hs
  by_cases hr : r.1 = 0
  · rw [if_pos hr] at hs
    obtain ⟨rfl, rfl⟩ := Prod.mk.inj (Option.some.inj hs)
    exact .inl ⟨hr, rfl, rfl⟩
  · rw [if_neg hr] at hs
    obtain ⟨rfl, rfl⟩ := Prod.mk.inj (Option.some.inj hs)
    exact .inr ⟨hr, rfl, rfl⟩

end QueueLife

/-- The file stands for a ledger and a task in flight. -/
def LifeRefines : QueueLife → QueueLedger → Option Task → Prop
  | .closed db, L, fl => db = ledgerDB L ∧ fl = none
  | .opened q, L, fl => Refines q L fl

theorem LifeRefines.content {s : QueueLife} {L : QueueLedger} {fl : Option Task}
    (h : LifeRefines s L fl) : s.content = ledgerDB L := by
  cases s with
  | closed db => exact h.1
  | opened q => exact h.db

/-- The life of a file since it was created, with the abstract states it passes through. -/
inductive LifeTracked : List QueueLifeEvent → QueueLife → QueueLedger → Option Task → Prop
  | created {es : List QueueLifeEvent} {q : SQLiteQueue}
      (h : Run QueueLife.step (QueueLife.Each OneWorker) (.closed emptyDB) es (.opened q))
      (hes : QueueLife.calls es = []) (href : Refines q emptyLedger none) :
      LifeTracked es (.opened q) emptyLedger none
  /-- A new object opens the file. -/
  | init {es : List QueueLifeEvent} {s u : QueueLife} {L : QueueLedger} {fl fl' : Option Task}
      {env : Env} {o : Output} (h : LifeTracked es s L fl) (hs : s.step (.init env) = some (o, u))
      (hfl : fl' = fl ∨ fl' = none) (href : LifeRefines u L fl') :
      LifeTracked (es ++ [(.init env, o)]) u L fl'
  | exit {es : List QueueLifeEvent} {s : QueueLife} {L : QueueLedger} {fl : Option Task}
      (h : LifeTracked es s L fl) :
      LifeTracked (es ++ [(.exit, .silent)]) (.closed s.content) L none
  | call {es : List QueueLifeEvent} {q u : SQLiteQueue} {L L' : QueueLedger} {fl fl' : Option Task}
      {a : Action} {o : Output} (h : LifeTracked es (.opened q) L fl) (hok : OneWorker q a)
      (hs : q.step a = some (o, u)) (heff : Effect L fl a o L' fl') (href : Refines u L' fl') :
      LifeTracked (es ++ [(.call a, o)]) (.opened u) L' fl'

variable {s u : QueueLife} {es : List QueueLifeEvent} {L : QueueLedger} {fl : Option Task}

theorem LifeTracked.refines (h : LifeTracked es s L fl) : LifeRefines s L fl := by
  induction h with
  | created _ _ href | init _ _ _ href | call _ _ _ _ href => exact href
  | exit _ ih => exact ⟨ih.content, rfl⟩

theorem LifeTracked.run (h : LifeTracked es s L fl) :
    Run QueueLife.step (QueueLife.Each OneWorker) (.closed emptyDB) es s := by
  induction h with
  | created h => exact h
  | @init _ s _ _ _ _ _ _ _ hs _ _ ih =>
      refine .snoc ih ?_ hs
      cases s <;> trivial
  | @exit _ s _ _ _ ih =>
      refine .snoc ih ?_ ?_ <;> cases s <;> trivial
  | call _ hok hs _ _ ih => exact .snoc ih hok (congrArg (Option.map _) hs)

/-- The counter always is a 32-bit `int`. -/
theorem LifeTracked.isInt32_next (h : LifeTracked es s L fl) : IsInt32 L.next := by
  induction h with
  | created => exact (by decide : IsInt32 0)
  | init _ _ _ _ ih => exact ih
  | exit _ ih => exact ih
  | call _ _ _ heff _ ih =>
      rcases heff.next with hn | ⟨-, hn⟩
      · exact hn ▸ ih
      · exact hn ▸ toInt32_isInt32 _

/-- As long as fewer than `2^31 - 1` IDs were handed out the counter did not wrap around. -/
theorem LifeTracked.next_bounds (h : LifeTracked es s L fl)
    (hadds : adds (QueueLife.calls es) < 2 ^ 31 - 1) :
    0 ≤ L.next ∧ L.next ≤ adds (QueueLife.calls es) := by
  induction h with
  | created _ hes =>
      rw [hes]
      exact ⟨le_refl _, le_refl _⟩
  | init _ _ _ _ ih =>
      rw [QueueLife.calls_snoc_init] at hadds ⊢
      exact ih hadds
  | exit _ ih =>
      rw [QueueLife.calls_snoc_exit] at hadds ⊢
      exact ih hadds
  | call _ _ _ heff _ ih =>
      rw [QueueLife.calls_snoc_call, adds_append] at hadds ⊢
      obtain ⟨h₀, h₁⟩ := ih (by omega)
      rcases heff.next with hn | ⟨ha, hn⟩
      · rw [hn]
        omega
      · rw [hn, nextID_of_lt h₀ (by omega), ha]
        omega

/-- The task in flight is lost to the abstract queue, its row is not. -/
theorem Provenance.land {es : List Event} {fl' : Option Task} (h : Provenance es L fl)
    (hfl : fl' = fl ∨ fl' = none) : Provenance es L fl' where
  below := h.below
  unique := h.unique
  pending := h.pending
  done := h.done
  flight := by
    rcases hfl with rfl | rfl
    · exact h.flight
    · simp

theorem ValidFlight.land {fl' : Option Task} (h : ValidFlight L fl) (hfl : fl' = fl ∨ fl' = none) :
    ValidFlight L fl' where
  valid := h.valid
  unfinished := by
    rcases hfl with rfl | rfl
    · exact h.unfinished
    · simp

/-- **Run lemma.** -/
theorem LifeTracked.provenance (h : LifeTracked es s L fl)
    (hadds : adds (QueueLife.calls es) < 2 ^ 31 - 1) : Provenance (QueueLife.calls es) L fl := by
  induction h with
  | created _ hes =>
      rw [hes]
      exact provenance_empty
  | init _ _ hfl _ ih =>
      rw [QueueLife.calls_snoc_init] at hadds ⊢
      exact (ih hadds).land hfl
  | exit _ ih =>
      rw [QueueLife.calls_snoc_exit] at hadds ⊢
      exact (ih hadds).land (.inr rfl)
  | call h _ _ heff _ ih =>
      rw [QueueLife.calls_snoc_call] at hadds ⊢
      rw [adds_append] at hadds
      obtain ⟨h₀, h₁⟩ := h.next_bounds (by omega)
      exact heff.provenance (ih (by omega)) ⟨by omega, by omega⟩ (nextID_of_lt h₀ (by omega))

/-- **Run lemma.** If no call on a queue fails in SQLite the ledger is valid at every moment. -/
theorem LifeTracked.valid (h : LifeTracked es s L fl)
    (hadds : adds (QueueLife.calls es) < 2 ^ 31 - 1)
    (hrel : ∀ e ∈ QueueLife.calls es, e.1.Reliable) : ValidFlight L fl := by
  induction h with
  | created => exact ⟨⟨List.nodup_nil, List.nodup_nil, by simp [emptyLedger], by simp [emptyLedger],
      by simp [emptyLedger]⟩, by simp⟩
  | init _ _ hfl _ ih =>
      rw [QueueLife.calls_snoc_init] at hadds hrel
      exact (ih hadds hrel).land hfl
  | exit _ ih =>
      rw [QueueLife.calls_snoc_exit] at hadds hrel
      exact (ih hadds hrel).land (.inr rfl)
  | @call es _ _ L _ _ _ a o h _ _ heff _ ih =>
      rw [QueueLife.calls_snoc_call] at hadds hrel
      rw [adds_append] at hadds
      have hv := ih (by omega) fun e he => hrel e (List.mem_append_left _ he)
      have hp := h.provenance (by omega)
      obtain ⟨h₀, h₁⟩ := h.next_bounds (by omega)
      refine heff.valid hv (hrel (a, o) (by simp)) ⟨by omega, by omega⟩
        (nextID_of_lt h₀ (by omega)) (fun t ht => ?_) fun row hrow => ?_
      · obtain ⟨t₀, ht₀, -⟩ := hp.flight t ht
        exact hp.below _ _ ht₀
      · obtain ⟨t₀, ht₀, -⟩ := hp.pending row hrow
        exact (hp.below _ _ ht₀).1

/-! ### Files that are being created -/

/-- Every table is missing, or as it was created. -/
structure PartlyCreated (db : QueueDB) : Prop where
  pending : db .pending = none ∨ db .pending = some ⟨taskColumns, []⟩
  done : db .done = none ∨ db .done = some ⟨taskColumns, []⟩
  lastID : db .lastID = none ∨ db .lastID = some ⟨lastIDColumns, []⟩ ∨
    db .lastID = some ⟨lastIDColumns, [[.int 0]]⟩

theorem partlyCreated_emptyDB : PartlyCreated emptyDB := ⟨.inl rfl, .inl rfl, .inl rfl⟩

/-- A file that is accepted was created as a whole. -/
theorem PartlyCreated.eq_ledgerDB {db : QueueDB} (h : PartlyCreated db) (ha : Accepted db) :
    db = ledgerDB emptyLedger := by
  obtain ⟨⟨tP, hP, -⟩, ⟨tD, hD, -⟩, ⟨tI, hI, -, -, hrows⟩⟩ := ha
  funext name
  cases name with
  | pending => exact h.pending.resolve_left (by simp [hP])
  | done => exact h.done.resolve_left (by simp [hD])
  | lastID =>
      refine (h.lastID.resolve_left (by simp [hI])).resolve_left fun hempty => ?_
      rw [hI] at hempty
      obtain rfl := Option.some.inj hempty
      exact absurd hrows Nat.zero_ne_one

theorem keeps_createTable {name : TableName} (hname : name ≠ .lastID) :
    Sqlite.Keeps PartlyCreated (createTable name) := by
  refine keeps_execute (by simp [Sql.ReadOnly]) _ _ _ fun scan db db' h he => ?_
  simp only [Sql.eval] at he
  split at he
  · cases he
    cases name with
    | pending => exact ⟨.inr rfl, h.done, h.lastID⟩
    | done => exact ⟨h.pending, .inr rfl, h.lastID⟩
    | lastID => exact absurd rfl hname
  · cases he

theorem keeps_partly_verifyTable {name : TableName} (hname : name ≠ .lastID) :
    Sqlite.Keeps PartlyCreated (verifyTable name) := by
  refine (keeps_query (by trivial) _ _ _).bind fun c _ => ?_
  split
  · exact keeps_pure _
  split
  · exact keeps_createTable hname
  split
  · exact keeps_pure _
  refine (keeps_query (by trivial) _ _ _).bind fun _ _ => ?_
  split
  · exact keeps_pure _
  split <;> exact keeps_pure _

/-- The insert of the counter goes into an empty table, or is rejected. -/
theorem keeps_insertID : Sqlite.Keeps PartlyCreated
    (execute (.insert TableName.lastID [.lit (.int 0)]) [] 1 1 (2 : Nat)) := by
  refine keeps_execute (by simp [Sql.ReadOnly]) _ _ _ fun scan db db' h he => ?_
  rcases h.lastID with hnone | hnew | hold
  · simp [Sql.eval, hnone] at he
  · simp only [Sql.eval, hnew] at he
    split at he
    · cases he
      exact ⟨h.pending, h.done, .inr (.inr rfl)⟩
    · cases he
  · simp only [Sql.eval, hold] at he
    rw [if_neg (by decide)] at he
    cases he

theorem keeps_partly_verifyID : Sqlite.Keeps PartlyCreated verifyID := by
  refine (keeps_query (by trivial) _ _ _).bind fun c _ => ?_
  split
  · exact keeps_pure _
  split
  · have hcreate : Sqlite.Keeps PartlyCreated
        (execute (.create TableName.lastID lastIDColumns) [] true false false) := by
      refine keeps_execute (by simp [Sql.ReadOnly]) _ _ _ fun scan db db' h he => ?_
      simp only [Sql.eval] at he
      split at he
      · cases he
        exact ⟨h.pending, h.done, .inr (.inl rfl)⟩
      · cases he
    refine hcreate.bind fun _ _ => ?_
    split
    · exact keeps_pure _
    · exact keeps_insertID
  split
  · exact keeps_pure _
  refine (keeps_query (by trivial) _ _ _).bind fun _ _ => ?_
  split
  · exact keeps_pure _
  split
  · exact keeps_pure _
  refine (keeps_query (by trivial) _ _ _).bind fun _ _ => ?_
  split
  · exact keeps_pure _
  split <;> exact keeps_pure _

/-- Whatever fails, `connectToDB` creates whole tables. -/
theorem keeps_partly_connectToDB (opens : Bool) :
    Sqlite.Keeps PartlyCreated (connectToDB opens) := by
  unfold connectToDB
  split
  · exact keeps_pure _
  refine (keeps_partly_verifyTable (by decide)).bind fun _ _ => ?_
  split
  · exact keeps_pure _
  refine (keeps_partly_verifyTable (by decide)).bind fun _ _ => ?_
  refine keeps_partly_verifyID.bind fun _ _ => ?_
  split <;> exact keeps_pure _

/-! ### Every life is tracked -/

/-- `connectToDB` on the file of a ledger changes nothing. -/
theorem connectToDB_ledger (L : QueueLedger) (env : Env) :
    (connectToDB true ((Conn.open (ledgerDB L)).given env)).2.db = ledgerDB L :=
  (keeps_connectToDB (fun name => by cases name <;> rfl) true
    ((Conn.open (ledgerDB L)).given env) rfl).1

/-- A new object on the file of a ledger. -/
theorem refines_init {c : Conn TableName} (hdb : c.db = ledgerDB L) (hst : c.stmt = none) :
    Refines ⟨c, Task.blank, false, false, []⟩ L none where
  db := hdb
  stmt := hst
  single := single_fresh
  current := rfl
  executing := by simp [Executing]

theorem LifeRefines.init {env : Env} {o : Output} (h : LifeRefines s L fl)
    (hs : s.step (.init env) = some (o, u)) :
    ∃ fl', (fl' = fl ∨ fl' = none) ∧ LifeRefines u L fl' := by
  have hstep := QueueLife.step_init hs
  rw [h.content] at hstep
  have hdb := connectToDB_ledger L env
  have hst := (clean_connectToDB true ((Conn.open (ledgerDB L)).given env) rfl).1
  rcases hstep with ⟨-, -, rfl⟩ | ⟨-, -, rfl⟩
  · exact ⟨none, .inr rfl, refines_init hdb hst⟩
  · refine ⟨fl, .inl rfl, ?_⟩
    rw [hdb]
    cases s with
    | closed db => exact ⟨rfl, h.2⟩
    | opened q => exact ⟨rfl, h.stmt, h.single, h.current, h.executing⟩

/-- **Run lemma.** Over the life of a new file, under the discipline, either nothing was created
and nothing called, or there is a ledger. -/
theorem life_tracked (h : Run QueueLife.step (QueueLife.Each OneWorker) (.closed emptyDB) es s) :
    (∃ db, s = .closed db ∧ PartlyCreated db ∧ QueueLife.calls es = []) ∨
      ∃ L fl, LifeTracked es s L fl := by
  induction h with
  | nil => exact .inl ⟨_, rfl, partlyCreated_emptyDB, rfl⟩
  | @snoc es s u a o hrun hok hs ih =>
      rcases ih with ⟨db, rfl, hdb, hes⟩ | ⟨L, fl, ht⟩
      · cases a with
        | call a => cases hs
        | exit =>
            obtain ⟨rfl, rfl⟩ := Prod.mk.inj (Option.some.inj hs)
            exact .inl ⟨_, rfl, hdb, QueueLife.calls_snoc_exit.trans hes⟩
        | init env =>
            have hkeep := (keeps_partly_connectToDB true ((Conn.open db).given env) hdb).1
            have hnone : QueueLife.calls (es ++ [(.init env, o)]) = [] :=
              QueueLife.calls_snoc_init.trans hes
            rcases QueueLife.step_init hs with ⟨hopen, -, rfl⟩ | ⟨-, -, rfl⟩
            · refine .inr ⟨emptyLedger, none, .created (hrun.snoc hok hs) hnone ?_⟩
              exact refines_init (hkeep.eq_ledgerDB (connectToDB_spec _ hopen).1)
                (clean_connectToDB true ((Conn.open db).given env) rfl).1
            · exact .inl ⟨_, rfl, hkeep, hnone⟩
      · refine .inr ?_
        cases a with
        | init env =>
            obtain ⟨fl', hfl, href⟩ := ht.refines.init hs
            exact ⟨L, fl', .init ht hs hfl href⟩
        | exit =>
            have hs' : some (Output.silent, QueueLife.closed s.content) = some (o, u) := by
              cases s <;> exact hs
            obtain ⟨rfl, rfl⟩ := Prod.mk.inj (Option.some.inj hs')
            exact ⟨L, none, .exit ht⟩
        | call a =>
            cases s with
            | closed db => cases hs
            | opened q =>
                simp only [QueueLife.step, Option.map_eq_some_iff, Prod.mk.injEq] at hs
                obtain ⟨⟨o', q'⟩, hq, rfl, rfl⟩ := hs
                obtain ⟨L', fl', href, heff⟩ := step_refines ht.refines ht.isInt32_next hok hq
                exact ⟨L', fl', .call ht hok hq heff href⟩

end SimpleTaskQueue
