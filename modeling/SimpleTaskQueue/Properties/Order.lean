import Mathlib.Order.Bounds.Defs
import SimpleTaskQueue.Refinement.Provenance
/-!
# SimpleTaskQueue.Properties.Order

**Tasks run in the order they were added, each at most once.** The code never sorts. The order
rests on the scan of `pending` in rowid order, on the counter, and on the finished row being
gone before the next pick. `Ordered` ties these together through the last mark the worker left
in the history: a pick, or the end of a task.
-/

namespace SimpleTaskQueue

open Sqlite Runs SQLiteQueue

variable {q : SQLiteQueue} {L L' : QueueLedger} {fl fl' : Option Task} {a : Action} {o : Output}
  {es : List Event} {t : Task} {k : Int}

/-- What the worker did to a task. -/
inductive Mark
  | picked (id : Int)
  | finished (id : Int) (r : FinResult)
  deriving Repr, DecidableEq

/-- The ID the mark is about. -/
def Mark.id : Mark → Int
  | picked id => id
  | finished id _ => id

def markOf : Event → Option Mark
  | (.worker _ (.init _), .inited (.picked t)) => some (.picked t.ID)
  | (.worker _ (.fin _ _), .finished t r) => some (.finished t.ID r)
  | _ => none

/-- What the worker did, in order. -/
def marks (es : List Event) : List Mark := es.filterMap markOf

/-- The ID picked by an event. -/
def pickOf (e : Event) : Option Int :=
  match markOf e with
  | some (.picked id) => some id
  | _ => none

/-- The picked IDs, in order. -/
def picks (es : List Event) : List Int := es.filterMap pickOf

/-- The ledger against the last mark `m`. -/
structure Ordered (picked : List Int) (m : Option Mark) (L : QueueLedger) (fl : Option Task) :
    Prop where
  sorted : L.Sorted Row.ID
  mono : picked.Pairwise (· ≤ ·)
  idle : m = none → picked = []
  upper : ∀ x, m = some x → ∀ i ∈ picked, i ≤ x.id
  lower : ∀ x, m = some x → x.id < L.next ∧ ∀ row ∈ L.pending, x.id ≤ row.ID
  /-- After a move the row is gone. -/
  gone : ∀ k r, m = some (.finished k r) → r ≠ .noExitCode → ∀ row ∈ L.pending, row.ID ≠ k
  flight : ∀ k, m = some (.picked k) ↔ ∃ t, fl = some t ∧ t.ID = k

variable {picked : List Int} {m : Option Mark}

/-- A step that leaves no mark and only drops rows, or adds one with a new ID. -/
theorem Ordered.quiet (h : Ordered picked m L fl) (hsort : L'.Sorted Row.ID)
    (hnext : L.next ≤ L'.next)
    (hpend : ∀ row ∈ L'.pending, row ∈ L.pending ∨ row.ID = L.next) :
    Ordered picked m L' fl where
  sorted := hsort
  mono := h.mono
  idle := h.idle
  upper := h.upper
  lower := fun x hx => by
    refine ⟨lt_of_lt_of_le (h.lower x hx).1 hnext, fun row hrow => ?_⟩
    rcases hpend row hrow with hrow | hid
    · exact (h.lower x hx).2 row hrow
    · exact hid ▸ le_of_lt (h.lower x hx).1
  gone := fun k r hm hr row hrow => by
    rcases hpend row hrow with hrow | hid
    · exact h.gone k r hm hr row hrow
    · exact hid ▸ ne_of_gt (h.lower _ hm).1
  flight := h.flight

/-- The worker picks the first row. -/
theorem Ordered.pick (h : Ordered picked m L none) {row : Row} (hint : toInt32 row.ID = row.ID)
    (hhead : L.pending.head? = some row) (hnext : row.ID < L.next) :
    Ordered (picked ++ [row.ID]) (some (.picked row.ID)) L (some row.task) := by
  obtain ⟨l, hl⟩ : ∃ l, L.pending = row :: l := List.head?_eq_some_iff.mp hhead
  have hle : ∀ i ∈ picked, i ≤ row.ID := by
    -- through the last mark: it bounds the picks from above and the waiting rows from below
    cases m with
    | none => simp [h.idle rfl]
    | some x =>
        have hrow := (h.lower x rfl).2 row (by simp [hl])
        exact fun i hi => le_trans (h.upper x rfl i hi) hrow
  refine ⟨h.sorted, ?_, by simp, ?_, ?_, by simp, ?_⟩
  · rw [List.pairwise_append]
    refine ⟨h.mono, List.pairwise_singleton _ _, fun i hi j hj => ?_⟩
    rw [List.mem_singleton.mp hj]
    exact hle i hi
  · intro x hx i hi
    cases hx
    rcases List.mem_append.mp hi with hi | hi
    · exact hle i hi
    · exact le_of_eq (List.mem_singleton.mp hi)
  · intro x hx
    cases hx
    exact ⟨hnext, h.sorted.head_le hl⟩
  · intro k
    simp [hint]

/-- The worker finishes the task in flight. -/
theorem Ordered.finish (h : Ordered picked m L (some t)) (r : FinResult)
    (hsort : L'.Sorted Row.ID) (hnext : L'.next = L.next)
    (hpend : ∀ row ∈ L'.pending, row ∈ L.pending)
    (hgone : r ≠ .noExitCode → ∀ row ∈ L'.pending, row.ID ≠ t.ID) :
    Ordered picked (some (.finished t.ID r)) L' none := by
  have hm := (h.flight t.ID).mpr ⟨t, rfl, rfl⟩
  refine ⟨hsort, h.mono, by simp, ?_, ?_, ?_, by simp⟩
  · intro x hx
    cases hx
    exact h.upper (.picked t.ID) hm
  · intro x hx
    cases hx
    obtain ⟨hlt, hle⟩ := h.lower (.picked t.ID) hm
    exact ⟨hnext ▸ hlt, fun row hrow => hle row (hpend row hrow)⟩
  · intro k r' hk hr' row hrow
    cases hk
    exact hgone hr' row hrow

/-! ### Along a run -/

theorem marks_snoc : marks (es ++ [(a, o)]) = marks es ++ (markOf (a, o)).toList := by
  rw [marks, List.filterMap_append]
  cases h : markOf (a, o) <;> simp [h, marks]

theorem picks_snoc : picks (es ++ [(a, o)]) = picks es ++ (pickOf (a, o)).toList := by
  rw [picks, List.filterMap_append]
  cases h : pickOf (a, o) <;> simp [h, picks]

/-- **Step lemma.** -/
theorem Effect.ordered (h : Effect L fl a o L' fl')
    (hord : Ordered picked m L fl) (hv : ValidFlight L fl) (ha : a.Reliable) (hscan : a.Rowid)
    (hnext : nextID L.next = L.next + 1) (hint : IsInt32 L.next)
    (hfl : ∀ t, fl = some t → IsInt32 t.ID) (hpend : ∀ row ∈ L.pending, IsInt32 row.ID) :
    Ordered (picked ++ (pickOf (a, o)).toList) ((markOf (a, o)).or m) L' fl' := by
  have hsame : Ordered (picked ++ []) (none.or m) L fl := by simpa using hord
  cases h with
  | addTask =>
      have hid : ∀ t, (addedRow t L.next).ID = L.next := fun t => toInt32_of_isInt32 hint
      refine hsame.quiet (hord.sorted.add fun c hc => ?_) ?_ fun row hrow => ?_
      · rw [hid]
        exact hv.valid.pendingBelow c hc
      · show L.next ≤ nextID L.next
        omega
      · rcases List.mem_append.mp hrow with hrow | hrow
        · exact .inl hrow
        · rw [List.mem_singleton.mp hrow]
          exact .inr (hid _)
  | addTaskSkipped _ hrel =>
      refine hsame.quiet hord.sorted ?_ fun row => Or.inl
      show L.next ≤ nextID L.next
      omega
  | clearPending =>
      exact hsame.quiet List.Pairwise.nil (le_refl _) fun row hrow => by
        simp [Ledger.clearPending] at hrow
  | clearFinished => exact hsame.quiet hord.sorted (le_refl _) fun row => Or.inl
  | removeTask =>
      exact hsame.quiet (hord.sorted.drop _) (le_refl _) fun row hrow =>
        .inl (List.mem_of_mem_filter hrow)
  | @picked _ env row hf hrow hhead =>
      subst hf
      have hid : toInt32 row.ID = row.ID := toInt32_of_isInt32 (hpend row hrow)
      show Ordered (picked ++ [toInt32 row.ID]) (some (.picked (toInt32 row.ID))) L _
      rw [hid]
      exact hord.pick hid (hhead hscan) (hv.valid.pendingBelow row hrow)
  | noExitCode hf =>
      subst hf
      show Ordered (picked ++ []) (some _) L none
      rw [List.append_nil]
      exact hord.finish _ hord.sorted rfl (fun row hrow => hrow) fun hne => absurd rfl hne
  | @moved _ _ t n hf =>
      subst hf
      show Ordered (picked ++ []) (some _) _ none
      rw [List.append_nil]
      refine hord.finish _ (hord.sorted.drop _) rfl
        (fun row hrow => List.mem_of_mem_filter hrow) fun _ row hrow => ?_
      have hne := (List.mem_filter.mp hrow).2
      rw [toInt32_of_isInt32 (hfl t rfl)] at hne
      simpa using hne
  | @dropped _ _ t _ hf hrel =>
      subst hf
      exact absurd (hv.finish_nodup (toInt32_of_isInt32 (hfl t rfl))) (hrel ha)
  | notMoved _ _ hrel | copied _ _ hrel => exact absurd ha hrel
  | @notPicked _ _ r hf hr hrel =>
      cases r with
      | picked t => exact absurd rfl (hr t)
      | notPrepared | stopped => exact hsame
  | listPending | listFinished | pendingDetails | finishedDetails | clearPendingFailed
  | clearFinishedFailed | currentTask | addTaskFailed | removeTaskFailed | start | stop | go
  | started | polled => exact hsame

/-- **Run lemma.** -/
theorem Tracked.ordered (h : Tracked es q L fl) (hadds : adds es < 2 ^ 31 - 1)
    (hrel : ∀ e ∈ es, e.1.Reliable) (hscan : ∀ e ∈ es, e.1.Rowid) :
    Ordered (picks es) (marks es).getLast? L fl := by
  induction h with
  | nil => exact ⟨List.Pairwise.nil, List.Pairwise.nil, fun _ => rfl, by simp [marks],
      by simp [marks], by simp [marks], by simp [marks]⟩
  | @snoc es _ _ L L' fl _ a o h _ _ heff _ ih =>
      rw [adds_append] at hadds
      have hrel' : ∀ e ∈ es, e.1.Reliable := fun e he => hrel e (List.mem_append_left _ he)
      have hord := ih (by omega) hrel' fun e he => hscan e (List.mem_append_left _ he)
      have hp := h.provenance (by omega)
      obtain ⟨h₀, h₁⟩ := h.next_bounds (by omega)
      have hlast : (marks (es ++ [(a, o)])).getLast? =
          (markOf (a, o)).or (marks es).getLast? := by
        rw [marks_snoc]
        cases markOf (a, o) <;> simp
      rw [picks_snoc, hlast]
      refine heff.ordered hord (h.valid (by omega) hrel') (hrel (a, o) (by simp))
        (hscan (a, o) (by simp)) (nextID_of_lt h₀ (by omega)) ⟨by omega, by omega⟩
        (fun t ht => ?_) fun row hrow => ?_
      · obtain ⟨t₀, ht₀, -⟩ := hp.flight t ht
        exact (hp.below _ _ ht₀).1
      · obtain ⟨t₀, ht₀, -⟩ := hp.pending row hrow
        exact (hp.below _ _ ht₀).1

/-- Picking a task that was picked before. -/
theorem Ordered.picked_again (h : Ordered picked m L none) {row : Row} (hrow : row ∈ L.pending)
    (hagain : row.ID ∈ picked) : m = some (.finished row.ID .noExitCode) := by
  cases m with
  | none => simp [h.idle rfl] at hagain
  | some x =>
      -- the last mark lies between the row and the earlier pick of its ID
      have heq : x.id = row.ID :=
        le_antisymm ((h.lower x rfl).2 row hrow) (h.upper x rfl _ hagain)
      cases x with
      | picked k =>
          -- then the task would still be in flight
          obtain ⟨t, ht, -⟩ := (h.flight k).mp rfl
          cases ht
      | finished k r =>
          obtain rfl : k = row.ID := heq
          by_cases hr : r = .noExitCode
          · rw [hr]
          · exact absurd rfl (h.gone _ r rfl hr row hrow)

/-- **Tasks run in the order they were added, each at most once.** In every run from a new
database with one worker at a time, without SQLite failures, with scans in rowid order and
fewer than `2^31 - 1` IDs handed out: the picked IDs never decrease; each pick takes the
smallest ID in `pending`; and an ID is picked again only if the last thing the worker did was
to end this very task early, because `m_process->exitCode` failed. -/
theorem tasks_run_in_order (h : Run SQLiteQueue.step OneWorker fresh es q)
    (hadds : adds es < 2 ^ 31 - 1) (hrel : ∀ e ∈ es, e.1.Reliable) (hscan : ∀ e ∈ es, e.1.Rowid) :
    (picks es).Pairwise (· ≤ ·) ∧
      ∀ es₁ e es₂ k, es = es₁ ++ e :: es₂ → pickOf e = some k →
        (∃ q₁ L, Run SQLiteQueue.step OneWorker fresh es₁ q₁ ∧ q₁.mToken.db = ledgerDB L ∧
          IsLeast { id | ∃ row ∈ L.pending, row.ID = id } k) ∧
        (k ∈ picks es₁ → (marks es₁).getLast? = some (.finished k .noExitCode)) := by
  obtain ⟨L, fl, ht⟩ := run_tracked h
  refine ⟨(ht.ordered hadds hrel hscan).mono, ?_⟩
  intro es₁ e es₂ k hes hk
  subst hes
  obtain ⟨q₁, L₁, fl₁, L₂, fl₂, htr, heff⟩ := run_effect h
  rw [adds_append] at hadds
  have hord := htr.ordered (by omega) (fun e he => hrel e (List.mem_append_left _ he))
    fun e he => hscan e (List.mem_append_left _ he)
  have hp := htr.provenance (by omega)
  obtain ⟨a, o⟩ := e
  have hrowid : a.Rowid := hscan (a, o) (by simp)
  cases heff with
  | @picked i env row hf hrow hhead =>
      subst hf
      obtain ⟨t₀, ht₀, -⟩ := hp.pending row hrow
      have hid : toInt32 row.ID = row.ID := toInt32_of_isInt32 (hp.below _ _ ht₀).1
      obtain rfl : row.ID = k := by simpa [pickOf, markOf, hid] using hk
      obtain ⟨l, hl⟩ : ∃ l, L₁.pending = row :: l := List.head?_eq_some_iff.mp (hhead hrowid)
      refine ⟨⟨q₁, L₁, htr.run, htr.refines.db, ⟨row, hrow, rfl⟩, ?_⟩, hord.picked_again hrow⟩
      intro id hrow₂
      obtain ⟨row', hrow', rfl⟩ := hrow₂
      exact hord.sorted.head_le hl row' hrow'
  | @notPicked i env r hf hr hrel =>
      cases r with
      | picked t => exact absurd rfl (hr t)
      | notPrepared | stopped => simp [pickOf, markOf] at hk
  | addTask | clearPending | clearFinished | removeTask | listPending | listFinished
  | pendingDetails | finishedDetails | clearPendingFailed | clearFinishedFailed | currentTask
  | addTaskFailed | addTaskSkipped | removeTaskFailed | start | stop | go | started | polled
  | noExitCode | notMoved | copied | dropped | moved => simp [pickOf, markOf] at hk

/-- A session in which the first execution ends early: its task is picked again. -/
def retrySession : List Action :=
  [.addTask .rowid listing, .addTask .rowid listing, .start, .worker 0 .go,
    .worker 0 (.init .rowid), .worker 0 (.start false), .worker 0 (.fin .rowid none),
    .worker 0 .go, .worker 0 .go, .worker 0 .go, .stop, .start, .worker 1 .go,
    .worker 1 (.init .rowid)]

theorem retrySession_runs : (script SQLiteQueue.step OneWorker fresh retrySession).isSome := by
  decide +kernel

theorem tasks_run_in_order_retrySession :
    let es := ((script SQLiteQueue.step OneWorker fresh retrySession).get retrySession_runs).1
    (picks es).Pairwise (· ≤ ·) ∧
      ∀ es₁ e es₂ k, es = es₁ ++ e :: es₂ → pickOf e = some k →
        (∃ q₁ L, Run SQLiteQueue.step OneWorker fresh es₁ q₁ ∧ q₁.mToken.db = ledgerDB L ∧
          IsLeast { id | ∃ row ∈ L.pending, row.ID = id } k) ∧
        (k ∈ picks es₁ → (marks es₁).getLast? = some (.finished k .noExitCode)) :=
  tasks_run_in_order (Run.of_script retrySession_runs) (by decide +kernel) (by decide +kernel)
    (forall_script retrySession_runs (by simp [retrySession, Action.Rowid, Env.rowid]))

end SimpleTaskQueue
