import SimpleTaskQueue.Refinement.Tracking
/-!
# SimpleTaskQueue.Refinement.Provenance

Where the rows come from. In every tracked run, **with SQLite failing in any pattern**, each
waiting row is the row of exactly one accepted `addTask`, the task in flight is what reading
such a row gives, and each finished row is what writing the task in flight gives
(`Tracked.provenance`). IDs are never handed out twice.

If in addition no call of SQLite fails, the ledger is `Valid`: no ID twice, none in both
tables (`Tracked.valid`).
-/

namespace SimpleTaskQueue

open Sqlite Runs SQLiteQueue

/-- An `addTask` of `t` was accepted with the ID `i`. -/
def Added (es : List Event) (i : Int) (t : Task) : Prop :=
  ∃ env, (Action.addTask env t, Output.task .OK { t with ID := i }) ∈ es

variable {q : SQLiteQueue} {L L' : QueueLedger} {fl fl' : Option Task} {a : Action} {o : Output}
  {es es' : List Event} {i : Int} {t t' : Task} {row : Row}

theorem Added.mono (h : Added es i t) : Added (es ++ es') i t :=
  h.imp fun _ hm => List.mem_append_left _ hm

/-- The effect of an accepted `addTask`. -/
theorem Effect.added (h : Effect L fl a o L' fl') (ha : Added [(a, o)] i t) :
    i = L.next ∧ L' = L.add (addedRow t i) (nextID L.next) ∧ fl' = fl := by
  obtain ⟨env, hm⟩ := ha
  obtain ⟨rfl, rfl⟩ : Action.addTask env t = a ∧ Output.task .OK { t with ID := i } = o := by
    simpa using hm
  generalize ho : Output.task .OK { t with ID := i } = o at h
  cases h with
  | addTask hnew =>
      have hi : i = L.next := by simpa using ho
      subst hi
      exact ⟨rfl, rfl, rfl⟩
  | addTaskFailed hrc => cases ho; exact absurd rfl hrc
  | addTaskSkipped hrc => cases ho; exact absurd rfl hrc

/-- A waiting row was waiting before, or was just added. -/
theorem Effect.pending (h : Effect L fl a o L' fl') (hrow : row ∈ L'.pending) :
    row ∈ L.pending ∨ ∃ t, Added [(a, o)] L.next t ∧ row = addedRow t L.next := by
  cases h with
  | addTask =>
      rcases List.mem_append.mp hrow with hrow | hrow
      · exact .inl hrow
      · exact .inr ⟨_, ⟨_, List.mem_singleton.mpr rfl⟩, List.mem_singleton.mp hrow⟩
  | clearPending => simp [Ledger.clearPending] at hrow
  | removeTask | dropped | moved => exact .inl (List.mem_of_mem_filter hrow)
  | listPending | listFinished | pendingDetails | finishedDetails | clearPendingFailed
  | clearFinished | clearFinishedFailed | currentTask | addTaskFailed | addTaskSkipped
  | removeTaskFailed | start | stop | go | started | polled | picked | notPicked | noExitCode
  | notMoved | copied => exact .inl hrow

/-- A finished row was finished before, or the task in flight was just finished. -/
theorem Effect.done (h : Effect L fl a o L' fl') (hrow : row ∈ L'.done) :
    row ∈ L.done ∨ ∃ k env t n, a = .worker k (.fin env (some n)) ∧ o = .finished t .moved ∧
      fl = some t ∧ row = finishedRow t n := by
  cases h with
  | copied hfl | moved hfl =>
      rcases List.mem_append.mp hrow with hrow | hrow
      · exact .inl hrow
      · exact .inr ⟨_, _, _, _, rfl, rfl, hfl, List.mem_singleton.mp hrow⟩
  | clearFinished => simp [Ledger.clearDone] at hrow
  | addTask | clearPending | removeTask | dropped | listPending | listFinished | pendingDetails
  | finishedDetails | clearPendingFailed | clearFinishedFailed | currentTask | addTaskFailed
  | addTaskSkipped | removeTaskFailed | start | stop | go | started | polled | picked | notPicked
  | noExitCode | notMoved => exact .inl hrow

/-- A task in flight was in flight before, or was just picked. -/
theorem Effect.flight (h : Effect L fl a o L' fl') (hfl : fl' = some t) :
    fl = some t ∨ ∃ row ∈ L.pending, t = row.task := by
  cases h with
  | picked _ hrow => exact .inr ⟨_, hrow, (Option.some.inj hfl).symm⟩
  | noExitCode | notMoved | copied | dropped | moved => cases hfl
  | addTask | clearPending | removeTask | listPending | listFinished | pendingDetails
  | finishedDetails | clearPendingFailed | clearFinished | clearFinishedFailed | currentTask
  | addTaskFailed | addTaskSkipped | removeTaskFailed | start | stop | go | started | polled
  | notPicked => exact .inl hfl

/-- Every waiting row carries a 32-bit ID. -/
theorem Tracked.pending_isInt32 (h : Tracked es q L fl) : ∀ row ∈ L.pending, IsInt32 row.ID := by
  induction h with
  | nil => simp [emptyLedger]
  | snoc _ _ _ heff _ ih =>
      intro row hrow
      rcases heff.pending hrow with hrow | ⟨t, -, rfl⟩
      · exact ih row hrow
      · exact toInt32_isInt32 _

/-! ### Provenance -/

/-- Where everything in the abstract queue comes from. -/
structure Provenance (es : List Event) (L : QueueLedger) (fl : Option Task) : Prop where
  below : ∀ i t, Added es i t → IsInt32 i ∧ i < L.next
  unique : ∀ i t t', Added es i t → Added es i t' → t = t'
  pending : ∀ row ∈ L.pending, ∃ t, Added es row.ID t ∧ row = addedRow t row.ID
  done : ∀ row ∈ L.done, ∃ t n, Added es row.ID t ∧
    row = finishedRow (addedRow t row.ID).task n
  flight : ∀ t, fl = some t → ∃ t₀, Added es t.ID t₀ ∧ t = (addedRow t₀ t.ID).task

theorem finishedRow_ID (t : Task) (n : Int) : (finishedRow t n).ID = toInt32 t.ID := rfl

@[simp] theorem Row.task_ID (r : Row) : r.task.ID = toInt32 r.ID := rfl

/-- An accepted ID is new, or was accepted before. -/
theorem added_snoc : Added (es ++ [(a, o)]) i t ↔ Added es i t ∨ Added [(a, o)] i t := by
  simp only [Added, List.mem_append, exists_or]

theorem provenance_empty : Provenance [] emptyLedger none where
  below := fun i t h => by simp [Added] at h
  unique := fun i t t' h => by simp [Added] at h
  pending := by simp [emptyLedger]
  done := by simp [emptyLedger]
  flight := by simp

/-- **Step lemma.** As long as the counter does not wrap around, an event keeps the
provenance. -/
theorem Effect.provenance (h : Effect L fl a o L' fl') (hp : Provenance es L fl)
    (hint : IsInt32 L.next) (hnext : nextID L.next = L.next + 1) :
    Provenance (es ++ [(a, o)]) L' fl' where
  below := by
    intro i t ht
    have hle : L.next ≤ L'.next := by
      rcases h.next with hn | ⟨-, hn⟩ <;> omega
    rcases added_snoc.mp ht with ht | ht
    · exact ⟨(hp.below i t ht).1, lt_of_lt_of_le (hp.below i t ht).2 hle⟩
    · obtain ⟨rfl, rfl, -⟩ := h.added ht
      refine ⟨hint, ?_⟩
      show L.next < nextID L.next
      omega
  unique := by
    intro i t t' ht ht'
    rcases added_snoc.mp ht with ht | ht <;> rcases added_snoc.mp ht' with ht' | ht'
    · exact hp.unique i t t' ht ht'
    · -- the new ID is the counter, and all earlier ones are below it
      obtain ⟨rfl, -⟩ := h.added ht'
      exact absurd (hp.below _ t ht).2 (lt_irrefl _)
    · obtain ⟨rfl, -⟩ := h.added ht
      exact absurd (hp.below _ t' ht').2 (lt_irrefl _)
    · obtain ⟨env, hm⟩ := ht
      obtain ⟨env', hm'⟩ := ht'
      have ha := (List.mem_singleton.mp hm).trans (List.mem_singleton.mp hm').symm
      exact (Action.addTask.inj (Prod.mk.inj ha).1).2
  pending := by
    intro row hrow
    rcases h.pending hrow with hrow | ⟨t, ha, rfl⟩
    · obtain ⟨t, ht, he⟩ := hp.pending row hrow
      exact ⟨t, ht.mono, he⟩
    · -- the row of a new ID carries that ID
      have hnew : (addedRow t L.next).ID = L.next := toInt32_of_isInt32 hint
      rw [hnew]
      exact ⟨t, added_snoc.mpr (.inr ha), rfl⟩
  done := by
    intro row hrow
    rcases h.done hrow with hrow | ⟨k, env, t, n, -, -, hfl, rfl⟩
    · obtain ⟨t, n, ht, he⟩ := hp.done row hrow
      exact ⟨t, n, ht.mono, he⟩
    · obtain ⟨t₀, ht₀, he⟩ := hp.flight t hfl
      have hid : (finishedRow t n).ID = t.ID := toInt32_of_isInt32 (hp.below _ _ ht₀).1
      rw [hid]
      exact ⟨t₀, n, ht₀.mono, congrArg (finishedRow · n) he⟩
  flight := by
    intro t hfl
    rcases h.flight hfl with hfl | ⟨row, hrow, rfl⟩
    · obtain ⟨t₀, ht₀, he⟩ := hp.flight t hfl
      exact ⟨t₀, ht₀.mono, he⟩
    · obtain ⟨t₀, ht₀, he⟩ := hp.pending row hrow
      have hid : row.task.ID = row.ID := toInt32_of_isInt32 (hp.below _ _ ht₀).1
      rw [hid]
      exact ⟨t₀, ht₀.mono, congrArg Row.task he⟩

/-- **Run lemma.** -/
theorem Tracked.provenance (h : Tracked es q L fl) (hadds : adds es < 2 ^ 31 - 1) :
    Provenance es L fl := by
  induction h with
  | nil => exact provenance_empty
  | snoc h _ _ heff _ ih =>
      rw [adds_append] at hadds
      obtain ⟨h₀, h₁⟩ := h.next_bounds (by omega)
      exact heff.provenance (ih (by omega)) ⟨by omega, by omega⟩ (nextID_of_lt h₀ (by omega))

/-! ### Validity -/

/-- A valid ledger whose task in flight may still be moved to `done`. -/
structure ValidFlight (L : QueueLedger) (fl : Option Task) : Prop where
  valid : L.Valid Row.ID
  unfinished : ∀ t, fl = some t → ∀ b ∈ L.done, b.ID ≠ t.ID

theorem ValidFlight.finish_nodup (h : ValidFlight L (some t)) {row : Row} (hrow : row.ID = t.ID) :
    ((L.done ++ [row]).map Row.ID).Nodup := by
  rw [List.map_append, List.nodup_append]
  refine ⟨h.valid.doneNodup, List.nodup_singleton _, fun x hx y hy => ?_⟩
  obtain ⟨b, hb, rfl⟩ := List.mem_map.mp hx
  obtain rfl : y = row.ID := by simpa using hy
  rw [hrow]
  exact h.unfinished t rfl b hb

theorem ValidFlight.add_nodup (h : ValidFlight L fl) {row : Row} (hrow : row.ID = L.next) :
    ((L.pending ++ [row]).map Row.ID).Nodup := by
  rw [List.map_append, List.nodup_append]
  refine ⟨h.valid.pendingNodup, List.nodup_singleton _, fun x hx y hy => ?_⟩
  obtain ⟨b, hb, rfl⟩ := List.mem_map.mp hx
  obtain rfl : y = row.ID := by simpa using hy
  rw [hrow]
  exact ne_of_lt (h.valid.pendingBelow b hb)

/-- **Step lemma.** Without failures an effect keeps the ledger valid. The counter must not
wrap around, and the task in flight must have an issued ID. -/
theorem Effect.valid (h : Effect L fl a o L' fl') (hv : ValidFlight L fl) (ha : a.Reliable)
    (hint : IsInt32 L.next) (hnext : nextID L.next = L.next + 1)
    (hfl : ∀ t, fl = some t → IsInt32 t.ID ∧ t.ID < L.next)
    (hpend : ∀ row ∈ L.pending, IsInt32 row.ID) : ValidFlight L' fl' := by
  have hnew : ∀ t, (addedRow t L.next).ID = L.next := fun t => toInt32_of_isInt32 hint
  cases h with
  | clearPending => exact ⟨hv.valid.clearPending, hv.unfinished⟩
  | clearFinished => exact ⟨hv.valid.clearDone, by simp [Ledger.clearDone]⟩
  | addTask =>
      refine ⟨hv.valid.add (hnew _) ?_, hv.unfinished⟩
      rw [hnext]
      omega
  | addTaskSkipped _ hrel => exact absurd (hv.add_nodup (hnew _)) (hrel ha)
  | removeTask => exact ⟨hv.valid.drop _, hv.unfinished⟩
  | @picked _ _ row _ hrow =>
      refine ⟨hv.valid, fun t ht b hb => ?_⟩
      cases ht
      rw [Row.task_ID, toInt32_of_isInt32 (hpend row hrow)]
      exact (hv.valid.disjoint row hrow b hb).symm
  | noExitCode => exact ⟨hv.valid, by simp⟩
  | notMoved _ _ hrel | copied _ _ hrel => exact absurd ha hrel
  | @dropped _ _ t n hf hrel =>
      subst hf
      exact absurd (hv.finish_nodup (toInt32_of_isInt32 (hfl t rfl).1)) (hrel ha)
  | @moved _ _ t n hf =>
      subst hf
      have hid : (finishedRow t n).ID = t.ID := toInt32_of_isInt32 (hfl t rfl).1
      refine ⟨?_, by simp⟩
      rw [← finishedRow_ID t n]
      refine hv.valid.move ?_ fun b hb => ?_
      · rw [hid]
        exact (hfl t rfl).2
      · rw [hid]
        exact hv.unfinished t rfl b hb
  | listPending | listFinished | pendingDetails | finishedDetails | clearPendingFailed
  | clearFinishedFailed | currentTask | addTaskFailed | removeTaskFailed | start | stop | go
  | started | polled | notPicked => exact hv

/-- **Run lemma.** Without failures the ledger is valid at every moment of a run. -/
theorem Tracked.valid (h : Tracked es q L fl) (hadds : adds es < 2 ^ 31 - 1)
    (hrel : ∀ e ∈ es, e.1.Reliable) : ValidFlight L fl := by
  induction h with
  | nil => exact ⟨⟨List.nodup_nil, List.nodup_nil, by simp [emptyLedger], by simp [emptyLedger],
      by simp [emptyLedger]⟩, by simp⟩
  | @snoc es _ _ L L' fl _ a o h _ _ heff _ ih =>
      rw [adds_append] at hadds
      have hv := ih (by omega) fun e he => hrel e (List.mem_append_left _ he)
      have hp := h.provenance (by omega)
      obtain ⟨h₀, h₁⟩ := h.next_bounds (by omega)
      refine heff.valid hv (hrel (a, o) (by simp)) ⟨by omega, by omega⟩
        (nextID_of_lt h₀ (by omega)) (fun t ht => ?_) fun row hrow => ?_
      · obtain ⟨t₀, ht₀, -⟩ := hp.flight t ht
        exact hp.below _ _ ht₀
      · obtain ⟨t₀, ht₀, -⟩ := hp.pending row hrow
        exact (hp.below _ _ ht₀).1

end SimpleTaskQueue
