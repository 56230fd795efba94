import SimpleTaskQueue.Refinement.Provenance
/-!
# SimpleTaskQueue.Properties.Conservation

**No task is lost, duplicated or altered.** Over all runs from a new database with one worker
at a time in which SQLite does not fail: the ledger stays valid, every accepted task is still
in one of the tables unless a client deleted it, and every row carries what was queued.

There is one exception. An `i32` of the source is an `int_fast32_t`, which has 64 bits, and
`removeTask` hands it to `sqlite3_bind_int`, which takes an `int`: an ID that does not fit is cut
to 32 bits, and the row of another task can be deleted.
-/

namespace SimpleTaskQueue

open Sqlite Runs SQLiteQueue

variable {q : SQLiteQueue} {L L' : QueueLedger} {fl fl' : Option Task} {a : Action} {o : Output}
  {es es' : List Event} {i : Int} {t : Task} {row : Row}

/-- The row carries what was queued. -/
structure Keeps (row : Row) (t : Task) : Prop where
  execName : row.execName = t.execName
  args : row.args = concatString t.args
  workDir : row.workDir = t.workDir
  isSuccess : row.isSuccess = t.isSuccess

/-- The event deletes the row of ID `i` from a database that holds `L`, as a client asked for. -/
def Deletes (L : QueueLedger) (i : Int) : Event → Prop
  | (.removeTask _ id, .code .OK) => id = i ∧ ∃ row ∈ L.pending, row.ID = i
  | (.clearPending _, .code .OK) => ∃ row ∈ L.pending, row.ID = i
  | (.clearFinished _, .code .OK) => ∃ row ∈ L.done, row.ID = i
  | _ => False

/-- Somewhere in the history a client call deleted the row of ID `i`. -/
def Deleted (es : List Event) (i : Int) : Prop :=
  ∃ es₁ e es₂ q L, es = es₁ ++ e :: es₂ ∧ Run SQLiteQueue.step OneWorker fresh es₁ q ∧
    q.mToken.db = ledgerDB L ∧ Deletes L i e

/-- What is promised at every moment: no ID is twice in a table or in both tables, and all are
below `lastID`; an accepted task is in one of the tables, as it was queued, unless a client call
deleted its row; and there are no other rows. -/
def Conserved (es : List Event) (q : SQLiteQueue) : Prop :=
  ∃ L, q.mToken.db = ledgerDB L ∧ L.Valid Row.ID ∧
    (∀ i t, Added es i t →
      (∃ row ∈ L.pending ++ L.done, row.ID = i ∧ Keeps row t) ∨ Deleted es i) ∧
    ∀ row ∈ L.pending ++ L.done, ∃ t, Added es row.ID t ∧ Keeps row t

/-- If what the cut to 32 bits leaves of an ID to be removed is the ID of a waiting row, then it is
the ID itself. -/
def OwnID (q : SQLiteQueue) : Action → Prop
  | .removeTask _ id => ∀ tb ∈ q.mToken.db .pending, ∀ r ∈ tb.rows,
      (taskOfRecord r).ID = toInt32 id → (taskOfRecord r).ID = id
  | _ => True

instance (q : SQLiteQueue) (a : Action) : Decidable (OwnID q a) :=
  match a with
  | .removeTask _ _ => inferInstanceAs (Decidable (∀ _ ∈ _, ∀ _ ∈ _, _ → _))
  | .listPending _ | .listFinished _ | .pendingDetails _ _ _ | .finishedDetails _ _ _
  | .clearPending _ | .clearFinished _ | .currentTask _ | .addTask _ _ | .start | .stop
  | .worker _ _ => .isTrue trivial

/-- There is a row of ID `i`. -/
def Present (L : QueueLedger) (i : Int) : Prop := ∃ row ∈ L.pending ++ L.done, row.ID = i

/-- The action is to remove another ID, of which the cut leaves that of the row `i`. -/
def Cuts (L : QueueLedger) (i : Int) : Action → Prop
  | .removeTask _ id => id ≠ i ∧ toInt32 id = i ∧ ∃ row ∈ L.pending, row.ID = i
  | _ => False

/-- Every accepted task is in one of the tables, or was deleted. -/
def Accounted (es : List Event) (L : QueueLedger) : Prop :=
  ∀ i t, Added es i t → Present L i ∨ Deleted es i

theorem Deleted.mono (h : Deleted es i) : Deleted (es ++ es') i := by
  obtain ⟨es₁, e, es₂, q, L, rfl, hd⟩ := h
  exact ⟨es₁, e, es₂ ++ es', q, L, by simp, hd⟩

theorem keeps_addedRow (t : Task) (i : Int) : Keeps (addedRow t i) t := ⟨rfl, rfl, rfl, rfl⟩

/-- Reading a row, and writing it again, changes nothing in strings without NUL. -/
theorem keeps_finishedRow (ht : t.NulFree) (i n : Int) :
    Keeps (finishedRow (addedRow t i).task n) t where
  execName := cstr_of_nulFree ht.1
  args := by
    show concatString (splitString (cstr (concatString t.args))) = _
    rw [concatString_splitString, cstr_of_nulFree (nulFree_concatString ht.2.1)]
  workDir := cstr_of_nulFree ht.2.2
  isSuccess := rfl

/-! ### Rows stay, or are deleted by a client -/

theorem present_of_pending (h : row ∈ L.pending) : Present L row.ID :=
  ⟨row, List.mem_append_left _ h, rfl⟩

theorem present_of_done (h : row ∈ L.done) : Present L row.ID :=
  ⟨row, List.mem_append_right _ h, rfl⟩

/-- The row of one ID is dropped from `pending`, the others stay. -/
theorem present_drop (h : Present L i) (k : Int) :
    Present (dropID L k) i ∨ i = k ∧ ∃ row ∈ L.pending, row.ID = i := by
  obtain ⟨row, hrow, rfl⟩ := h
  rcases List.mem_append.mp hrow with hrow | hrow
  · by_cases hk : row.ID = k
    · exact .inr ⟨hk, row, hrow, rfl⟩
    · exact .inl (present_of_pending (List.mem_filter.mpr ⟨hrow, by simpa using hk⟩))
  · exact .inl (present_of_done hrow)

/-- **Step lemma.** Without failures only the three deleting calls remove a row, and a `removeTask`
whose ID is cut; `mainLoopFin` writes the row it deletes. -/
theorem Effect.present (h : Effect L fl a o L' fl') (hv : ValidFlight L fl) (ha : a.Reliable)
    (hfl : ∀ t, fl = some t → IsInt32 t.ID) (hi : Present L i) :
    Present L' i ∨ Deletes L i (a, o) ∨ Cuts L i a := by
  cases h with
  | clearPending =>
      obtain ⟨row, hrow, rfl⟩ := hi
      rcases List.mem_append.mp hrow with hrow | hrow
      · exact .inr (.inl ⟨row, hrow, rfl⟩)
      · exact .inl (present_of_done (L := L.clearPending) hrow)
  | clearFinished =>
      obtain ⟨row, hrow, rfl⟩ := hi
      rcases List.mem_append.mp hrow with hrow | hrow
      · exact .inl (present_of_pending (L := L.clearDone) hrow)
      · exact .inr (.inl ⟨row, hrow, rfl⟩)
  | addTask =>
      obtain ⟨row, hrow, rfl⟩ := hi
      refine .inl ?_
      rcases List.mem_append.mp hrow with hrow | hrow
      · exact present_of_pending (List.mem_append_left _ hrow)
      · exact present_of_done hrow
  | @removeTask _ id _ =>
      rcases present_drop hi (toInt32 id) with hi | ⟨hid, hrow⟩
      · exact .inl hi
      · by_cases hown : id = i
        · exact .inr (.inl ⟨hown, hrow⟩)
        · exact .inr (.inr ⟨hown, hid.symm, hrow⟩)
  | @dropped _ _ t _ hf hrel =>
      -- the ID is not in `done`, so the `INSERT` is not rejected
      subst hf
      exact absurd (hv.finish_nodup (toInt32_of_isInt32 (hfl t rfl))) (hrel ha)
  | @moved _ _ t n hf =>
      refine .inl ?_
      rcases present_drop hi (toInt32 t.ID) with ⟨row, hrow, rfl⟩ | ⟨rfl, -⟩
      · rcases List.mem_append.mp hrow with hrow | hrow
        · exact present_of_pending (L := Ledger.finish _ _) hrow
        · exact present_of_done (List.mem_append_left _ hrow)
      · have hrow : finishedRow t n ∈
            (Ledger.finish (dropID L (toInt32 t.ID)) (finishedRow t n)).done :=
          List.mem_append_right _ (List.mem_singleton.mpr rfl)
        exact present_of_done hrow
  | notMoved _ _ hrel | copied _ _ hrel => exact absurd ha hrel
  | addTaskSkipped | listPending | listFinished | pendingDetails | finishedDetails
  | clearPendingFailed | clearFinishedFailed | currentTask | addTaskFailed | removeTaskFailed
  | start | stop | go | started | polled | picked | notPicked | noExitCode => exact .inl hi

/-- The new row of an accepted task. -/
theorem present_add (hint : IsInt32 L.next) :
    Present (L.add (addedRow t L.next) (nextID L.next)) L.next := by
  have hid : (addedRow t L.next).ID = L.next := toInt32_of_isInt32 hint
  have hrow : addedRow t L.next ∈ (L.add (addedRow t L.next) (nextID L.next)).pending :=
    List.mem_append_right _ (List.mem_singleton.mpr rfl)
  have hp := present_of_pending hrow
  rw [hid] at hp
  exact hp

/-- **Step lemma.** If no ID is cut to that of a row, every task stays accounted for. -/
theorem Tracked.accounted (h : Tracked es q L fl) (hacc : Accounted es L)
    (hadds : adds es < 2 ^ 31 - 1) (hrel : ∀ e ∈ es, e.1.Reliable) (heff : Effect L fl a o L' fl')
    (ha : a.Reliable) (hcut : ∀ i, ¬ Cuts L i a) : Accounted (es ++ [(a, o)]) L' := by
  intro i t hi
  have hprov := h.provenance hadds
  rcases added_snoc.mp hi with hi | hi
  · rcases hacc i t hi with hp | hd
    · rcases heff.present (h.valid hadds hrel) ha
        (fun t ht => (hprov.below _ _ (hprov.flight t ht).choose_spec.1).1) hp with hp | hd | hc
      · exact .inl hp
      · exact .inr ⟨es, (a, o), [], q, L, rfl, h.run, h.refines.db, hd⟩
      · exact absurd hc (hcut i)
    · exact .inr hd.mono
  · obtain ⟨rfl, rfl, -⟩ := heff.added hi
    exact .inl (present_add h.isInt32_next)

/-! ### A row that is lost -/

theorem deleted_snoc {e : Event} (h : Deleted (es ++ [e]) i) :
    Deleted es i ∨ ∃ q L, Run SQLiteQueue.step OneWorker fresh es q ∧
      q.mToken.db = ledgerDB L ∧ Deletes L i e := by
  obtain ⟨es₁, e', es₂, q, L, he, hrun, hdb, hd⟩ := h
  rcases List.eq_nil_or_concat es₂ with rfl | ⟨es₂, e'', rfl⟩
  · obtain ⟨rfl, hlast⟩ := List.append_inj' he rfl
    obtain rfl : e = e' := by simpa using hlast
    exact .inr ⟨q, L, hrun, hdb, hd⟩
  · rw [List.concat_eq_append, ← List.cons_append, ← List.append_assoc] at he
    obtain ⟨rfl, -⟩ := List.append_inj' he rfl
    exact .inl ⟨es₁, e', es₂, q, L, rfl, hrun, hdb, hd⟩

/-- A row that was just deleted is not waiting. -/
theorem Effect.deletes (h : Effect L fl a o L' fl') (hv : L.Valid Row.ID)
    (hint : ∀ row ∈ L.pending, IsInt32 row.ID) (hd : Deletes L i (a, o)) :
    i < L.next ∧ ∀ row ∈ L'.pending, row.ID ≠ i := by
  cases h with
  | clearPending =>
      obtain ⟨row, hrow, rfl⟩ := hd
      exact ⟨hv.pendingBelow row hrow, by simp [Ledger.clearPending]⟩
  | clearFinished =>
      obtain ⟨row, hrow, rfl⟩ := hd
      exact ⟨hv.doneBelow row hrow, fun row' hrow' => hv.disjoint row' hrow' row hrow⟩
  | removeTask =>
      obtain ⟨rfl, row, hrow, rfl⟩ := hd
      refine ⟨hv.pendingBelow row hrow, fun row' hrow' => ?_⟩
      have hne := (List.mem_filter.mp hrow').2
      rw [toInt32_of_isInt32 (hint row hrow)] at hne
      exact of_decide_eq_true hne
  | @removeTaskFailed _ _ rc hrc =>
      cases rc with
      | OK => exact absurd rfl hrc
      | _ => cases hd
  | clearPendingFailed | clearFinishedFailed | addTask | dropped | moved | notMoved | copied
  | addTaskSkipped | listPending | listFinished | pendingDetails | finishedDetails | currentTask
  | addTaskFailed | start | stop | go | started | polled | picked | notPicked | noExitCode =>
      cases hd

/-- **Run lemma.** A row that was deleted does not wait again. -/
theorem Tracked.deleted (h : Tracked es q L fl) (hadds : adds es < 2 ^ 31 - 1)
    (hrel : ∀ e ∈ es, e.1.Reliable) (hd : Deleted es i) :
    i < L.next ∧ ∀ row ∈ L.pending, row.ID ≠ i := by
  induction h with
  | nil =>
      obtain ⟨es₁, e, es₂, _, _, he, -⟩ := hd
      simp at he
  | @snoc es q _ L L' fl _ a o h _ _ heff _ ih =>
      rw [adds_append] at hadds
      have hrel' : ∀ e ∈ es, e.1.Reliable := fun e he => hrel e (List.mem_append_left _ he)
      have hnext : L.next ≤ L'.next := by
        obtain ⟨h₀, h₁⟩ := h.next_bounds (by omega)
        rcases heff.next with hn | ⟨hadd, hn⟩
        · exact le_of_eq hn.symm
        · rw [hn, nextID_of_lt h₀ (by omega)]
          omega
      rcases deleted_snoc hd with hd | ⟨q', L₁, hrun, hdb, hd⟩
      · obtain ⟨hlt, hnot⟩ := ih (by omega) hrel' hd
        refine ⟨lt_of_lt_of_le hlt hnext, fun row hrow => ?_⟩
        rcases heff.pending hrow with hrow | ⟨t, -, rfl⟩
        · exact hnot row hrow
        · -- a new row has a new ID
          have hid : (addedRow t L.next).ID = L.next := toInt32_of_isInt32 h.isInt32_next
          omega
      · obtain rfl := hrun.det h.run
        obtain rfl := ledgerDB_injective (hdb.symm.trans h.refines.db)
        obtain ⟨hlt, hnot⟩ := heff.deletes (h.valid (by omega) hrel').valid h.pending_isInt32 hd
        exact ⟨lt_of_lt_of_le hlt hnext, hnot⟩

/-- **Step lemma.** A `removeTask` whose ID is cut to that of a waiting row loses the task. -/
theorem Tracked.not_accounted (h : Tracked es q L fl) (hadds : adds es < 2 ^ 31 - 1)
    (hrel : ∀ e ∈ es, e.1.Reliable) (heff : Effect L fl a o L' fl') (ha : a.Reliable)
    (hcut : Cuts L i a) : ¬ Accounted (es ++ [(a, o)]) L' := by
  have hprov := h.provenance hadds
  have hcur : IsInt32 (fl.getD Task.blank).ID := by
    cases fl with
    | none => exact (by decide : IsInt32 Task.blank.ID)
    | some t =>
        obtain ⟨t₀, hadd, -⟩ := hprov.flight t rfl
        exact (hprov.below _ _ hadd).1
  cases heff with
  | @removeTask _ id _ =>
      obtain ⟨hne, rfl, row, hrow, hid⟩ := hcut
      obtain ⟨t, hadd, -⟩ := hprov.pending row hrow
      rw [hid] at hadd
      intro hacc
      rcases hacc _ t hadd.mono with ⟨row', hrow', hid'⟩ | hd
      · rcases List.mem_append.mp hrow' with hrow' | hrow'
        · exact absurd hid' (of_decide_eq_true (List.mem_filter.mp hrow').2)
        · exact (h.valid hadds hrel).valid.disjoint row hrow row' hrow' (hid.trans hid'.symm)
      · rcases deleted_snoc hd with hd | ⟨_, _, -, -, hown, -⟩
        · exact (h.deleted hadds hrel hd).2 row hrow hid
        · exact hne hown
  | @removeTaskFailed _ id _ _ hno =>
      obtain ⟨hne, rfl, -⟩ := hcut
      obtain ⟨-, rfl⟩ := hno ha
      exact absurd (toInt32_of_isInt32 hcur).symm hne
  | clearPending | clearFinished | clearPendingFailed | clearFinishedFailed | addTask | dropped
  | moved | notMoved | copied | addTaskSkipped | listPending | listFinished | pendingDetails
  | finishedDetails | currentTask | addTaskFailed | start | stop | go | started | polled | picked
  | notPicked | noExitCode => cases hcut

/-! ### Runs -/

/-- Every row carries what was queued. -/
theorem Tracked.keeps (h : Tracked es q L fl) (hadds : adds es < 2 ^ 31 - 1)
    (hnul : ∀ e ∈ es, e.1.NulFree) (hrow : row ∈ L.pending ++ L.done) :
    ∃ t, Added es row.ID t ∧ Keeps row t := by
  have hp := h.provenance hadds
  rcases List.mem_append.mp hrow with hrow | hrow
  · obtain ⟨t, ht, he⟩ := hp.pending row hrow
    exact ⟨t, ht, he ▸ keeps_addedRow t row.ID⟩
  · obtain ⟨t, n, ht, he⟩ := hp.done row hrow
    obtain ⟨env, hm⟩ := ht
    exact ⟨t, ⟨env, hm⟩, he ▸ keeps_finishedRow (hnul _ hm t rfl) row.ID n⟩

/-- Everything else always holds. -/
theorem Tracked.conserved_iff (h : Tracked es q L fl) (hadds : adds es < 2 ^ 31 - 1)
    (hrel : ∀ e ∈ es, e.1.Reliable) (hnul : ∀ e ∈ es, e.1.NulFree) :
    Conserved es q ↔ Accounted es L := by
  constructor
  · rintro ⟨L', hdb, -, hacc, -⟩ i t hi
    obtain rfl := ledgerDB_injective (h.refines.db.symm.trans hdb)
    exact (hacc i t hi).imp_left fun ⟨row, hrow, hid, _⟩ => ⟨row, hrow, hid⟩
  · intro hacc
    refine ⟨L, h.refines.db, (h.valid hadds hrel).valid, fun i t hi => ?_,
      fun row hrow => h.keeps hadds hnul hrow⟩
    rcases hacc i t hi with ⟨row, hrow, rfl⟩ | hd
    · obtain ⟨t', ht', hk⟩ := h.keeps hadds hnul hrow
      obtain rfl := (h.provenance hadds).unique _ _ _ ht' hi
      exact .inl ⟨row, hrow, rfl, hk⟩
    · exact .inr hd

theorem Tracked.ownID_iff (h : Tracked es q L fl) : OwnID q a ↔ ∀ i, ¬ Cuts L i a := by
  cases a with
  | removeTask env id =>
      have hread : ∀ row ∈ L.pending, (taskOfRecord row.record).ID = row.ID := by
        intro row hrow
        rw [Row.taskOfRecord_record, Row.task_ID, toInt32_of_isInt32 (h.pending_isInt32 row hrow)]
      constructor
      · rintro hown i ⟨hne, rfl, row, hrow, hid⟩
        have hr := hown (taskTable L.pending) (by rw [h.refines.db]; rfl) row.record
          (List.mem_map_of_mem hrow)
        rw [hread row hrow, hid] at hr
        exact hne (hr rfl).symm
      · intro hcut tb htb r hr hid
        rw [h.refines.db] at htb
        obtain rfl := Option.some.inj htb
        obtain ⟨row, hrow, rfl⟩ := List.mem_map.mp hr
        rw [hread row hrow] at hid ⊢
        by_contra hne
        exact hcut row.ID ⟨fun he => hne he.symm, hid.symm, row, hrow, rfl⟩
  | listPending | listFinished | pendingDetails | finishedDetails | clearPending | clearFinished
  | currentTask | addTask | start | stop | worker =>
      exact iff_of_true trivial fun _ hcut => by cases hcut

theorem conserved_nil : Conserved [] fresh := by
  have hnil : Tracked [] fresh emptyLedger none := .nil
  refine (hnil.conserved_iff (by decide) (by simp) (by simp)).mpr fun i t hi => ?_
  obtain ⟨env, hm⟩ := hi
  cases hm

/-- **Step lemma.** -/
theorem conserved_step_iff (h : Run SQLiteQueue.step OneWorker fresh es q)
    (hadds : adds (es ++ [(a, o)]) < 2 ^ 31 - 1) (hrel : ∀ e ∈ es ++ [(a, o)], e.1.Reliable)
    (hnul : ∀ e ∈ es ++ [(a, o)], e.1.NulFree) (hcons : Conserved es q) (hok : OneWorker q a)
    (hs : q.step a = some (o, u)) : Conserved (es ++ [(a, o)]) u ↔ OwnID q a := by
  obtain ⟨L, fl, htr⟩ := run_tracked h
  obtain ⟨L', fl', href, heff⟩ := step_refines htr.refines htr.isInt32_next hok hs
  have hadds' : adds es < 2 ^ 31 - 1 := by
    rw [adds_append] at hadds
    omega
  have hpast : ∀ e ∈ es, e ∈ es ++ [(a, o)] := fun e he => List.mem_append_left _ he
  have hrel' : ∀ e ∈ es, e.1.Reliable := fun e he => hrel e (hpast e he)
  have ha : a.Reliable := hrel (a, o) (by simp)
  rw [htr.conserved_iff hadds' hrel' fun e he => hnul e (hpast e he)] at hcons
  rw [(htr.snoc hok hs heff href).conserved_iff hadds hrel hnul, htr.ownID_iff]
  constructor
  · intro hacc i hcut
    exact htr.not_accounted hadds' hrel' heff ha hcut hacc
  · exact htr.accounted hcons hadds' hrel' heff ha

/-- **No task is lost, duplicated or altered**, at any moment of a run from a new database with one
worker at a time, without SQLite failures, with strings without NUL and fewer than `2^31 - 1` IDs
handed out, if and only if no `removeTask` of the run finds a waiting row by what the cut to 32 bits
leaves of another ID. -/
theorem no_task_lost_iff (h : Run SQLiteQueue.step OneWorker fresh es q)
    (hadds : adds es < 2 ^ 31 - 1) (hrel : ∀ e ∈ es, e.1.Reliable)
    (hnul : ∀ e ∈ es, e.1.NulFree) :
    (∀ es₁ es₂ t, es = es₁ ++ es₂ → Run SQLiteQueue.step OneWorker fresh es₁ t →
        Conserved es₁ t) ↔
      ∀ es₁ a o es₂ t, es = es₁ ++ (a, o) :: es₂ → Run SQLiteQueue.step OneWorker fresh es₁ t →
        OwnID t a := by
  have hstep : ∀ es₁ a o es₂ t u, es = es₁ ++ (a, o) :: es₂ →
      Run SQLiteQueue.step OneWorker fresh es₁ t → Conserved es₁ t → OneWorker t a →
      t.step a = some (o, u) → (Conserved (es₁ ++ [(a, o)]) u ↔ OwnID t a) := by
    intro es₁ a o es₂ t u he ht hcons hok hs
    have hes : es = es₁ ++ [(a, o)] ++ es₂ := by simp [he]
    have hpast : ∀ e ∈ es₁ ++ [(a, o)], e ∈ es := by
      intro e hmem
      rw [hes]
      exact List.mem_append_left _ hmem
    have hadds' : adds (es₁ ++ [(a, o)]) < 2 ^ 31 - 1 := by
      rw [hes, adds_append] at hadds
      omega
    exact conserved_step_iff ht hadds' (fun e he => hrel e (hpast e he))
      (fun e he => hnul e (hpast e he)) hcons hok hs
  refine h.recorded_iff (I := Conserved) conserved_nil (fun _ _ hc => hc) ?_ ?_
  · intro es₁ a o es₂ t u he ht hcons hok hs
    exact (hstep es₁ a o es₂ t u he ht hcons hok hs).mpr
  · intro es₁ a o es₂ t u he ht hcons hok hs hno hu
    exact hno ((hstep es₁ a o es₂ t u he ht hcons hok hs).mp hu)

/-- A session that executes one task while a second one is added. -/
def exampleSession : List Action :=
  [.addTask .rowid listing, .start, .worker 0 .go, .worker 0 (.init .rowid),
    .worker 0 (.start true), .addTask .rowid listing, .worker 0 (.isRunning false),
    .worker 0 (.fin .rowid (some 0)), .worker 0 .go]

theorem exampleSession_runs : (script SQLiteQueue.step OneWorker fresh exampleSession).isSome := by
  decide +kernel

theorem no_task_lost_iff_exampleSession :
    let r := (script SQLiteQueue.step OneWorker fresh exampleSession).get exampleSession_runs
    (∀ es₁ es₂ t, r.1 = es₁ ++ es₂ → Run SQLiteQueue.step OneWorker fresh es₁ t →
        Conserved es₁ t) ↔
      ∀ es₁ a o es₂ t, r.1 = es₁ ++ (a, o) :: es₂ →
        Run SQLiteQueue.step OneWorker fresh es₁ t → OwnID t a :=
  no_task_lost_iff (Run.of_script exampleSession_runs) (by decide +kernel) (by decide +kernel)
    (by decide +kernel)

/-- A queue with one task, which has the ID 0. -/
def oneTask : SQLiteQueue := (fresh.call Env.rowid (addTask listing)).2

/-- **The task with the ID 0 is lost** when a client removes the ID `2^32`: it is in neither table
then, and nobody removed the ID 0. -/
theorem removeTask_loses_task :
    ∃ es q, Run SQLiteQueue.step OneWorker fresh es q ∧ adds es < 2 ^ 31 - 1 ∧
      (∀ e ∈ es, e.1.Reliable) ∧ (∀ e ∈ es, e.1.NulFree) ∧
      Added es 0 listing ∧ ¬ Conserved es q := by
  have hnil : Run SQLiteQueue.step OneWorker fresh [] fresh := .nil
  have hone : ∀ q : SQLiteQueue, OneWorker q (.removeTask Env.rowid (2 ^ 32)) :=
    fun _ hstart => by cases hstart
  have hadd : fresh.step (.addTask Env.rowid listing) = some (.task .OK { listing with ID := 0 },
      oneTask) := by
    have hout : (fresh.call Env.rowid (addTask listing)).1 = (.OK, { listing with ID := 0 }) := by
      decide +kernel
    simp only [SQLiteQueue.step, hout, oneTask]
  have h₁ := hnil.snoc (fun hstart => by cases hstart) hadd
  have hcons := (conserved_step_iff hnil (by decide) (by decide +kernel) (by decide +kernel)
    conserved_nil (fun hstart => by cases hstart) hadd).mpr trivial
  have hs : oneTask.step (.removeTask Env.rowid (2 ^ 32)) = some (_, _) := rfl
  refine ⟨_, _, h₁.snoc (hone oneTask) hs, by decide, by decide +kernel, by decide +kernel,
    ⟨Env.rowid, by simp⟩, fun hno => ?_⟩
  have hown := (conserved_step_iff h₁ (by decide) (by decide +kernel) (by decide +kernel) hcons
    (hone oneTask) hs).mp hno
  exact absurd hown (by decide +kernel)

end SimpleTaskQueue
