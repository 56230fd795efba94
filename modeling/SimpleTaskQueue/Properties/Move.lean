import SimpleTaskQueue.Refinement.Operations
/-!
# SimpleTaskQueue.Properties.Move

**Moving a finished task** from `pending` to `done`: a `DELETE` and an `INSERT` without a
transaction around them. For every pattern of failing SQLite calls, and for every moment
between two calls at which the process can die (the contents in the ghost log), where is the
task?

It is never in both tables, and in neither exactly from the moment the `DELETE` takes effect
until the `INSERT` does. The one pattern left out is that the step of the `DELETE` fails: it is
reported as `NOT_FOUND`, and `mainLoopFin` goes on.
-/

namespace SimpleTaskQueue

open Sqlite Sqlite.Conn

variable {L : QueueLedger} {c : Conn TableName} {d : QueueDB} {cur : Task} {id : Int}
  {exitCode : Option Int}

/-- The table has a row with that ID. -/
def inTable (d : QueueDB) (t : TableName) (id : Int) : Bool :=
  (d t).any fun tb => tb.rows.any fun r => r.getD 3 .null == .int id

/-- Where a task is, as a pair of answers: in `pending`, in `done`. -/
def whereabouts (d : QueueDB) (id : Int) : Bool × Bool :=
  (inTable d .pending id, inTable d .done id)

/-- Still waiting. -/
def Waits (d : QueueDB) (id : Int) : Prop := whereabouts d id = (true, false)

/-- Finished. -/
def Finishes (d : QueueDB) (id : Int) : Prop := whereabouts d id = (false, true)

/-- In neither table. -/
def Nowhere (d : QueueDB) (id : Int) : Prop := whereabouts d id = (false, false)

instance (d : QueueDB) (id : Int) : Decidable (Waits d id) := inferInstanceAs (Decidable (_ = _))

instance (d : QueueDB) (id : Int) : Decidable (Nowhere d id) := inferInstanceAs (Decidable (_ = _))

theorem taskTable_any (rows : List Row) (id : Int) :
    ((taskTable rows).rows.any fun r => r.getD 3 .null == .int id) =
      rows.any fun row => row.ID == id := by
  rw [taskTable, List.any_map]
  refine List.any_congr rfl fun row => ?_
  show (Value.int row.ID == .int id) = (row.ID == id)
  by_cases h : row.ID = id <;> simp [h]

theorem whereabouts_ledgerDB (L : QueueLedger) (id : Int) :
    whereabouts (ledgerDB L) id =
      (L.pending.any fun row => row.ID == id, L.done.any fun row => row.ID == id) :=
  Prod.ext (taskTable_any L.pending id) (taskTable_any L.done id)

/-- Once the `DELETE` took effect the task is gone, and in `done` only after the `INSERT`. -/
theorem nowhere_dropID (h : Waits (ledgerDB L) id) : Nowhere (ledgerDB (dropID L id)) id := by
  rw [Waits, whereabouts_ledgerDB, Prod.mk.injEq] at h
  rw [Nowhere, whereabouts_ledgerDB, Prod.mk.injEq]
  refine ⟨?_, h.2⟩
  simp [Ledger.drop]

theorem finishes_moved (row : Row) (hrow : row.ID = id) :
    Finishes (ledgerDB ((dropID L id).finish row)) id := by
  rw [Finishes, whereabouts_ledgerDB]
  simp [Ledger.drop, Ledger.finish, hrow]

/-- What is left of the task where `mainLoopFin` ends. -/
def LeftBy (d : QueueDB) (id : Int) : FinResult → Prop
  | .noExitCode | .notRemoved => Waits d id
  | .notAdded => Nowhere d id
  | .moved => Finishes d id

/-- **The move of a finished task**, for every pattern of failures in which the step of the
`DELETE`, the third failable call, does not fail. The result tells where the task is then; and
at every moment in between it is in exactly one table, unless the `DELETE` took effect and the
`INSERT` did not. -/
theorem move_spec (hdb : c.db = ledgerDB L) (hwait : Waits c.db (toInt32 cur.ID))
    (hstep : c.faults.getD 2 false = false) :
    let r := mainLoopFin cur exitCode c
    LeftBy r.2.db (toInt32 cur.ID) r.1 ∧
      Since (fun d => Waits d (toInt32 cur.ID) ∨
        d = ledgerDB (dropID L (toInt32 cur.ID)) ∧ Nowhere d (toInt32 cur.ID) ∨
        Finishes d (toInt32 cur.ID)) c r.2 := by
  intro r
  have hwait' := hwait
  rw [hdb] at hwait'
  cases exitCode with
  | none => exact ⟨hwait, Since.refl _ c⟩
  | some n =>
      have hgone := nowhere_dropID hwait'
      have hdone : Finishes (ledgerDB ((dropID L (toInt32 cur.ID)).finish (finishedRow cur n)))
          (toInt32 cur.ID) := finishes_moved (finishedRow cur n) rfl
      obtain ⟨hres, hfin⟩ := mainLoopFin_spec hdb cur n
      -- the contents in between, given the last one
      have hsince : ∀ {P : QueueDB → Prop}, P (ledgerDB L) →
          P (ledgerDB (dropID L (toInt32 cur.ID))) → P r.2.db → Since P c r.2 := by
        intro P h₁ h₂ h₃
        refine hfin.since.mono fun d h => ?_
        rcases h with rfl | rfl | rfl
        · exact h₁
        · exact h₂
        · exact h₃
      rcases hres with ⟨hr, hd, -⟩ | ⟨-, -, hf⟩ | ⟨-, -, hf, -⟩ | ⟨hr, hd, -⟩ | ⟨hr, hd, -⟩
      · refine ⟨by rw [show r.1 = _ from hr]; exact hd ▸ hwait', ?_⟩
        exact hsince (.inl hwait') (.inr (.inl ⟨rfl, hgone⟩)) (.inl (hd ▸ hwait'))
      · -- in these two the step of the `DELETE` failed
        rw [hstep] at hf
        cases hf
      · rw [hstep] at hf
        cases hf
      · refine ⟨by rw [show r.1 = _ from hr]; exact hd ▸ hgone, ?_⟩
        exact hsince (.inl hwait') (.inr (.inl ⟨rfl, hgone⟩)) (.inr (.inl ⟨hd, hd ▸ hgone⟩))
      · refine ⟨by rw [show r.1 = _ from hr]; exact hd ▸ hdone, ?_⟩
        exact hsince (.inl hwait') (.inr (.inl ⟨rfl, hgone⟩)) (.inr (.inr (hd ▸ hdone)))

/-- One task, waiting to be moved. -/
def oneWaiting : QueueLedger := ⟨[addedRow listing 0], [], 1⟩

theorem move_spec_oneWaiting :
    let c := Conn.open (ledgerDB oneWaiting)
    let r := mainLoopFin listing (some 0) c
    LeftBy r.2.db 0 r.1 ∧
      Since (fun d => Waits d 0 ∨ d = ledgerDB (dropID oneWaiting 0) ∧ Nowhere d 0 ∨
        Finishes d 0) c r.2 :=
  @move_spec _ _ listing (some 0) rfl (by decide +kernel) (by decide +kernel)

/-- If the `INSERT` cannot be prepared, or the process dies just before it, the task is in
neither table. -/
theorem move_can_lose_task :
    let c := Conn.open (ledgerDB oneWaiting)
    Waits c.db 0 ∧
      Nowhere (mainLoopFin listing (some 0) { c with faults := [false, false, false, true] }).2.db
        0 ∧
      ∃ e ∈ (mainLoopFin listing (some 0) c).2.trace, Nowhere e.2 0 := by
  decide +kernel

end SimpleTaskQueue
