import SimpleTaskQueue.Core.SqliteHandles
import SimpleTaskQueue.Model.Dao.SQLiteQueue.File
/-!
# SimpleTaskQueue.Refinement.Handles

The one handle `m_token->stmt` of a queue over the operations of `SQLiteQueue`, `connectToDB`
included: each of them finds it null and leaves it null, and finalizes every statement it prepares,
once, however SQLite fails on the way (`Clean`).
-/

namespace SimpleTaskQueue

open Sqlite

/-! ### The operations -/

theorem clean_listIDInTable (name : TableName) : Clean (listIDInTable name) :=
  (clean_query _ _ _ _ _).bind fun _ => clean_pure _

theorem clean_taskDetails (name : TableName) (id : Int) (out : Task) :
    Clean (taskDetails name id out) := by
  refine (clean_query _ _ _ _ _).bind fun r => ?_
  cases r.2 with
  | some e => exact clean_pure _
  | none => exact (clean_pure _).ite (clean_pure _)

theorem clean_removeTaskFromPending (currentTask : Task) (id : Int) (check : Bool) :
    Clean (removeTaskFromPending currentTask id check) :=
  (clean_pure _).ite (clean_execute _ _ _ _ _)

theorem clean_getID (out : Int) : Clean (getID out) := by
  refine (clean_query _ _ _ _ _).bind fun r => ?_
  cases r.2 with
  | some e => exact clean_pure _
  | none => exact (clean_pure _).ite ((clean_execute _ _ _ _ _).bind fun _ => clean_pure _)

theorem clean_addTask (t : Task) : Clean (addTask t) :=
  (clean_getID t.ID).bind fun _ =>
    (clean_pure _).ite ((clean_execute _ _ _ _ _).bind fun _ => clean_pure _)

/-- `mainLoopInit` makes its calls one by one. -/
theorem clean_mainLoopInit : Clean mainLoopInit := by
  intro c _
  simp only [mainLoopInit, run_bind, run_ite, run_pure]
  rcases prepare_handles (.select .pending none none (some 1)) c with ⟨hp, htidy, hst⟩ | ⟨hp, huse⟩
  · rw [if_pos hp]
    exact ⟨rfl, 0, htidy.close hst⟩
  · rw [if_neg (by simp [hp])]
    have hnext := huse.step
    generalize step (N := TableName) _ = r at hnext
    obtain ⟨res, c₁⟩ := r
    cases res <;> exact ⟨rfl, 1, hnext.close⟩

theorem clean_mainLoopFin (currentTask : Task) (exitCode : Option Int) :
    Clean (mainLoopFin currentTask exitCode) := by
  cases exitCode with
  | none => exact clean_pure _
  | some n =>
      refine (clean_removeTaskFromPending _ _ _).bind fun code => (clean_pure _).ite ?_
      exact (clean_execute _ _ _ _ _).bind fun _ => (clean_pure _).ite (clean_pure _)

/-! ### Opening -/

theorem clean_verifyTable (name : TableName) : Clean (verifyTable name) := by
  refine (clean_query _ _ _ _ _).bind fun r => ?_
  cases r.2 with
  | some e => exact clean_pure _
  | none =>
      refine (clean_execute _ _ _ _ _).ite ((clean_pure _).ite ?_)
      refine (clean_query _ _ _ _ _).bind fun r => ?_
      cases r.2 with
      | some e => exact clean_pure _
      | none => exact (clean_pure _).ite (clean_pure _)

theorem clean_verifyID : Clean verifyID := by
  refine (clean_query _ _ _ _ _).bind fun r => ?_
  cases r.2 with
  | some e => exact clean_pure _
  | none =>
      refine Clean.ite ?_ ((clean_pure _).ite ?_)
      · exact (clean_execute _ _ _ _ _).bind fun _ => (clean_pure _).ite (clean_execute _ _ _ _ _)
      · refine (clean_query _ _ _ _ _).bind fun r => ?_
        cases r.2 with
        | some e => exact clean_pure _
        | none =>
            refine (clean_pure _).ite ((clean_query _ _ _ _ _).bind fun r => ?_)
            cases r.2 with
            | some e => exact clean_pure _
            | none => exact (clean_pure _).ite (clean_pure _)

theorem clean_connectToDB (opens : Bool) : Clean (connectToDB opens) := by
  refine (clean_pure _).ite ((clean_verifyTable _).bind fun rcPending => (clean_pure _).ite ?_)
  refine (clean_verifyTable _).bind fun rcDone => (clean_pure _).ite ?_
  exact clean_verifyID.bind fun rcID => (clean_pure _).ite ((clean_pure _).ite (clean_pure _))

end SimpleTaskQueue
