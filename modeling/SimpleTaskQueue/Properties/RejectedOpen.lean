import SimpleTaskQueue.Model.Dao.SQLiteQueue.File
import SimpleTaskQueue.Refinement.OpeningCalls
/-!
# SimpleTaskQueue.Properties.RejectedOpen

**Does a rejected open change the file?** It does when one of the tables is missing: the checks
create what is missing before `connectToDB` compares their answers, and behind an accepted
`pending` it goes on after a check that failed. So a file with some of the tables is rejected
once, and accepted at the next attempt.
-/

namespace SimpleTaskQueue

open Sqlite Sqlite.Conn Runs

variable {db : QueueDB} {c : Conn TableName}

/-- The checks leave a file alone, or accept it: no call creates a table, with one exception, the
file in which all three tables are created.

The numbers are those of the SQLite calls. The check of `pending` takes 5 calls if the table is
missing, and 12 to accept it; of `done` it takes 5 calls to create the table, and of `lastID` 4, and
2 more to fill it. -/
def Untouched (db : QueueDB) (faults : List Bool) : Prop :=
  (db .pending = none →
    ¬ Lasts 5 faults ∨ db .done = none ∧ db .lastID = none ∧ Lasts 16 faults) ∧
  ∀ tb ∈ db .pending, TaskTable tb → Lasts 12 faults →
    (db .done = none → ¬ Lasts 5 (rest 12 faults)) ∧
    (db .lastID = none → ¬ Lasts 4 (rest (verifyCalls (db .done)) (rest 12 faults)))

instance (db : QueueDB) (faults : List Bool) : Decidable (Untouched db faults) :=
  inferInstanceAs (Decidable (_ ∧ _))

/-- The two checks behind the one of `pending`. -/
theorem checks_keep_iff (c : Conn TableName) :
    (verifyID (verifyTable .done c).2).2.db = c.db ↔
      (c.db .done = none → ¬ Lasts 5 c.faults) ∧
      (c.db .lastID = none → ¬ Lasts 4 (rest (verifyCalls (c.db .done)) c.faults)) := by
  have hfaults := (counted_verifyTable .done c).faults
  have hlast : (verifyTable .done c).2.db .lastID = c.db .lastID := verifyTable_frame (by decide)
  rw [← verifyTable_db_iff, ← hfaults, ← hlast, ← verifyID_db_iff]
  generalize verifyTable .done c = r at hlast
  refine ⟨fun h => ?_, fun ⟨hD, hI⟩ => hI.trans hD⟩
  have hD : r.2.db = c.db := by
    funext t
    by_cases ht : t = .lastID
    · rw [ht, hlast]
    · rw [← h, verifyID_frame ht]
  exact ⟨hD, h.trans hD.symm⟩

/-- An answer 0 means that nothing was created. -/
theorem checks_zero (hD : (verifyTable .done c).1 = 0)
    (hI : (verifyID (verifyTable .done c).2).1 = 0) :
    (verifyID (verifyTable .done c).2).2.db = c.db := by
  have hD' := (verifyTable_spec .done c).2
  have hI' := (verifyID_spec (verifyTable .done c).2).2
  rw [hD] at hD'
  rw [hI] at hI'
  cases hD' with
  | accepted _ _ hdb =>
      cases hI' with
      | accepted _ _ hdb' => exact hdb'.trans hdb

/-- Behind a created `pending` a rejection comes too late. -/
theorem created_untouched_iff (hP : (verifyTable .pending c).1 = 2)
    (hnone : c.db .pending = none) (hthere : (verifyTable .pending c).2.db .pending ≠ none) :
    ((connectToDB true c).1 = 1 → (connectToDB true c).2.db = c.db) ↔
      (verifyTable .done (verifyTable .pending c).2).1 = 2 ∧
        (verifyID (verifyTable .done (verifyTable .pending c).2).2).1 = 2 := by
  rw [connectToDB_run, hP, if_neg (by decide)]
  generalize verifyTable .pending c = rP at hthere
  have hne : (verifyID (verifyTable .done rP.2).2).2.db ≠ c.db := by
    intro h
    have hpending := congrFun h .pending
    rw [verifyID_frame (by decide), verifyTable_frame (by decide), hnone] at hpending
    exact hthere hpending
  generalize verifyTable .done rP.2 = rD at hne
  generalize verifyID rD.2 = rI at hne
  split
  · next hdiffer => exact ⟨fun h => absurd (h rfl) hne, fun h => by omega⟩
  · next hagree => exact ⟨fun _ => by omega, fun _ h => by cases h⟩

/-- Behind an accepted `pending` the two other checks decide. -/
theorem accepted_untouched_iff (hP : (verifyTable .pending c).1 = 0)
    (hdb : (verifyTable .pending c).2.db = c.db) :
    ((connectToDB true c).1 = 1 → (connectToDB true c).2.db = c.db) ↔
      (verifyID (verifyTable .done (verifyTable .pending c).2).2).2.db =
        (verifyTable .pending c).2.db := by
  rw [connectToDB_run, hP, if_neg (by decide), ← hdb]
  generalize verifyTable .pending c = rP
  split
  · exact ⟨fun h => h rfl, fun h _ => h⟩
  · next hagree => exact ⟨fun _ => checks_zero (by omega) (by omega), fun _ h => by cases h⟩

/-- **One attempt.** -/
theorem connectToDB_untouched_iff (c : Conn TableName) :
    ((connectToDB true c).1 = 1 → (connectToDB true c).2.db = c.db) ↔ Untouched c.db c.faults := by
  have hcount := counted_verifyTable .pending c
  unfold Untouched
  cases htb : c.db .pending with
  | none =>
      rw [htb] at hcount
      simp only [forall_const, Option.not_mem_none, false_implies, implies_true, and_true]
      by_cases h₅ : Lasts 5 c.faults
      · -- `pending` is created, and stays
        obtain ⟨h2, hdb⟩ := hcount.ok h₅
        have hfaults : (verifyTable .pending c).2.faults = rest 5 c.faults := hcount.faults
        rw [withTable, if_pos htb] at hdb
        have hsplit : Lasts 16 c.faults ↔ Lasts 5 c.faults ∧ Lasts 11 (rest 5 c.faults) :=
          lasts_add (n := 5) (m := 11)
        rw [created_untouched_iff h2 htb (by rw [hdb, Function.update_self]; simp), checks_two_iff,
          hfaults, hdb, Function.update_of_ne (by decide), Function.update_of_ne (by decide),
          hsplit]
        simp only [h₅, not_true, false_or, true_and]
      · obtain ⟨h1, hdb⟩ := hcount.err h₅
        rw [connectToDB_run, if_pos h1]
        exact ⟨fun _ => .inl h₅, fun _ _ => hdb⟩
  | some tb =>
      rw [htb] at hcount
      simp only [reduceCtorEq, false_implies, Option.mem_def, Option.some.injEq, forall_eq',
        true_and]
      have hwith : withTable .pending c.db = c.db := if_neg (by simp [htb])
      by_cases hok : TaskTable tb ∧ Lasts 12 c.faults
      · -- `pending` is accepted
        obtain ⟨htask, h₁₂⟩ := hok
        rw [verifyCalls_taskTable htask] at hcount
        obtain ⟨h0, hdb⟩ := hcount.ok h₁₂
        rw [verdict, if_pos htask] at h0
        rw [accepted_untouched_iff h0 (hdb.trans hwith), checks_keep_iff, hcount.faults,
          hdb.trans hwith]
        exact ⟨fun h _ _ => h, fun h => h htask h₁₂⟩
      · -- `pending` is rejected, or a call fails
        obtain ⟨h1, hdb⟩ : (verifyTable .pending c).1 = 1 ∧
            (verifyTable .pending c).2.db = c.db := by
          by_cases hn : Lasts (verifyCalls (some tb)) c.faults
          · have htask : ¬ TaskTable tb := fun htask =>
              hok ⟨htask, verifyCalls_taskTable htask ▸ hn⟩
            obtain ⟨hv, hdb⟩ := hcount.ok hn
            exact ⟨hv.trans (verdict_eq_one.mpr ⟨tb, rfl, htask⟩), hdb.trans hwith⟩
          · exact hcount.err hn
        rw [connectToDB_run, if_pos h1]
        exact ⟨fun _ htask h₁₂ => absurd ⟨htask, h₁₂⟩ hok, fun _ _ => hdb⟩

/-! ### Repeated attempts -/

/-- Some of the tables are there, but not all. -/
def Partial (db : QueueDB) : Prop := (∃ t, db t ≠ none) ∧ ∃ t, db t = none

/-- An attempt to open a file that leaves it alone. -/
def Careful (f : QueueFile) (a : FileAction) : Prop :=
  match f, a with
  | .closed db, .connectToDB env opens => opens = true → Untouched db env.faults
  | _, _ => False

theorem not_partial_of_accepted (h : Accepted db) : ¬ Partial db := by
  rintro ⟨-, t, ht⟩
  obtain ⟨⟨tP, hP, -⟩, ⟨tD, hD, -⟩, ⟨tI, hI, -⟩⟩ := h
  cases t with
  | pending =>
      rw [hP] at ht
      cases ht
  | done =>
      rw [hD] at ht
      cases ht
  | lastID =>
      rw [hI] at ht
      cases ht

theorem connectToDB_partial (h : Partial c.db) (opens : Bool) : (connectToDB opens c).1 = 1 := by
  cases opens with
  | false => rfl
  | true =>
      have hne : (connectToDB true c).1 ≠ 0 := fun h0 => by
        obtain ⟨hacc, hsame | ⟨hempty, -⟩⟩ := connectToDB_spec c h0
        · exact not_partial_of_accepted (hsame ▸ hacc) h
        · obtain ⟨⟨t, ht⟩, -⟩ := h
          rw [hempty] at ht
          exact ht rfl
      rw [connectToDB_run] at hne ⊢
      split
      · rfl
      · next hP =>
        rw [if_neg hP] at hne
        split at hne
        · next hdiffer => rw [if_pos hdiffer]
        · exact absurd rfl hne

/-- **What a rejected open changes.** For every content of the file and every pattern of failing
calls: an attempt that `connectToDB` rejects leaves the content alone if and only if the file cannot
be opened at all or the checks leave it alone. As long as the attempts meet this condition, a file
with some of the tables is rejected each time. -/
theorem rejected_open_iff (db : QueueDB) (env : Env) (opens : Bool) :
    (((connectToDB opens ((Conn.open db).given env)).1 = 1 →
        (connectToDB opens ((Conn.open db).given env)).2.db = db) ↔
      (opens = true → Untouched db env.faults)) ∧
    (Partial db → ∀ es f, Run QueueFile.step Careful (.closed db) es f →
      f = .closed db ∧ ∀ e ∈ es, e.2 = .connected 1) := by
  have hone : ∀ db env opens, (((connectToDB opens ((Conn.open db).given env)).1 = 1 →
      (connectToDB opens ((Conn.open db).given env)).2.db = db) ↔
      (opens = true → Untouched db env.faults)) := by
    intro db env opens
    cases opens with
    | false => exact ⟨fun _ h => (by cases h), fun _ _ => rfl⟩
    | true => exact (connectToDB_untouched_iff _).trans ⟨fun h _ => h, fun h => h rfl⟩
  refine ⟨hone db env opens, fun hpartial es f hrun => ?_⟩
  induction hrun with
  | nil => exact ⟨rfl, by simp⟩
  | @snoc es t u a o _ hok hs ih =>
      obtain ⟨rfl, hes⟩ := ih
      cases a with
      | connectToDB env opens =>
          have h1 := connectToDB_partial (c := (Conn.open db).given env) hpartial opens
          simp only [QueueFile.step, Option.some.injEq, Prod.mk.injEq] at hs
          obtain ⟨rfl, rfl⟩ := hs
          have hsame := (hone db env opens).mpr hok h1
          rw [if_neg (by rw [h1]; decide), hsame]
          refine ⟨rfl, fun e he => ?_⟩
          rcases List.mem_append.mp he with he | he
          · exact hes e he
          · obtain rfl := List.mem_singleton.mp he
            exact congrArg FileOutput.connected h1
      | _ => exact absurd hok id

/-- A file with a table `pending` of another program. -/
def foreignPending : QueueDB :=
  Function.update emptyDB .pending (some ⟨[⟨"title", "TEXT", false, false⟩], []⟩)

theorem foreignPending_partial : Partial foreignPending :=
  ⟨⟨.pending, by decide⟩, .done, by decide⟩

theorem rejected_open_iff_foreignPending :
    (((connectToDB true ((Conn.open foreignPending).given .rowid)).1 = 1 →
        (connectToDB true ((Conn.open foreignPending).given .rowid)).2.db = foreignPending) ↔
      (true = true → Untouched foreignPending [])) ∧
    ∃ o f, Run QueueFile.step Careful (.closed foreignPending)
      [(.connectToDB .rowid true, o)] f ∧ f = .closed foreignPending ∧ o = .connected 1 := by
  obtain ⟨hone, hall⟩ := rejected_open_iff foreignPending .rowid true
  have huntouched : Untouched foreignPending [] := by decide +kernel
  have hcareful : Careful (.closed foreignPending) (.connectToDB .rowid true) :=
    fun _ => huntouched
  have hrun := Run.single hcareful
    (show QueueFile.step (.closed foreignPending) (.connectToDB .rowid true) = some _ from rfl)
  obtain ⟨hf, ho⟩ := hall foreignPending_partial _ _ hrun
  exact ⟨hone, _, _, hrun, hf, ho _ (List.mem_singleton_self _)⟩

/-- The file of a program that died in its first `connectToDB`. -/
def onlyPending : QueueDB := Function.update emptyDB .pending (some ⟨taskColumns, []⟩)

/-- It is opened twice. -/
def openTwice : List FileAction := [.connectToDB .rowid true, .connectToDB .rowid true]

theorem openTwice_runs :
    (script QueueFile.step anyAction (.closed onlyPending) openTwice).isSome = true := by
  decide +kernel

/-- The first attempt is rejected and creates the two other tables, the second one is accepted. -/
theorem partial_accepted_later :
    Partial onlyPending ∧
    ((connectToDB true ((Conn.open onlyPending).given .rowid)).1 = 1 ∧
      (connectToDB true ((Conn.open onlyPending).given .rowid)).2.db ≠ onlyPending) ∧
    ∃ es f, Run QueueFile.step anyAction (.closed onlyPending) es f ∧
      es.map Prod.snd = [.connected 1, .connected 0] := by
  refine ⟨⟨⟨.pending, by decide⟩, .done, by decide⟩, ⟨by decide +kernel, fun h => ?_⟩,
    _, _, Run.of_script openTwice_runs, by decide +kernel⟩
  have hdone := congrFun h .done
  exact absurd hdone (by decide +kernel)

end SimpleTaskQueue
