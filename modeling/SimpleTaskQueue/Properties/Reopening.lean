import SimpleTaskQueue.Refinement.File
/-!
# SimpleTaskQueue.Properties.Reopening

**A queue database can always be reopened.** `connectToDB` accepts the file of a queue whatever
was done to it, however SQLite failed and wherever the program stopped in between. It leaves the
file as it is, and the next task gets the ID that is stored there.
-/

namespace SimpleTaskQueue

open Sqlite Runs QueueFile

variable {f₀ f : QueueFile} {es : List (FileAction × FileOutput)}

theorem reopen_content (h₀ : f₀.Created) (h : Run QueueFile.step anyAction f₀ es f) (env : Env) :
    (connectToDB true ((Conn.open f.content).given env)).2.db = f.content := by
  obtain ⟨n, ⟨L, hL, -⟩, -⟩ := h₀.run_stored h
  refine (keeps_connectToDB (fun name => ?_) true ((Conn.open f.content).given env) rfl).1
  rw [hL]
  cases name <;> rfl

/-- **Reopening a queue database**: `connectToDB` returns 0 unless a call of SQLite fails, and
never changes the content. The first task that is then added gets the stored value of `lastID`,
and so does every later one. -/
theorem reopen_database (h₀ : f₀.Created) (h : Run QueueFile.step anyAction f₀ es f) (env : Env) :
    let r := connectToDB true ((Conn.open f.content).given env)
    (env.Reliable → r.1 = 0) ∧ r.2.db = f.content ∧
      ∀ es' c, Run QueueFile.step anyAction (.opened r.2) es' (.opened c) →
        ∀ env' t, (addTask t (c.given env')).1.1 = .OK →
          storedID c.db = some (addTask t (c.given env')).1.2.ID ∧
          ((∀ e ∈ es', e.1.isAddTask = false) →
            storedID f.content = some (addTask t (c.given env')).1.2.ID) := by
  intro r
  have hdb : r.2.db = f.content := reopen_content h₀ h env
  obtain ⟨n, hn, hint⟩ := h₀.run_stored h
  refine ⟨fun henv => ?_, hdb, fun es' c h' env' t hok => ?_⟩
  · obtain ⟨L, hL, -⟩ := hn
    exact connectToDB_reliable (c := (Conn.open f.content).given env) henv
      (.inl (hL ▸ accepted_ledgerDB L))
  · have hr : Stored n (QueueFile.opened r.2).content := by
      show Stored n r.2.db
      rw [hdb]
      exact hn
    obtain ⟨m, hm, hmint⟩ := run_stored hr hint h'
    obtain ⟨-, ⟨hrc, -⟩ | ⟨hres, -⟩⟩ := addTask_stored (c := c.given env') hm hmint t
    · exact absurd hok hrc
    · rw [hres]
      refine ⟨hm.storedID, fun hadd => ?_⟩
      -- without an `addTask` the counter still stands where it was found
      have hsame := run_stored_same hr hint (h'.of_forall hadd)
      obtain rfl : n = m := Option.some.inj (hsame.storedID.symm.trans hm.storedID)
      exact hn.storedID

/-- The program dies in the second `addTask`, between the update of `lastID` and the `insert`. -/
def dyingAddTask : List FileAction :=
  [.call Env.rowid (.addTask listing), .die Env.rowid (.addTask listing) 10]

theorem dyingAddTask_runs : (script QueueFile.step anyAction (.opened SQLiteQueue.fresh.mToken)
    dyingAddTask).isSome = true := by
  decide +kernel

/-- After this the file is opened again, and the next task gets the ID 2. -/
theorem reopen_dyingAddTask :
    ∃ es f, Run QueueFile.step anyAction (.opened SQLiteQueue.fresh.mToken) es f ∧
      (connectToDB true ((Conn.open f.content).given Env.rowid)).1 = 0 ∧
      storedID f.content = some 2 ∧
      (addTask listing ((connectToDB true ((Conn.open f.content).given Env.rowid)).2.given
        Env.rowid)).1 = (.OK, { listing with ID := 2 }) := by
  have hreopen := reopen_database SQLiteQueue.created_fresh (Run.of_script dyingAddTask_runs)
    Env.rowid
  exact ⟨_, _, Run.of_script dyingAddTask_runs, hreopen.1 (by simp [Env.Reliable, Env.rowid]),
    by decide +kernel, by decide +kernel⟩

end SimpleTaskQueue
