import SimpleTaskQueue.Core.SqliteRules
/-!
# SimpleTaskQueue.Core.SqliteGhost

**The ghost log is a ghost.** A connection records its calls and numbers its statements for the sake
of the proofs only. Connections that agree but for these (`SameView`) give the same results and go
on agreeing, whatever computation on a connection is run (`Blind`): the single calls do, and what
is put together from them.
-/

namespace Sqlite

open Conn

variable {N : Type} {ε τ β γ : Type}

/-- What the library knows of a statement. -/
def Stmt.view (st : Stmt N) : Sql N × (Nat → Value) × Option (List Record) :=
  (st.sql, st.params, st.cursor)

/-- The connections differ in the log and in the serial numbers only. -/
structure SameView (c c' : Conn N) : Prop where
  db : c.db = c'.db
  scan : c.scan = c'.scan
  faults : c.faults = c'.faults
  stmt : c.stmt.map Stmt.view = c'.stmt.map Stmt.view

/-- The computation does not look at the log and the serial numbers. -/
def Blind (m : SqliteM N β) : Prop :=
  ∀ c c', SameView c c' → (m c).1 = (m c').1 ∧ SameView (m c).2 (m c').2

section View

variable {c c' : Conn N}

theorem SameView.refl (c : Conn N) : SameView c c := ⟨rfl, rfl, rfl, rfl⟩

theorem SameView.fails (h : SameView c c') : c.fails = c'.fails := congrArg (·.headD false) h.faults

theorem SameView.after (h : SameView c c') (call call' : ApiCall) :
    SameView (c.after call) (c'.after call') :=
  ⟨h.db, h.scan, congrArg List.tail h.faults, h.stmt⟩

theorem SameView.given (h : SameView c c') (env : Env) : SameView (c.given env) (c'.given env) :=
  ⟨h.db, rfl, rfl, h.stmt⟩

/-- Both have the same statement, or none has. -/
theorem SameView.cases (h : SameView c c') : ∃ db scan faults n tr n' tr',
    c = ⟨db, none, scan, faults, n, tr⟩ ∧ c' = ⟨db, none, scan, faults, n', tr'⟩ ∨
    ∃ id id' q p rows, c = ⟨db, some ⟨id, q, p, rows⟩, scan, faults, n, tr⟩ ∧
      c' = ⟨db, some ⟨id', q, p, rows⟩, scan, faults, n', tr'⟩ := by
  obtain ⟨db, stmt, scan, faults, n, tr⟩ := c
  obtain ⟨db', stmt', scan', faults', n', tr'⟩ := c'
  obtain ⟨hdb, hscan, hfaults, hstmt⟩ := h
  dsimp only at hdb hscan hfaults hstmt
  subst hdb hscan hfaults
  refine ⟨db, scan, faults, n, tr, n', tr', ?_⟩
  cases stmt with
  | none =>
      obtain rfl := Option.map_eq_none_iff.mp hstmt.symm
      exact .inl ⟨rfl, rfl⟩
  | some st =>
      obtain ⟨⟨id, sql, params, cursor⟩, rfl, hview⟩ := Option.map_eq_some_iff.mp hstmt.symm
      simp only [Stmt.view, Prod.mk.injEq] at hview
      obtain ⟨rfl, rfl, rfl⟩ := hview
      exact .inr ⟨_, _, _, _, _, rfl, rfl⟩

theorem SameView.rowsLeft [DecidableEq N] (h : SameView c c') : c.rowsLeft = c'.rowsLeft := by
  obtain ⟨db, scan, faults, n, tr, n', tr', ⟨rfl, rfl⟩ | ⟨id, id', q, p, rows, rfl, rfl⟩⟩ :=
    h.cases <;> rfl

end View

/-! ### The single calls -/

theorem blind_prepare (q : Sql N) : Blind (prepare q) := by
  intro c c' h
  simp only [prepare, h.fails, h.db]
  split <;> exact ⟨rfl, ⟨rfl, h.scan, congrArg List.tail h.faults, rfl⟩⟩

theorem blind_bind (i : Nat) (v : Value) : Blind (bind i v : SqliteM N Bool) := by
  intro c c' h
  obtain ⟨db, scan, faults, n, tr, n', tr', ⟨rfl, rfl⟩ | ⟨id, id', q, p, rows, rfl, rfl⟩⟩ := h.cases
  · exact ⟨rfl, rfl, rfl, rfl, rfl⟩
  · rcases faults with - | ⟨- | -, faults⟩ <;> exact ⟨rfl, rfl, rfl, rfl, rfl⟩

theorem blind_close : Blind (close : SqliteM N Unit) :=
  fun _ _ h => ⟨rfl, h.db, h.scan, h.faults, rfl⟩

theorem blind_step [DecidableEq N] : Blind (step : SqliteM N StepResult) := by
  intro c c' h
  obtain ⟨db, scan, faults, n, tr, n', tr', ⟨rfl, rfl⟩ | ⟨id, id', q, p, rows, rfl, rfl⟩⟩ := h.cases
  · exact ⟨rfl, rfl, rfl, rfl, rfl⟩
  · by_cases hf : faults.headD false = true
    · simp only [Sqlite.step, Conn.fails, hf, if_true]
      exact ⟨trivial, rfl, rfl, rfl, rfl⟩
    · simp only [Sqlite.step, Conn.fails, hf]
      cases rows with
      | some rows => cases rows <;> exact ⟨rfl, rfl, rfl, rfl, rfl⟩
      | none =>
          -- the statement is evaluated
          dsimp only
          rcases q.eval scan p db with - | ⟨- | ⟨row, rows⟩, db'⟩ <;>
            exact ⟨rfl, rfl, rfl, rfl, rfl⟩

/-! ### The rules -/

theorem blind_pure (b : β) : Blind (pure b : SqliteM N β) := fun _ _ h => ⟨rfl, h⟩

theorem Blind.bind {m : SqliteM N β} {f : β → SqliteM N γ} (hm : Blind m) (hf : ∀ b, Blind (f b)) :
    Blind (m >>= f) := by
  intro c c' h
  obtain ⟨hres, hview⟩ := hm c c' h
  simp only [run_bind, hres]
  exact hf _ _ _ hview

theorem Blind.ite {p : Prop} [Decidable p] {m m' : SqliteM N β} (hm : Blind m) (hm' : Blind m') :
    Blind (if p then m else m') := by
  split
  · exact hm
  · exact hm'

theorem blind_bindAll (vals : List Value) (i : Nat) : Blind (bindAll i vals : SqliteM N Bool) := by
  induction vals generalizing i with
  | nil => exact blind_pure false
  | cons v vs ih =>
      unfold bindAll
      exact (blind_bind i v).bind fun b => (blind_pure true).ite (ih (i + 1))

variable [DecidableEq N]

theorem blind_fetch (f : τ → Record → τ × Option ε) (e : ε) (n : Nat) (s : τ) :
    Blind (fetch f e n s : SqliteM N (τ × Option ε)) := by
  induction n generalizing s with
  | zero => exact blind_pure _
  | succ n ih =>
      unfold fetch
      refine blind_step.bind fun r => ?_
      cases r with
      | row r =>
          dsimp only
          rcases f s r with ⟨s', - | e'⟩
          · exact ih s'
          · exact blind_pure _
      | done | error => exact blind_pure _

theorem blind_execute (q : Sql N) (vals : List Value) (early late ok : ε) :
    Blind (execute q vals early late ok) := by
  have hclose : ∀ r : ε, Blind (do close; pure r : SqliteM N ε) := fun r =>
    blind_close.bind fun _ => blind_pure r
  refine (blind_prepare q).bind fun b => (hclose early).ite ?_
  refine (blind_bindAll vals 1).bind fun b => (hclose early).ite ?_
  refine blind_step.bind fun r => ?_
  cases r with
  | done => exact hclose ok
  | row | error => exact hclose late

theorem blind_query (q : Sql N) (vals : List Value) (f : τ → Record → τ × Option ε) (s : τ)
    (e : ε) : Blind (query q vals f s e) := by
  have hclose : ∀ r : τ × Option ε, Blind (do close; pure r : SqliteM N (τ × Option ε)) :=
    fun r => blind_close.bind fun _ => blind_pure r
  refine (blind_prepare q).bind fun b => (hclose _).ite ?_
  refine (blind_bindAll vals 1).bind fun b => (hclose _).ite ?_
  intro c c' h
  simp only [run_bind, run_get, h.rowsLeft]
  exact ((blind_fetch f e _ s).bind hclose) c c' h

end Sqlite
