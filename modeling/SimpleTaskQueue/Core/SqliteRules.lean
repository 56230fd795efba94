import SimpleTaskQueue.Core.Sqlite
/-!
# SimpleTaskQueue.Core.SqliteRules

What the two uses of a prepared statement can do, for **every** pattern of failing
calls: `execute_spec` for a statement run once, `query_spec` for a loop over rows.
Callers cite these two and never look at single calls again.

Both say the same four things: which results are possible and what the database is
then; that the handle is null again; that the ghost log grew only by contents
satisfying a given predicate (this is what crash arguments use); and that on a
connection without faults the statement does what its denotation says.
-/

namespace Sqlite

variable {N : Type} {ε τ β γ : Type}

/-! ### Running computations -/

theorem run_bind (m : SqliteM N β) (f : β → SqliteM N γ) (c : Conn N) :
    (m >>= f) c = f (m c).1 (m c).2 := rfl

theorem run_pure (b : β) (c : Conn N) : (pure b : SqliteM N β) c = (b, c) := rfl

theorem run_get (c : Conn N) : (get : SqliteM N (Conn N)) c = (c, c) := rfl

theorem run_ite (p : Prop) [Decidable p] (m m' : SqliteM N β) (c : Conn N) :
    (if p then m else m') c = if p then m c else m' c := by
  split <;> rfl

/-! ### The ghost log -/

namespace Conn

/-- Between `c` and `c'` only contents satisfying `P` were logged. -/
def Since (P : Database N → Prop) (c c' : Conn N) : Prop :=
  ∃ new, c'.trace = new ++ c.trace ∧ ∀ e ∈ new, P e.2

variable {P Q : Database N → Prop} {c c' c'' : Conn N}

theorem Since.refl (P : Database N → Prop) (c : Conn N) : Since P c c := ⟨[], rfl, by simp⟩

theorem Since.mono (h : Since P c c') (hPQ : ∀ d, P d → Q d) : Since Q c c' := by
  obtain ⟨new, ht, hn⟩ := h
  exact ⟨new, ht, fun e he => hPQ _ (hn e he)⟩

theorem Since.trans (h : Since P c c') (h' : Since P c' c'') : Since P c c'' := by
  obtain ⟨new, ht, hn⟩ := h
  obtain ⟨new', ht', hn'⟩ := h'
  refine ⟨new' ++ new, by rw [ht', ht, List.append_assoc], fun e he => ?_⟩
  rcases List.mem_append.mp he with he | he
  · exact hn' e he
  · exact hn e he

/-- `c'` is `c` after `n` failable calls that left the database alone. -/
structure Working (n : Nat) (c c' : Conn N) : Prop where
  db : c'.db = c.db
  scan : c'.scan = c.scan
  faults : c'.faults = c.faults.drop n
  since : Since (· = c.db) c c'

/-- `c'` is `c` after complete calls: the handle is null, part of the faults is used up. -/
structure Finished (P : Database N → Prop) (c c' : Conn N) : Prop where
  stmt : c'.stmt = none
  scan : c'.scan = c.scan
  faults : ∃ n, c'.faults = c.faults.drop n
  since : Since P c c'

theorem Working.trans {n m : Nat} (h : Working n c c') (h' : Working m c' c'') :
    Working (n + m) c c'' where
  db := h'.db.trans h.db
  scan := h'.scan.trans h.scan
  faults := by rw [h'.faults, h.faults, List.drop_drop]
  since := h.since.trans (h.db ▸ h'.since)

theorem Reliable.drop (h : c.Reliable) {n : Nat} (hf : c'.faults = c.faults.drop n) :
    c'.Reliable := by
  intro b hb
  rw [hf] at hb
  exact h b (List.mem_of_mem_drop hb)

theorem Reliable.fails (h : c.Reliable) : c.fails = false := by
  unfold Conn.fails
  cases hf : c.faults with
  | nil => rfl
  | cons b bs => exact h b (by simp [hf])

theorem not_reliable_of_fails (h : c.fails = true) : ¬ c.Reliable := by
  intro hc
  rw [hc.fails] at h
  cases h

theorem not_reliable_of_getD {n : Nat} (h : c.faults.getD n false = true) : ¬ c.Reliable := by
  intro hc
  rw [List.getD_eq_getElem?_getD] at h
  cases hg : c.faults[n]? with
  | none => simp [hg] at h
  | some b =>
      obtain rfl : b = true := by simpa [hg] using h
      simpa using hc true (List.mem_of_getElem? hg)

theorem Finished.reliable (h : Finished P c c') (hc : c.Reliable) : c'.Reliable := by
  obtain ⟨n, hn⟩ := h.faults
  exact hc.drop hn

theorem Finished.mono (h : Finished P c c') (hPQ : ∀ d, P d → Q d) : Finished Q c c' :=
  { h with since := h.since.mono hPQ }

theorem Finished.trans (h : Finished P c c') (h' : Finished P c' c'') : Finished P c c'' where
  stmt := h'.stmt
  scan := h'.scan.trans h.scan
  faults := by
    obtain ⟨n, hn⟩ := h.faults
    obtain ⟨m, hm⟩ := h'.faults
    exact ⟨n + m, by rw [hm, hn, List.drop_drop]⟩
  since := h.since.trans h'.since

theorem Finished.refl (P : Database N → Prop) (hc : c.stmt = none) : Finished P c c :=
  ⟨hc, rfl, ⟨0, rfl⟩, Since.refl P c⟩

/-- One logged call that keeps the database. -/
theorem working_after (c : Conn N) (st : Option (Stmt N)) (k : Nat) (call : ApiCall) :
    Working 1 c ({ c with stmt := st, prepared := k }.after call) where
  db := rfl
  scan := rfl
  faults := by simp [Conn.after]
  since := ⟨[(call, c.db)], rfl, by simp⟩

end Conn

open Conn

/-! ### The single calls -/

/-- What a `prepare` does: it fails and leaves the handle null, or the statement is ready. -/
theorem prepare_spec (q : Sql N) (c : Conn N) :
    ((prepare q c).1 = true ∧ (c.fails = true ∨ q.compiles c.db = false) ∨
      (prepare q c).1 = false ∧ c.fails = false ∧ q.compiles c.db = true ∧
        (prepare q c).2.stmt = some ⟨c.prepared, q, fun _ => .null, none⟩) ∧
    Working 1 c (prepare q c).2 := by
  unfold prepare
  by_cases h : (c.fails || !q.compiles c.db) = true
  · rw [if_pos h]
    refine ⟨.inl ⟨rfl, by simpa using h⟩, ?_⟩
    exact working_after c none c.prepared _
  · rw [if_neg h]
    simp only [Bool.or_eq_true, Bool.not_eq_true', not_or, Bool.not_eq_true,
      Bool.not_eq_false] at h
    exact ⟨.inr ⟨rfl, h.1, h.2, rfl⟩, working_after c _ _ _⟩

theorem bind_spec {st : Stmt N} {c : Conn N} (hst : c.stmt = some st) (i : Nat) (v : Value) :
    ((bind i v c).1 = true ∧ c.fails = true ∨
      (bind i v c).1 = false ∧ c.fails = false ∧
        (bind i v c).2.stmt = some { st with params := Function.update st.params i v }) ∧
    Working 1 c (bind i v c).2 := by
  unfold bind
  rw [hst]
  by_cases h : c.fails = true
  · simp only [h, if_true]
    exact ⟨.inl ⟨trivial, trivial⟩, working_after c c.stmt c.prepared _⟩
  · simp only [h, Bool.false_eq_true, if_false]
    exact ⟨.inr ⟨trivial, trivial, rfl⟩, working_after c _ c.prepared _⟩

/-- The parameters after binding `vals` from position `i` on. -/
def bound : Nat → List Value → (Nat → Value) → Nat → Value
  | _, [], p => p
  | i, v :: vs, p => bound (i + 1) vs (Function.update p i v)

/-- The parameters a statement runs with: `vals` from position 1 on, `NULL` elsewhere. -/
def params (vals : List Value) : Nat → Value := bound 1 vals fun _ => .null

theorem bindAll_spec (vals : List Value) : ∀ {i : Nat} {st : Stmt N} {c : Conn N},
    c.stmt = some st →
    ((bindAll i vals c).1 = true ∧ ¬ c.Reliable ∨
      (bindAll i vals c).1 = false ∧
        (bindAll i vals c).2.stmt = some { st with params := bound i vals st.params }) ∧
    ∃ n, Working n c (bindAll i vals c).2 ∧
      ((bindAll i vals c).1 = false → n = vals.length) := by
  induction vals with
  | nil =>
      intro i st c hst
      refine ⟨.inr ⟨rfl, hst⟩, 0, ⟨rfl, rfl, rfl, Since.refl _ c⟩, fun _ => rfl⟩
  | cons v vs ih =>
      intro i st c hst
      obtain ⟨hres, hw⟩ := bind_spec hst i v
      simp only [bindAll, run_bind, run_ite, run_pure]
      rcases hres with ⟨hb, hf⟩ | ⟨hb, -, hst'⟩
      · rw [if_pos hb]
        refine ⟨.inl ⟨rfl, fun hc => ?_⟩, 1, hw, by simp⟩
        rw [hc.fails] at hf
        simp at hf
      · rw [if_neg (by simp [hb])]
        obtain ⟨hres', n, hw', hn⟩ := ih (i := i + 1) hst'
        refine ⟨?_, 1 + n, hw.trans hw', fun h => by rw [hn h, List.length_cons]; omega⟩
        rcases hres' with ⟨hb', hrel⟩ | ⟨hb', hst''⟩
        · exact .inl ⟨hb', fun hc => hrel (hc.drop hw.faults)⟩
        · exact .inr ⟨hb', hst''⟩

theorem close_finished {n : Nat} {c c' : Conn N} (h : Working n c c') :
    Finished (· = c.db) c (close c').2 where
  stmt := rfl
  scan := h.scan
  faults := ⟨n, h.faults⟩
  since := h.since.trans ⟨[(.finalize (c'.stmt.map (·.id)), c'.db)], rfl, by simp [h.db]⟩

/-! ### Running a statement once -/

variable [DecidableEq N]

/-- **`execute`**, for every pattern of failures: nothing happened, or the statement took
effect. A step that is not `SQLITE_DONE` is a failed call, or the statement was rejected. -/
theorem execute_spec {q : Sql N} (hq : ¬ q.ReadOnly) (vals : List Value) (early late ok : ε)
    (c : Conn N) :
    let r := execute q vals early late ok c
    ((r.1 = early ∧ r.2.db = c.db ∧ (c.Reliable → q.compiles c.db = false)) ∨
      (r.1 = late ∧ r.2.db = c.db ∧ q.compiles c.db = true ∧
        (c.faults.getD (vals.length + 1) false = true ∨
          q.eval c.scan (params vals) c.db = none)) ∨
      (r.1 = ok ∧ q.compiles c.db = true ∧
        q.eval c.scan (params vals) c.db = some ([], r.2.db))) ∧
    Finished (fun d => d = c.db ∨ d = r.2.db) c r.2 := by
  intro r
  have hrun : r = execute q vals early late ok c := rfl
  clear_value r
  obtain ⟨hprep, hw⟩ := prepare_spec q c
  simp only [execute, run_bind, run_ite, run_pure] at hrun
  rcases hprep with ⟨hp, hbad⟩ | ⟨hp, hnf, hcomp, hst⟩
  · -- the statement does not compile, or the call fails
    rw [if_pos hp] at hrun
    subst hrun
    refine ⟨.inl ⟨rfl, hw.db, fun hc => ?_⟩, (close_finished hw).mono fun d => Or.inl⟩
    rcases hbad with hbad | hbad
    · simp [hc.fails] at hbad
    · exact hbad
  · rw [if_neg (by simp [hp])] at hrun
    obtain ⟨hbind, n, hwb, hn⟩ := bindAll_spec vals (i := 1) hst
    rcases hbind with ⟨hb, hrel⟩ | ⟨hb, hst'⟩
    · rw [if_pos hb] at hrun
      subst hrun
      refine ⟨.inl ⟨rfl, hwb.db.trans hw.db, fun hc => absurd (hc.drop hw.faults) hrel⟩, ?_⟩
      exact (close_finished (hw.trans hwb)).mono fun d => Or.inl
    · rw [if_neg (by simp [hb])] at hrun
      -- the statement is ready: `w` are the calls so far
      have w := hw.trans hwb
      rw [hn hb] at w
      revert hrun
      generalize (bindAll 1 vals (prepare q c).2).2 = c₁ at hst' w
      intro hrun
      -- the step is the failable call behind `prepare` and the binds
      have hfail : c₁.fails = c.faults.getD (vals.length + 1) false := by
        unfold Conn.fails
        rw [w.faults, List.headD_eq_head?_getD, List.head?_drop, List.getD_eq_getElem?_getD,
          Nat.add_comm]
      have heval : q.eval c₁.scan (bound 1 vals fun _ => .null) c₁.db =
          q.eval c.scan (params vals) c.db := by
        rw [w.scan, w.db]; rfl
      unfold step at hrun
      simp only [hst'] at hrun
      by_cases hf : c₁.fails = true
      · simp only [hf, if_true] at hrun
        subst hrun
        refine ⟨.inr (.inl ⟨rfl, w.db, hcomp, .inl (hfail ▸ hf)⟩), ?_⟩
        exact (close_finished (w.trans (working_after c₁ c₁.stmt c₁.prepared .step))).mono
          fun d => Or.inl
      · simp only [hf, heval, Bool.false_eq_true, if_false] at hrun
        cases he : q.eval c.scan (params vals) c.db with
        | none =>
            simp only [he] at hrun
            subst hrun
            refine ⟨.inr (.inl ⟨rfl, w.db, hcomp, .inr rfl⟩), ?_⟩
            exact (close_finished (w.trans (working_after c₁ c₁.stmt c₁.prepared .step))).mono
              fun d => Or.inl
        | some res =>
            obtain ⟨rows, db⟩ := res
            have hfaults : c₁.faults.tail = c.faults.drop (vals.length + 2) := by
              rw [w.faults, List.tail_drop, Nat.add_comm 1]
            obtain rfl : rows = [] := Sql.eval_effect hq he
            have hsince : Since (fun d => d = c.db ∨ d = db) c c₁ := w.since.mono fun d => Or.inl
            simp only [he] at hrun
            subst hrun
            refine ⟨.inr (.inr ⟨rfl, hcomp, rfl⟩), rfl, w.scan, ⟨_, hfaults⟩, ?_⟩
            exact hsince.trans ⟨[(.finalize (some _), db), (.step, db)], rfl, by simp⟩

/-- A statement that compiles and is not rejected takes effect, or a call fails. -/
theorem execute_total {q : Sql N} (hq : ¬ q.ReadOnly) {vals : List Value} {c : Conn N}
    {db : Database N} (hcomp : q.compiles c.db = true)
    (heval : q.eval c.scan (params vals) c.db = some ([], db)) (early late ok : ε) :
    let r := execute q vals early late ok c
    r.1 = early ∧ r.2.db = c.db ∧ ¬ c.Reliable ∨ r.1 = late ∧ r.2.db = c.db ∧ ¬ c.Reliable ∨
      r.1 = ok ∧ r.2.db = db := by
  intro r
  obtain ⟨⟨he, hdb, hrel⟩ | ⟨hl, hdb, -, hf⟩ | ⟨hok, -, heval'⟩, -⟩ :=
    execute_spec hq vals early late ok c
  · refine .inl ⟨he, hdb, fun hc => ?_⟩
    rw [hrel hc] at hcomp
    cases hcomp
  · refine .inr (.inl ⟨hl, hdb, fun hc => ?_⟩)
    rcases hf with hf | hf
    · exact not_reliable_of_getD hf hc
    · rw [heval] at hf
      cases hf
  · rw [heval] at heval'
    exact .inr (.inr ⟨hok, ((Prod.mk.inj (Option.some.inj heval')).2).symm⟩)

/-! ### Folding the rows of a statement -/

/-- The loop body applied to all rows, up to the first row it stops at. -/
def foldRows (f : τ → Record → τ × Option ε) : List Record → τ → τ × Option ε
  | [], s => (s, none)
  | r :: rows, s =>
    match f s r with
    | (s', none) => foldRows f rows s'
    | (s', some e) => (s', some e)

/-- A loop body that never stops. -/
theorem foldRows_total (f : τ → Record → τ) (rows : List Record) (s : τ) :
    foldRows (fun s r => (f s r, (none : Option ε))) rows s = (rows.foldl f s, none) := by
  induction rows generalizing s with
  | nil => rfl
  | cons r rows ih => exact ih (f s r)

/-- A loop body that counts the rows with a property and stops at the first one without. -/
theorem foldRows_check {f : Nat → Record → Nat × Option ε} {e : ε} {p : Record → Prop}
    (hyes : ∀ n r, p r → f n r = (n + 1, none)) (hno : ∀ n r, ¬ p r → f n r = (n, some e))
    (rows : List Record) (n : Nat) :
    ((∀ r ∈ rows, p r) ∧ foldRows f rows n = (n + rows.length, none)) ∨
      (¬ (∀ r ∈ rows, p r) ∧ (foldRows f rows n).2 = some e) := by
  induction rows generalizing n with
  | nil => exact .inl ⟨by simp, rfl⟩
  | cons r rows ih =>
      by_cases hr : p r
      · simp only [foldRows, hyes n r hr]
        rcases ih (n + 1) with ⟨hall, hfold⟩ | ⟨hnot, hfold⟩
        · refine .inl ⟨by simpa [hr] using hall, ?_⟩
          rw [hfold, List.length_cons]
          congr 1
          omega
        · exact .inr ⟨fun hall => hnot fun r' hr' => hall r' (List.mem_cons_of_mem r hr'), hfold⟩
      · simp only [foldRows, hno n r hr]
        exact .inr ⟨fun hall => hr (hall r List.mem_cons_self), trivial⟩

/-- The current statement still has to deliver exactly `rows`. -/
def Conn.Pending (c : Conn N) (rows : List Record) : Prop :=
  ∃ st, c.stmt = some st ∧ (st.cursor = some rows ∨
    st.cursor = none ∧ st.sql.eval c.scan st.params c.db = some (rows, c.db))

theorem step_spec {c : Conn N} {rows : List Record} (h : c.Pending rows) :
    Working 1 c (step c).2 ∧
    ((step c).1 = .error ∧ c.fails = true ∨ c.fails = false ∧
      (rows = [] ∧ (step c).1 = .done ∨
        ∃ row rows', rows = row :: rows' ∧ (step c).1 = .row row ∧
          (step c).2.Pending rows')) := by
  obtain ⟨st, hst, hcur⟩ := h
  unfold step
  rw [hst]
  by_cases hf : c.fails = true
  · simp only [hf, if_true]
    exact ⟨working_after c c.stmt c.prepared .step, .inl ⟨trivial, trivial⟩⟩
  · rw [Bool.not_eq_true] at hf
    simp only [hf, Bool.false_eq_true, if_false]
    rcases hcur with hcur | ⟨hcur, heval⟩
    · -- the statement has been evaluated before
      cases rows with
      | nil =>
          simp only [hcur]
          exact ⟨working_after c c.stmt c.prepared .step, .inr ⟨trivial, .inl ⟨trivial, trivial⟩⟩⟩
      | cons row rows =>
          simp only [hcur]
          exact ⟨working_after c _ c.prepared .step,
            .inr ⟨trivial, .inr ⟨row, rows, rfl, rfl, _, rfl, .inl rfl⟩⟩⟩
    · cases rows with
      | nil =>
          simp only [hcur, heval]
          exact ⟨working_after c _ c.prepared .step, .inr ⟨trivial, .inl ⟨trivial, trivial⟩⟩⟩
      | cons row rows =>
          simp only [hcur, heval]
          exact ⟨working_after c _ c.prepared .step,
            .inr ⟨trivial, .inr ⟨row, rows, rfl, rfl, _, rfl, .inl rfl⟩⟩⟩

/-- With one round more than there are rows the loop is never cut short: it folds all rows
unless a call fails. -/
theorem fetch_spec (f : τ → Record → τ × Option ε) (e : ε) : ∀ {rows : List Record} {s : τ}
    {c : Conn N}, c.Pending rows →
    let r := fetch f e (rows.length + 1) s c
    (∃ n, Working n c r.2) ∧
      ((∃ s', r.1 = (s', some e)) ∧ ¬ c.Reliable ∨ r.1 = foldRows f rows s) := by
  intro rows
  induction rows with
  | nil =>
      intro s c h
      obtain ⟨hw, hres⟩ := step_spec h
      simp only [List.length_nil, fetch, run_bind]
      rcases hres with ⟨hr, hf⟩ | ⟨-, ⟨-, hr⟩ | ⟨row, rows', h0, -, -⟩⟩
      · rw [hr]
        exact ⟨⟨1, hw⟩, .inl ⟨⟨s, rfl⟩, not_reliable_of_fails hf⟩⟩
      · rw [hr]
        exact ⟨⟨1, hw⟩, .inr rfl⟩
      · simp at h0
  | cons row rows ih =>
      intro s c h
      obtain ⟨hw, hres⟩ := step_spec h
      simp only [List.length_cons, fetch, run_bind]
      rcases hres with ⟨hr, hf⟩ | ⟨-, ⟨h0, -⟩ | ⟨row', rows', h0, hr, hpend⟩⟩
      · rw [hr]
        exact ⟨⟨1, hw⟩, .inl ⟨⟨s, rfl⟩, not_reliable_of_fails hf⟩⟩
      · simp at h0
      · obtain ⟨rfl, rfl⟩ := List.cons.inj h0
        rw [hr]
        simp only [foldRows]
        rcases hf : f s row with ⟨s', _ | e'⟩
        · obtain ⟨⟨n, hn⟩, hfold⟩ := ih (s := s') hpend
          refine ⟨⟨1 + n, hw.trans hn⟩, ?_⟩
          rcases hfold with ⟨herr, hrel⟩ | hfold
          · exact .inl ⟨herr, fun hc => hrel (hc.drop hw.faults)⟩
          · exact .inr hfold
        · exact ⟨⟨1, hw⟩, .inr rfl⟩

/-- **`query`**, for every pattern of failures: the database is untouched, and the result is
the fold over all rows of the statement unless a call failed. -/
theorem query_spec {q : Sql N} (hq : q.ReadOnly) (vals : List Value)
    (f : τ → Record → τ × Option ε) (s : τ) (e : ε) (c : Conn N) :
    let r := query q vals f s e c
    Finished (· = c.db) c r.2 ∧ r.2.db = c.db ∧
      ((∃ s', r.1 = (s', some e)) ∧ (c.Reliable → q.compiles c.db = false) ∨
        ∃ rows, q.eval c.scan (params vals) c.db = some (rows, c.db) ∧
          r.1 = foldRows f rows s) := by
  intro r
  have hrun : r = query q vals f s e c := rfl
  clear_value r
  obtain ⟨hprep, hw⟩ := prepare_spec q c
  simp only [query, run_bind, run_ite, run_pure, run_get] at hrun
  rcases hprep with ⟨hp, hbad⟩ | ⟨hp, -, hcomp, hst⟩
  · rw [if_pos hp] at hrun
    subst hrun
    refine ⟨close_finished hw, hw.db, .inl ⟨⟨s, rfl⟩, fun hc => ?_⟩⟩
    rcases hbad with hbad | hbad
    · simp [hc.fails] at hbad
    · exact hbad
  · rw [if_neg (by simp [hp])] at hrun
    obtain ⟨hbind, n, hwb, -⟩ := bindAll_spec vals (i := 1) hst
    have w := hw.trans hwb
    rcases hbind with ⟨hb, hrel⟩ | ⟨hb, hst'⟩
    · rw [if_pos hb] at hrun
      subst hrun
      exact ⟨close_finished w, w.db, .inl ⟨⟨s, rfl⟩, fun hc => absurd (hc.drop hw.faults) hrel⟩⟩
    · rw [if_neg (by simp [hb])] at hrun
      revert hrun
      generalize (bindAll 1 vals (prepare q c).2).2 = c₁ at hst' w
      intro hrun
      -- the statement will deliver these rows, and the loop has one round more
      obtain ⟨rows, hrows⟩ := Sql.eval_of_compiles hq hcomp c.scan (params vals)
      have heval : q.eval c₁.scan (bound 1 vals fun _ => .null) c₁.db = some (rows, c₁.db) := by
        rw [w.scan, w.db]; exact hrows
      have hleft : c₁.rowsLeft = rows.length := by
        simp [Conn.rowsLeft, hst', heval]
      rw [hleft] at hrun
      have hpend : c₁.Pending rows := ⟨_, hst', .inr ⟨rfl, heval⟩⟩
      obtain ⟨⟨m, hm⟩, hfold⟩ := fetch_spec f e (s := s) hpend
      subst hrun
      refine ⟨close_finished (w.trans hm), hm.db.trans w.db, ?_⟩
      rcases hfold with ⟨herr, hrel⟩ | hfold
      · exact .inl ⟨herr, fun hc => absurd (hc.drop w.faults) hrel⟩
      · exact .inr ⟨rows, hrows, hfold⟩

/-- A query that compiles delivers its rows, or a call fails. -/
theorem query_total {q : Sql N} (hq : q.ReadOnly) {vals : List Value} {c : Conn N}
    {rows : List Record} (hcomp : q.compiles c.db = true)
    (heval : q.eval c.scan (params vals) c.db = some (rows, c.db))
    (f : τ → Record → τ × Option ε) (s : τ) (e : ε) :
    let r := query q vals f s e c
    Finished (· = c.db) c r.2 ∧ r.2.db = c.db ∧
      ((∃ s', r.1 = (s', some e)) ∧ ¬ c.Reliable ∨ r.1 = foldRows f rows s) := by
  intro r
  obtain ⟨hfin, hdb, hres⟩ := query_spec hq vals f s e c
  refine ⟨hfin, hdb, ?_⟩
  rcases hres with ⟨herr, hrel⟩ | ⟨rows', hrows, hfold⟩
  · refine .inl ⟨herr, fun hc => ?_⟩
    rw [hrel hc] at hcomp
    cases hcomp
  · rw [heval] at hrows
    obtain rfl : rows = rows' := (Prod.mk.inj (Option.some.inj hrows)).1
    exact .inr hfold

/-- A loop that never stops by itself: an error is that of a failed call. -/
theorem query_error {q : Sql N} (hq : q.ReadOnly) (vals : List Value) (f : τ → Record → τ) (s : τ)
    (e : ε) (c : Conn N) :
    ∀ e', (query q vals (fun s r => (f s r, none)) s e c).1.2 = some e' → e' = e := by
  intro e' h
  obtain ⟨-, -, ⟨⟨s', hs'⟩, -⟩ | ⟨rows, -, hfold⟩⟩ :=
    query_spec hq vals (fun s r => (f s r, (none : Option ε))) s e c
  · rw [hs'] at h
    exact (Option.some.inj h).symm
  · rw [hfold, foldRows_total] at h
    cases h

/-! ### Two loops side by side -/

section Related

variable {τ' : Type} {R : τ → τ' → Prop} {f : τ → Record → τ × Option ε}
  {g : τ' → Record → τ' × Option ε} {s : τ} {t : τ'}

/-- Loops that fold the same rows into related results: they stop alike, and the connection is
the same behind them. -/
theorem fetch_rel (hf : ∀ {s t} r, R s t → R (f s r).1 (g t r).1 ∧ (f s r).2 = (g t r).2)
    (e : ε) (n : Nat) (hs : R s t) (c : Conn N) :
    R (fetch f e n s c).1.1 (fetch g e n t c).1.1 ∧
      (fetch f e n s c).1.2 = (fetch g e n t c).1.2 ∧
      (fetch f e n s c).2 = (fetch g e n t c).2 := by
  induction n generalizing s t c with
  | zero => exact ⟨hs, rfl, rfl⟩
  | succ n ih =>
      simp only [fetch, run_bind]
      cases (step c).1 with
      | done => exact ⟨hs, rfl, rfl⟩
      | error => exact ⟨hs, rfl, rfl⟩
      | row r =>
          obtain ⟨hR, hstop⟩ := hf r hs
          rcases hp : f s r with ⟨s', o⟩
          rcases hp' : g t r with ⟨t', o'⟩
          simp only [hp, hp'] at hR hstop ⊢
          subst hstop
          cases o with
          | none => exact ih hR _
          | some e' => exact ⟨hR, rfl, rfl⟩

theorem query_rel (hf : ∀ {s t} r, R s t → R (f s r).1 (g t r).1 ∧ (f s r).2 = (g t r).2)
    (q : Sql N) (vals : List Value) (e : ε) (hs : R s t) (c : Conn N) :
    R (query q vals f s e c).1.1 (query q vals g t e c).1.1 ∧
      (query q vals f s e c).1.2 = (query q vals g t e c).1.2 ∧
      (query q vals f s e c).2 = (query q vals g t e c).2 := by
  simp only [query, run_bind, run_ite, run_pure, run_get]
  split
  · exact ⟨hs, rfl, rfl⟩
  · split
    · exact ⟨hs, rfl, rfl⟩
    · generalize (bindAll 1 vals (prepare q c).2).2 = c₁
      obtain ⟨hR, hstop, hconn⟩ := fetch_rel hf e (c₁.rowsLeft + 1) hs c₁
      exact ⟨hR, hstop, congrArg (fun c => (close c).2) hconn⟩

end Related

/-! ### Relations kept by a computation -/

/-- The computation takes every database to a related one. -/
def Preserves (R : Database N → Database N → Prop) (m : SqliteM N β) : Prop :=
  ∀ c, R c.db (m c).2.db

section Preserves

variable {R : Database N → Database N → Prop} {q : Sql N} {vals : List Value}

omit [DecidableEq N] in
theorem Preserves.bind [IsTrans _ R] {m : SqliteM N β} {f : β → SqliteM N γ} (hm : Preserves R m)
    (hf : ∀ b, Preserves R (f b)) : Preserves R (m >>= f) := fun c =>
  IsTrans.trans _ _ _ (hm c) (hf (m c).1 (m c).2)

variable [Std.Refl R]

omit [DecidableEq N] in
theorem preserves_pure (b : β) : Preserves R (pure b : SqliteM N β) := fun c => refl c.db

theorem preserves_execute (hq : ¬ q.ReadOnly) (early late ok : ε)
    (heval : ∀ scan db db', q.eval scan (params vals) db = some ([], db') → R db db') :
    Preserves R (execute q vals early late ok) := by
  intro c
  obtain ⟨⟨-, hdb, -⟩ | ⟨-, hdb, -⟩ | ⟨-, -, he⟩, -⟩ := execute_spec hq vals early late ok c
  · rw [hdb]
    exact refl c.db
  · rw [hdb]
    exact refl c.db
  · exact heval _ _ _ he

theorem preserves_query (hq : q.ReadOnly) (f : τ → Record → τ × Option ε)
    (s : τ) (e : ε) : Preserves R (query q vals f s e) := by
  intro c
  rw [(query_spec hq vals f s e c).2.1]
  exact refl c.db

end Preserves

/-! ### Invariants of the content -/

/-- Started on a content satisfying `P`, the computation leaves such a content and logs no
other. So `P` also holds where the computation is cut off between two calls. -/
def Keeps (P : Database N → Prop) (m : SqliteM N β) : Prop :=
  ∀ c, P c.db → P (m c).2.db ∧ Since P c (m c).2

section Keeps

variable {P : Database N → Prop} {q : Sql N} {vals : List Value}

omit [DecidableEq N] in
theorem keeps_pure (b : β) : Keeps P (pure b : SqliteM N β) := fun c hc => ⟨hc, .refl P c⟩

omit [DecidableEq N] in
/-- What is known of a result of the first part may be used for the second. -/
theorem Keeps.bind {m : SqliteM N β} {f : β → SqliteM N γ} (hm : Keeps P m)
    (hf : ∀ c, P c.db → Keeps P (f (m c).1)) : Keeps P (m >>= f) := by
  intro c hc
  obtain ⟨hdb, hsince⟩ := hm c hc
  obtain ⟨hdb', hsince'⟩ := hf c hc (m c).2 hdb
  exact ⟨hdb', hsince.trans hsince'⟩

theorem keeps_execute (hq : ¬ q.ReadOnly) (early late ok : ε)
    (heval : ∀ scan db db', P db → q.eval scan (params vals) db = some ([], db') → P db') :
    Keeps P (execute q vals early late ok) := by
  intro c hc
  obtain ⟨hres, hfin⟩ := execute_spec hq vals early late ok c
  have hdb : P (execute q vals early late ok c).2.db := by
    rcases hres with ⟨-, hsame, -⟩ | ⟨-, hsame, -⟩ | ⟨-, -, he⟩
    · exact hsame ▸ hc
    · exact hsame ▸ hc
    · exact heval _ _ _ hc he
  exact ⟨hdb, hfin.since.mono fun d hd => hd.elim (fun h => h ▸ hc) fun h => h ▸ hdb⟩

theorem keeps_query (hq : q.ReadOnly) (f : τ → Record → τ × Option ε) (s : τ) (e : ε) :
    Keeps P (query q vals f s e) := by
  intro c hc
  obtain ⟨hfin, hsame, -⟩ := query_spec hq vals f s e c
  exact ⟨hsame ▸ hc, hfin.since.mono fun d hd => hd ▸ hc⟩

end Keeps

end Sqlite
