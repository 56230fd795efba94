import SimpleTaskQueue.Core.SqliteRules
/-!
# SimpleTaskQueue.Core.SqliteCounts

**How many calls** a computation makes. `SimpleTaskQueue.Core.SqliteRules` says what can come of
a statement; here it is said which failures decide on it. A computation that ends with its first
failing call is described by the number of its calls, and by what holds if none of them fails and
if one does (`Counted`). Such descriptions compose (`Counted.bind`).
-/

namespace Sqlite

open Conn

variable {N : Type} {ε τ β γ : Type}

/-! ### Answers -/

/-- The next `n` calls succeed. -/
def Lasts (n : Nat) (faults : List Bool) : Prop := ∀ b ∈ faults.take n, b = false

instance (n : Nat) (faults : List Bool) : Decidable (Lasts n faults) :=
  inferInstanceAs (Decidable (∀ _ ∈ _, _))

/-- The answers left after `n` calls that end with the first one that fails. -/
def rest : Nat → List Bool → List Bool
  | 0, faults => faults
  | n + 1, faults => if faults.headD false then faults.tail else rest n faults.tail

section Answers

variable {n m : Nat} {faults : List Bool}

theorem lasts_zero : Lasts 0 faults := by simp [Lasts]

theorem lasts_succ : Lasts (n + 1) faults ↔ faults.headD false = false ∧ Lasts n faults.tail := by
  cases faults <;> simp [Lasts]

theorem lasts_one : Lasts 1 faults ↔ faults.headD false = false := by
  simp [lasts_succ, lasts_zero]

/-- Later calls meet the answers that the earlier ones left. -/
theorem lasts_add : Lasts (n + m) faults ↔ Lasts n faults ∧ Lasts m (rest n faults) := by
  induction n generalizing faults with
  | zero => simp [lasts_zero, rest]
  | succ n ih =>
      rw [Nat.succ_add, lasts_succ, lasts_succ, ih, and_assoc]
      refine and_congr_right fun h => ?_
      rw [rest, h, if_neg Bool.false_ne_true]

theorem rest_add (h : Lasts n faults) : rest (n + m) faults = rest m (rest n faults) := by
  induction n generalizing faults with
  | zero => rw [Nat.zero_add, rest]
  | succ n ih =>
      obtain ⟨hhead, htail⟩ := lasts_succ.mp h
      rw [Nat.succ_add, rest, rest, hhead, if_neg Bool.false_ne_true, if_neg Bool.false_ne_true,
        ih htail]

/-- After a failure there are no further calls. -/
theorem rest_add_of_not (h : ¬ Lasts n faults) : rest (n + m) faults = rest n faults := by
  induction n generalizing faults with
  | zero => exact absurd lasts_zero h
  | succ n ih =>
      rw [Nat.succ_add, rest, rest]
      cases hhead : faults.headD false with
      | true => rfl
      | false =>
          rw [if_neg Bool.false_ne_true, if_neg Bool.false_ne_true]
          exact ih fun htail => h (lasts_succ.mpr ⟨hhead, htail⟩)

end Answers

/-! ### Counted computations -/

/-- `r` comes of `n` calls on `c` that end with the first one that fails: `ok` holds of it if
they all succeed, `err` if one of them fails. -/
structure Counted (c : Conn N) (n : Nat) (ok err : β × Conn N → Prop) (r : β × Conn N) : Prop where
  ok : Lasts n c.faults → ok r
  err : ¬ Lasts n c.faults → err r
  faults : r.2.faults = rest n c.faults

variable {c : Conn N} {n k : Nat}

/-- One after the other: behind a failure the second computation makes no calls. -/
theorem Counted.bind {ok err : β × Conn N → Prop} {ok' err' : γ × Conn N → Prop}
    {m : SqliteM N β} {f : β → SqliteM N γ} (hm : Counted c n ok err (m c))
    (hok : ∀ r, ok r → Counted r.2 k ok' err' (f r.1 r.2))
    (herr : ∀ r, err r → err' (f r.1 r.2) ∧ (f r.1 r.2).2.faults = r.2.faults) :
    Counted c (n + k) ok' err' ((m >>= f) c) := by
  rw [run_bind]
  by_cases hn : Lasts n c.faults
  · have h := hok _ (hm.ok hn)
    refine ⟨fun hlast => h.ok ?_, fun hnot => h.err fun hk => hnot ?_, ?_⟩
    · rw [hm.faults]
      exact (lasts_add.mp hlast).2
    · exact lasts_add.mpr ⟨hn, hm.faults ▸ hk⟩
    · rw [h.faults, hm.faults, rest_add hn]
  · obtain ⟨herr', hfaults⟩ := herr _ (hm.err hn)
    refine ⟨fun hlast => absurd (lasts_add.mp hlast).1 hn, fun _ => herr', ?_⟩
    rw [hfaults, hm.faults, rest_add_of_not hn]

theorem Counted.mono {ok ok' err err' : β × Conn N → Prop} {r : β × Conn N}
    (h : Counted c n ok err r) (hok : ok r → ok' r) (herr : err r → err' r) :
    Counted c n ok' err' r :=
  ⟨fun hn => hok (h.ok hn), fun hn => herr (h.err hn), h.faults⟩

/-- No call. -/
theorem counted_zero {ok err : β × Conn N → Prop} {r : β × Conn N} (hok : ok r)
    (hfaults : r.2.faults = c.faults) : Counted c 0 ok err r :=
  ⟨fun _ => hok, fun hn => absurd lasts_zero hn, hfaults⟩

/-- A single call. -/
theorem counted_one {ok err : β × Conn N → Prop} {r : β × Conn N}
    (hfaults : r.2.faults = c.faults.drop 1)
    (h : c.fails = true ∧ err r ∨ c.fails = false ∧ ok r) : Counted c 1 ok err r := by
  replace hfaults : r.2.faults = rest 1 c.faults := by
    rw [hfaults, rest, rest, List.drop_one, ite_self]
  have hlast : Lasts 1 c.faults ↔ c.fails = false := lasts_one
  rcases h with ⟨hf, herr⟩ | ⟨hf, hok⟩
  · exact ⟨fun h => absurd (hlast.mp h) (by simp [hf]), fun _ => herr, hfaults⟩
  · exact ⟨fun _ => hok, fun h => absurd (hlast.mpr hf) h, hfaults⟩

/-! ### The use of a statement -/

/-- The statement `q` is prepared, with the parameters `p`; the database is the one of `c`. -/
structure Ready (c : Conn N) (q : Sql N) (p : Nat → Value) (c' : Conn N) : Prop where
  stmt : ∃ id, c'.stmt = some ⟨id, q, p, none⟩
  db : c'.db = c.db
  scan : c'.scan = c.scan

variable {q : Sql N} {p : Nat → Value} {vals : List Value} {c' : Conn N}

theorem counted_prepare (hcomp : q.compiles c.db = true) :
    Counted c 1 (fun r => r.1 = false ∧ Ready c q (fun _ => .null) r.2)
      (fun r => r.1 = true ∧ r.2.db = c.db) (prepare q c) := by
  obtain ⟨hres, hw⟩ := prepare_spec q c
  refine counted_one hw.faults ?_
  rcases hres with ⟨hp, hbad⟩ | ⟨hp, hf, -, hst⟩
  · exact .inl ⟨hbad.resolve_right (by simp [hcomp]), hp, hw.db⟩
  · exact .inr ⟨hf, hp, ⟨_, hst⟩, hw.db, hw.scan⟩

theorem counted_bindAll {i : Nat} (h : Ready c q p c') :
    Counted c' vals.length (fun r => r.1 = false ∧ Ready c q (bound i vals p) r.2)
      (fun r => r.1 = true ∧ r.2.db = c.db) (bindAll i vals c') := by
  induction vals generalizing i p c' with
  | nil => exact counted_zero ⟨rfl, h⟩ rfl
  | cons v vs ih =>
      obtain ⟨id, hst⟩ := h.stmt
      obtain ⟨hres, hw⟩ := bind_spec hst i v
      have hbind : Counted c' 1 (fun r => r.1 = false ∧ Ready c q (Function.update p i v) r.2)
          (fun r => r.1 = true ∧ r.2.db = c.db) (bind i v c') := by
        refine counted_one hw.faults ?_
        rcases hres with ⟨hb, hf⟩ | ⟨hb, hf, hst'⟩
        · exact .inl ⟨hf, hb, hw.db.trans h.db⟩
        · exact .inr ⟨hf, hb, ⟨id, hst'⟩, hw.db.trans h.db, hw.scan.trans h.scan⟩
      rw [List.length_cons, Nat.add_comm, bindAll]
      refine hbind.bind (fun r hok => ?_) fun r herr => ?_
      · obtain ⟨hr, hready⟩ := hok
        rw [hr, if_neg Bool.false_ne_true]
        exact ih hready
      · obtain ⟨hr, hdb⟩ := herr
        rw [hr, if_pos rfl]
        exact ⟨⟨rfl, hdb⟩, rfl⟩

variable [DecidableEq N]

/-- The step of a statement run for its effect. -/
theorem counted_step {db : Database N} (h : Ready c q p c')
    (heval : q.eval c.scan p c.db = some ([], db)) :
    Counted c' 1 (fun r => r.1 = .done ∧ r.2.db = db) (fun r => r.1 = .error ∧ r.2.db = c.db)
      (step c') := by
  obtain ⟨⟨id, hst⟩, hdb, hscan⟩ := h
  unfold step
  by_cases hf : c'.fails = true
  · simp only [hst, hf, if_true]
    exact counted_one List.drop_one.symm (.inl ⟨hf, rfl, hdb⟩)
  · rw [Bool.not_eq_true] at hf
    simp only [hst, hf, Bool.false_eq_true, if_false, hscan, hdb, heval]
    exact counted_one List.drop_one.symm (.inr ⟨hf, rfl, rfl⟩)

/-- **`execute`**: `prepare`, a `bind` for each value, and the step. -/
theorem counted_execute {db : Database N} (hcomp : q.compiles c.db = true)
    (heval : q.eval c.scan (params vals) c.db = some ([], db)) (early late ok : ε) :
    Counted c (vals.length + 2) (fun r => r.1 = ok ∧ r.2.db = db)
      (fun r => (r.1 = early ∨ r.1 = late) ∧ r.2.db = c.db) (execute q vals early late ok c) := by
  rw [show vals.length + 2 = 1 + (vals.length + (1 + 0)) by omega]
  refine (counted_prepare hcomp).bind (fun r ⟨hr, hready⟩ => ?_) fun r ⟨hr, hdb⟩ => ?_
  · rw [hr, if_neg Bool.false_ne_true]
    refine (counted_bindAll hready).bind (fun r ⟨hr, hready⟩ => ?_) fun r ⟨hr, hdb⟩ => ?_
    · rw [hr, if_neg Bool.false_ne_true]
      refine (counted_step hready heval).bind (fun r ⟨hr, hdb⟩ => ?_) fun r ⟨hr, hdb⟩ => ?_
      · rw [hr]
        exact counted_zero ⟨rfl, hdb⟩ rfl
      · rw [hr]
        exact ⟨⟨.inr rfl, hdb⟩, rfl⟩
    · rw [hr, if_pos rfl]
      exact ⟨⟨.inl rfl, hdb⟩, rfl⟩
  · rw [hr, if_pos rfl]
    exact ⟨⟨.inl rfl, hdb⟩, rfl⟩

/-! ### The loop over rows -/

/-- The rounds of the loop: one for each row up to the one it stops at, or one more than there
are rows. -/
def rounds (f : τ → Record → τ × Option ε) : List Record → τ → Nat
  | [], _ => 1
  | r :: rows, s =>
    match f s r with
    | (s', none) => 1 + rounds f rows s'
    | (_, some _) => 1

omit [DecidableEq N] in
theorem rounds_total (f : τ → Record → τ) (rows : List Record) (s : τ) :
    rounds (fun s r => (f s r, (none : Option ε))) rows s = rows.length + 1 := by
  induction rows generalizing s with
  | nil => rfl
  | cons r rows ih =>
      simp only [rounds, ih, List.length_cons]
      omega

omit [DecidableEq N] in
/-- A loop body that stops at the first row without a property. -/
theorem rounds_check {f : Nat → Record → Nat × Option ε} {e : ε} {p : Record → Prop}
    [DecidablePred p] (hyes : ∀ n r, p r → f n r = (n + 1, none))
    (hno : ∀ n r, ¬ p r → f n r = (n, some e)) (rows : List Record) (n : Nat) :
    rounds f rows n = (rows.takeWhile p).length + 1 := by
  induction rows generalizing n with
  | nil => rfl
  | cons r rows ih =>
      by_cases hr : p r
      · simp only [rounds, hyes n r hr, ih, List.takeWhile_cons, hr, decide_true, if_true,
          List.length_cons]
        omega
      · simp [rounds, hno n r hr, hr]

theorem counted_fetch (f : τ → Record → τ × Option ε) (e : ε) {rows : List Record} {s : τ}
    (h : c'.Pending rows) :
    Counted c' (rounds f rows s) (fun r => r.1 = foldRows f rows s) (fun r => r.1.2 = some e)
      (fetch f e (rows.length + 1) s c') := by
  induction rows generalizing s c' with
  | nil =>
      obtain ⟨hw, hres⟩ := step_spec h
      have hstep : Counted c' 1 (fun r => r.1 = .done) (fun r => r.1 = .error) (step c') := by
        refine counted_one hw.faults ?_
        rcases hres with ⟨hr, hf⟩ | ⟨hf, ⟨-, hr⟩ | ⟨row, rows', h0, -, -⟩⟩
        · exact .inl ⟨hf, hr⟩
        · exact .inr ⟨hf, hr⟩
        · cases h0
      refine hstep.bind (k := 0) (fun r hr => ?_) fun r hr => ?_
      · rw [hr]
        exact counted_zero rfl rfl
      · rw [hr]
        exact ⟨rfl, rfl⟩
  | cons row rows ih =>
      obtain ⟨hw, hres⟩ := step_spec h
      have hstep : Counted c' 1 (fun r => r.1 = .row row ∧ r.2.Pending rows)
          (fun r => r.1 = .error) (step c') := by
        refine counted_one hw.faults ?_
        rcases hres with ⟨hr, hf⟩ | ⟨hf, ⟨h0, -⟩ | ⟨row', rows', h0, hr, hpend⟩⟩
        · exact .inl ⟨hf, hr⟩
        · cases h0
        · obtain ⟨rfl, rfl⟩ := List.cons.inj h0
          exact .inr ⟨hf, hr, hpend⟩
      rw [List.length_cons, fetch]
      cases hf : f s row with
      | mk s' stop =>
          cases stop with
          | none =>
              simp only [rounds, foldRows, hf]
              refine hstep.bind (fun r hok => ?_) fun r hr => ?_
              · obtain ⟨hr, hpend⟩ := hok
                rw [hr]
                simp only [hf]
                exact ih hpend
              · rw [hr]
                exact ⟨rfl, rfl⟩
          | some e' =>
              simp only [rounds, foldRows, hf]
              refine hstep.bind (k := 0) (fun r hok => ?_) fun r hr => ?_
              · rw [hok.1]
                simp only [hf]
                exact counted_zero rfl rfl
              · rw [hr]
                exact ⟨rfl, rfl⟩

/-- **`query`**: `prepare`, a `bind` for each value, and the rounds of the loop. -/
theorem counted_query {rows : List Record} (hcomp : q.compiles c.db = true)
    (heval : q.eval c.scan (params vals) c.db = some (rows, c.db))
    (f : τ → Record → τ × Option ε) (s : τ) (e : ε) :
    Counted c (1 + (vals.length + rounds f rows s)) (fun r => r.1 = foldRows f rows s)
      (fun r => r.1.2 = some e) (query q vals f s e c) := by
  refine (counted_prepare hcomp).bind (fun r ⟨hr, hready⟩ => ?_) fun r ⟨hr, _⟩ => ?_
  · rw [hr, if_neg Bool.false_ne_true]
    refine (counted_bindAll hready).bind (fun r ⟨hr, hready⟩ => ?_) fun r ⟨hr, _⟩ => ?_
    · rw [hr, if_neg Bool.false_ne_true]
      -- the statement will deliver these rows, and the loop has one round more
      obtain ⟨⟨id, hst⟩, hdb, hscan⟩ := hready
      have heval' : q.eval r.2.scan (bound 1 vals fun _ => .null) r.2.db = some (rows, r.2.db) := by
        rw [hscan, hdb]
        exact heval
      have hleft : r.2.rowsLeft = rows.length := by simp [rowsLeft, hst, heval']
      have hfetch := counted_fetch f e (s := s) ⟨_, hst, .inr ⟨rfl, heval'⟩⟩
      rw [run_bind, run_get, hleft]
      exact ⟨hfetch.ok, hfetch.err, hfetch.faults⟩
    · rw [hr, if_pos rfl]
      exact ⟨rfl, rfl⟩
  · rw [hr, if_pos rfl]
    exact ⟨rfl, rfl⟩

/-- A statement that does not compile. -/
theorem query_of_not_compiles (hcomp : q.compiles c.db = false) (f : τ → Record → τ × Option ε)
    (s : τ) (e : ε) : (query q vals f s e c).1 = (s, some e) := by
  obtain ⟨⟨hp, -⟩ | ⟨-, -, hcomp', -⟩, -⟩ := prepare_spec q c
  · simp only [query, run_bind, run_ite, hp, if_true, run_pure]
  · rw [hcomp] at hcomp'
    cases hcomp'

end Sqlite
