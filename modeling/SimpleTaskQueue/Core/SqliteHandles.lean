import SimpleTaskQueue.Core.SqliteRules
/-!
# SimpleTaskQueue.Core.SqliteHandles

**No statement is leaked or finalized twice.** The ghost log of a connection names each statement
where it is prepared and where it is finalized. A computation is `Tidy` if the statements it
prepares are exactly those it finalizes, each once. `execute` and `query` are, whatever fails, and
so is everything that is put together from them.
-/

namespace Sqlite

open Conn

variable {N : Type} {ε τ β γ : Type}

/-- The statement that the call prepared. -/
def ApiCall.preparedId : ApiCall → Option Nat
  | prepare id => id
  | _ => none

/-- The statement that the call finalized. -/
def ApiCall.finalizedId : ApiCall → Option Nat
  | finalize id => id
  | _ => none

/-- The statements prepared in a log. -/
def preparedIds (log : List (ApiCall × Database N)) : List Nat := log.filterMap (·.1.preparedId)

/-- The statements finalized in a log. -/
def finalizedIds (log : List (ApiCall × Database N)) : List Nat := log.filterMap (·.1.finalizedId)

/-- Behind `c`, the statements `ids` were prepared and the statements `ids'` were finalized, newest
first. -/
def Logged (ids ids' : List Nat) (c c' : Conn N) : Prop :=
  ∃ new, c'.trace = new ++ c.trace ∧ preparedIds new = ids ∧ finalizedIds new = ids'

/-- Behind `c`, the next `n` statements were prepared, and all of them finalized. -/
structure Tidied (n : Nat) (c c' : Conn N) : Prop where
  prepared : c'.prepared = c.prepared + n
  logged : Logged (List.range' c.prepared n).reverse (List.range' c.prepared n).reverse c c'

/-- The next statement was prepared and is in use. -/
structure InUse (c c' : Conn N) : Prop where
  prepared : c'.prepared = c.prepared + 1
  stmt : ∃ st, c'.stmt = some st ∧ st.id = c.prepared
  logged : Logged [c.prepared] [] c c'

/-- It leaves no statement open, and finalizes none twice. -/
def Tidy (m : SqliteM N β) : Prop := ∀ c, ∃ n, Tidied n c (m c).2

section Log

variable {c c' c'' : Conn N} {ids ids' is is' : List Nat} {n m : Nat}

theorem Logged.trans (h : Logged ids ids' c c') (h' : Logged is is' c' c'') :
    Logged (is ++ ids) (is' ++ ids') c c'' := by
  obtain ⟨new, htrace, hp, hf⟩ := h
  obtain ⟨new', htrace', hp', hf'⟩ := h'
  refine ⟨new' ++ new, by rw [htrace', htrace, List.append_assoc], ?_, ?_⟩
  · rw [preparedIds, List.filterMap_append, ← preparedIds, ← preparedIds, hp, hp']
  · rw [finalizedIds, List.filterMap_append, ← finalizedIds, ← finalizedIds, hf, hf']

theorem logged_refl (c : Conn N) : Logged [] [] c c := ⟨[], rfl, rfl, rfl⟩

theorem Tidied.trans (h : Tidied n c c') (h' : Tidied m c' c'') : Tidied (n + m) c c'' where
  prepared := by rw [h'.prepared, h.prepared, Nat.add_assoc]
  logged := by
    have hlog := h.logged.trans h'.logged
    rw [← List.reverse_append, h.prepared, List.range'_append_1] at hlog
    exact hlog

/-- Each statement was prepared once, and finalized once. -/
theorem Tidied.once (h : Tidied n c c') : ∃ new, c'.trace = new ++ c.trace ∧
    (preparedIds new).Nodup ∧ finalizedIds new = preparedIds new := by
  obtain ⟨new, htrace, hp, hf⟩ := h.logged
  refine ⟨new, htrace, ?_, hf.trans hp.symm⟩
  rw [hp, List.nodup_reverse]
  exact List.nodup_range'

/-! ### The single calls -/

/-- A `prepare` that fails prepares no statement. -/
theorem prepare_handles (q : Sql N) (c : Conn N) :
    (prepare q c).1 = true ∧ Tidied 0 c (prepare q c).2 ∧ (prepare q c).2.stmt = none ∨
      (prepare q c).1 = false ∧ InUse c (prepare q c).2 := by
  unfold prepare
  split
  · exact .inl ⟨rfl, ⟨rfl, [_], rfl, rfl, rfl⟩, rfl⟩
  · exact .inr ⟨rfl, rfl, ⟨_, rfl, rfl⟩, [_], rfl, rfl, rfl⟩

/-- A call on the statement in use. -/
theorem InUse.next (h : InUse c c') (hp : c''.prepared = c'.prepared)
    (hst : ∃ st, c''.stmt = some st ∧ ∀ st', c'.stmt = some st' → st.id = st'.id)
    (hlog : Logged [] [] c' c'') : InUse c c'' where
  prepared := hp.trans h.prepared
  stmt := by
    obtain ⟨st', hst', hid⟩ := h.stmt
    obtain ⟨st, hst, hsame⟩ := hst
    exact ⟨st, hst, (hsame st' hst').trans hid⟩
  logged := h.logged.trans hlog

theorem InUse.bind (h : InUse c c') (i : Nat) (v : Value) : InUse c (bind i v c').2 := by
  obtain ⟨st, hst, -⟩ := h.stmt
  unfold Sqlite.bind
  simp only [hst]
  split
  · exact h.next rfl ⟨st, hst, by simp [hst]⟩ ⟨[_], rfl, rfl, rfl⟩
  · exact h.next rfl ⟨_, rfl, by simp [hst]⟩ ⟨[_], rfl, rfl, rfl⟩

theorem InUse.bindAll (h : InUse c c') (vals : List Value) (i : Nat) :
    InUse c (bindAll i vals c').2 := by
  induction vals generalizing i c' with
  | nil => exact h
  | cons v vs ih =>
      simp only [Sqlite.bindAll, run_bind, run_ite, run_pure]
      split
      · exact h.bind i v
      · exact ih (h.bind i v) (i + 1)

/-- `close` finalizes the statement in use. -/
theorem InUse.close (h : InUse c c') : Tidied 1 c (close c').2 where
  prepared := h.prepared
  logged := by
    obtain ⟨st, hst, hid⟩ := h.stmt
    have hlog : Logged [] [c.prepared] c' (Sqlite.close c').2 :=
      ⟨[(.finalize (c'.stmt.map (·.id)), c'.db)], rfl, rfl, by rw [hst, ← hid]; rfl⟩
    exact h.logged.trans hlog

/-- Without a statement it finalizes nothing. -/
theorem Tidied.close (h : Tidied n c c') (hst : c'.stmt = none) : Tidied n c (close c').2 where
  prepared := h.prepared
  logged := by
    have hlog : Logged [] [] c' (Sqlite.close c').2 :=
      ⟨[(.finalize (c'.stmt.map (·.id)), c'.db)], rfl, rfl, by rw [hst]; rfl⟩
    exact h.logged.trans hlog

variable [DecidableEq N]

theorem InUse.step (h : InUse c c') : InUse c (step c').2 := by
  obtain ⟨st, hst, -⟩ := h.stmt
  have hfail : InUse c (c'.after .step) :=
    h.next rfl ⟨st, hst, by simp [hst]⟩ ⟨[_], rfl, rfl, rfl⟩
  unfold Sqlite.step
  rw [hst]
  split
  · next hnone => cases hnone
  · next st' hst' =>
    obtain rfl : st = st' := Option.some.inj hst'
    split
    · exact hfail
    · split
      · exact hfail
      · exact h.next rfl ⟨_, rfl, by simp [hst]⟩ ⟨[_], rfl, rfl, rfl⟩
      · split
        · exact hfail
        · exact h.next rfl ⟨_, rfl, by simp [hst]⟩ ⟨[_], rfl, rfl, rfl⟩
        · exact h.next rfl ⟨_, rfl, by simp [hst]⟩ ⟨[_], rfl, rfl, rfl⟩

theorem InUse.fetch (h : InUse c c') (f : τ → Record → τ × Option ε) (e : ε) (k : Nat) (s : τ) :
    InUse c (fetch f e k s c').2 := by
  induction k generalizing s c' with
  | zero => exact h
  | succ k ih =>
      have hnext := h.step
      simp only [Sqlite.fetch, run_bind]
      generalize Sqlite.step c' = r at hnext
      obtain ⟨res, c₁⟩ := r
      cases res with
      | row row =>
          dsimp only
          rcases f s row with ⟨s', - | e'⟩
          · exact ih hnext s'
          · exact hnext
      | done | error => exact hnext

/-! ### The rules -/

omit [DecidableEq N] in
theorem tidy_pure (b : β) : Tidy (pure b : SqliteM N β) := fun c => ⟨0, rfl, logged_refl c⟩

omit [DecidableEq N] in
theorem Tidy.bind {m : SqliteM N β} {f : β → SqliteM N γ} (hm : Tidy m) (hf : ∀ b, Tidy (f b)) :
    Tidy (m >>= f) := by
  intro c
  obtain ⟨n, hn⟩ := hm c
  obtain ⟨k, hk⟩ := hf (m c).1 (m c).2
  exact ⟨n + k, hn.trans hk⟩

theorem tidy_execute (q : Sql N) (vals : List Value) (early late ok : ε) :
    Tidy (execute q vals early late ok) := by
  intro c
  simp only [execute, run_bind, run_ite, run_pure]
  rcases prepare_handles q c with ⟨hp, htidy, hst⟩ | ⟨hp, huse⟩
  · rw [if_pos hp]
    exact ⟨0, htidy.close hst⟩
  · rw [if_neg (by simp [hp])]
    have hbound := huse.bindAll vals 1
    split
    · exact ⟨1, hbound.close⟩
    · have hnext := hbound.step
      generalize step (N := N) _ = r at hnext
      obtain ⟨res, c₁⟩ := r
      cases res <;> exact ⟨1, hnext.close⟩

theorem tidy_query (q : Sql N) (vals : List Value) (f : τ → Record → τ × Option ε) (s : τ) (e : ε) :
    Tidy (query q vals f s e) := by
  intro c
  simp only [query, run_bind, run_ite, run_pure]
  rcases prepare_handles q c with ⟨hp, htidy, hst⟩ | ⟨hp, huse⟩
  · rw [if_pos hp]
    exact ⟨0, htidy.close hst⟩
  · rw [if_neg (by simp [hp])]
    have hbound := huse.bindAll vals 1
    split
    · exact ⟨1, hbound.close⟩
    · exact ⟨1, (hbound.fetch f e _ s).close⟩

/-! ### Connections at rest -/

/-- It starts and ends without a statement in use, leaves none open, and finalizes none twice. -/
def Clean (m : SqliteM N β) : Prop :=
  ∀ c, c.stmt = none → (m c).2.stmt = none ∧ ∃ n, Tidied n c (m c).2

omit [DecidableEq N] in
theorem clean_pure (b : β) : Clean (pure b : SqliteM N β) := fun c hc => ⟨hc, 0, rfl, logged_refl c⟩

omit [DecidableEq N] in
theorem Clean.bind {m : SqliteM N β} {f : β → SqliteM N γ} (hm : Clean m)
    (hf : ∀ b, Clean (f b)) : Clean (m >>= f) := by
  intro c hc
  obtain ⟨hst, n, hn⟩ := hm c hc
  obtain ⟨hst', k, hk⟩ := hf (m c).1 (m c).2 hst
  exact ⟨hst', n + k, hn.trans hk⟩

omit [DecidableEq N] in
theorem Clean.ite {p : Prop} [Decidable p] {m m' : SqliteM N β} (hm : Clean m) (hm' : Clean m') :
    Clean (if p then m else m') := by
  split
  · exact hm
  · exact hm'

/-- Both end with `close`. -/
theorem stmt_execute (q : Sql N) (vals : List Value) (early late ok : ε) (c : Conn N) :
    (execute q vals early late ok c).2.stmt = none := by
  simp only [execute, run_bind, run_ite, run_pure]
  split
  · rfl
  split
  · rfl
  cases (step (N := N) _).1 <;> rfl

theorem stmt_query (q : Sql N) (vals : List Value) (f : τ → Record → τ × Option ε) (s : τ) (e : ε)
    (c : Conn N) : (query q vals f s e c).2.stmt = none := by
  simp only [query, run_bind, run_ite, run_pure]
  split
  · rfl
  split <;> rfl

theorem clean_execute (q : Sql N) (vals : List Value) (early late ok : ε) :
    Clean (execute q vals early late ok) :=
  fun c _ => ⟨stmt_execute q vals early late ok c, tidy_execute q vals early late ok c⟩

theorem clean_query (q : Sql N) (vals : List Value) (f : τ → Record → τ × Option ε) (s : τ)
    (e : ε) : Clean (query q vals f s e) :=
  fun c _ => ⟨stmt_query q vals f s e c, tidy_query q vals f s e c⟩

/-- No statement is in use, and every one that was prepared on the connection was finalized,
once. -/
structure AtRest (c : Conn N) : Prop where
  stmt : c.stmt = none
  prepared : preparedIds c.trace = (List.range' 0 c.prepared).reverse
  finalized : finalizedIds c.trace = (List.range' 0 c.prepared).reverse

omit [DecidableEq N] in
theorem atRest_open (db : Database N) (env : Env) : AtRest ((Conn.open db).given env) :=
  ⟨rfl, rfl, rfl⟩

omit [DecidableEq N] in
theorem Clean.atRest {m : SqliteM N β} (hm : Clean m) (h : AtRest c) : AtRest (m c).2 := by
  obtain ⟨hst, n, hprep, new, htrace, hp, hf⟩ := hm c h.stmt
  have happ : (List.range' c.prepared n).reverse ++ (List.range' 0 c.prepared).reverse =
      (List.range' 0 (c.prepared + n)).reverse := by
    rw [← List.reverse_append]
    have hcat := List.range'_append_1 (s := 0) (m := c.prepared) (n := n)
    rw [Nat.zero_add] at hcat
    rw [hcat]
  refine ⟨hst, ?_, ?_⟩
  · rw [hprep, htrace, preparedIds, List.filterMap_append, ← preparedIds, ← preparedIds, hp,
      h.prepared, happ]
  · rw [hprep, htrace, finalizedIds, List.filterMap_append, ← finalizedIds, ← finalizedIds, hf,
      h.finalized, happ]

end Log

end Sqlite
