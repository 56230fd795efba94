import SimpleTaskQueue.Refinement.File
/-!
# SimpleTaskQueue.Properties.Counter

**Task IDs increase until the counter wraps around.** `getID` moves the counter on without
looking at its range: behind `2^31 - 1` comes `-2^31`. As long as no `addTask` finds a negative
counter, the IDs handed out are strictly increasing, over any number of sessions; and the first
one after the wrap is smaller than all before it.
-/

namespace SimpleTaskQueue

open Sqlite Sqlite.Conn Runs QueueFile

variable {f₀ f u : QueueFile} {a : FileAction} {o : FileOutput}
  {es : List (FileAction × FileOutput)} {n : Int}

/-- The IDs handed out, in the order of time. -/
def issued (es : List (FileAction × FileOutput)) : List Int := es.filterMap issuedID

/-- An `addTask` finds a counter that has not wrapped around. -/
def NotWrapped (f : QueueFile) (a : FileAction) : Prop :=
  a.isAddTask = true → ∀ n ∈ storedID f.content, 0 ≤ n

instance (f : QueueFile) (a : FileAction) : Decidable (NotWrapped f a) :=
  inferInstanceAs (Decidable (_ → ∀ _ ∈ _, _))

theorem issued_snoc_none (h : issuedID (a, o) = none) : issued (es ++ [(a, o)]) = issued es := by
  rw [issued, List.filterMap_append, List.filterMap_cons_none h, List.filterMap_nil,
    List.append_nil, issued]

theorem issued_snoc_some (h : issuedID (a, o) = some n) :
    issued (es ++ [(a, o)]) = issued es ++ [n] := by
  rw [issued, List.filterMap_append, List.filterMap_cons_some h, List.filterMap_nil, issued]

/-- The IDs handed out so far, against the counter. -/
structure Increasing (es : List (FileAction × FileOutput)) (n : Int) : Prop where
  pairwise : (issued es).Pairwise (· < ·)
  nonneg : ∀ i ∈ issued es, 0 ≤ i
  /-- Before the wrap the counter is ahead of them. -/
  below : 0 ≤ n → ∀ i ∈ issued es, i < n

theorem nextID_pos (hn : IsInt32 n) (h₀ : 0 ≤ n) (h : 0 ≤ nextID n) : nextID n = n + 1 := by
  by_cases hlt : n < 2 ^ 31 - 1
  · exact nextID_of_lt h₀ hlt
  · obtain ⟨-, hup⟩ := hn
    obtain rfl : n = 2 ^ 31 - 1 := by omega
    exact absurd h (by decide)

/-- **Step lemma.** -/
theorem Increasing.step {m : Int} (h : Increasing es n) (hn : IsInt32 n)
    (ha : a.isAddTask = true → 0 ≤ n) (hc : CounterStep n a o m) :
    Increasing (es ++ [(a, o)]) m := by
  cases hc with
  | same hnone =>
      have hsame : issued (es ++ [(a, o)]) = issued es := issued_snoc_none hnone
      exact ⟨hsame ▸ h.pairwise, hsame ▸ h.nonneg, hsame ▸ h.below⟩
  | skipped hadd hnone =>
      have hsame : issued (es ++ [(a, o)]) = issued es := issued_snoc_none hnone
      have h₀ := ha hadd
      refine ⟨hsame ▸ h.pairwise, hsame ▸ h.nonneg, fun hm i hi => ?_⟩
      have := h.below h₀ i (hsame ▸ hi)
      rw [nextID_pos hn h₀ hm]
      omega
  | @issued env t =>
      have h₀ := ha rfl
      have hsnoc : issued (es ++ [(.call env (.addTask t),
          .returned (.task .OK { t with ID := n }))]) = issued es ++ [n] := issued_snoc_some rfl
      have hmem : ∀ i ∈ issued (es ++ [(.call env (.addTask t),
          .returned (.task .OK { t with ID := n }))]), i ∈ issued es ∨ i = n := by
        intro i hi
        rw [hsnoc] at hi
        simpa using hi
      refine ⟨?_, fun i hi => ?_, fun hm i hi => ?_⟩
      · rw [hsnoc, List.pairwise_append]
        refine ⟨h.pairwise, List.pairwise_singleton _ _, fun i hi j hj => ?_⟩
        obtain rfl : j = n := by simpa using hj
        exact h.below h₀ i hi
      · rcases hmem i hi with hi | rfl
        · exact h.nonneg i hi
        · exact h₀
      · rw [nextID_pos hn h₀ hm]
        rcases hmem i hi with hi | rfl
        · have := h.below h₀ i hi
          omega
        · omega

/-- **Run lemma.** -/
theorem run_increasing (h₀ : f₀.Created) (h : Run QueueFile.step NotWrapped f₀ es f) :
    ∃ n, Stored n f.content ∧ IsInt32 n ∧ Increasing es n := by
  induction h with
  | nil => exact ⟨0, h₀.stored, by decide, by simp [issued], by simp [issued], by simp [issued]⟩
  | snoc _ hok hs ih =>
      obtain ⟨n, hst, hn, hinc⟩ := ih
      obtain ⟨m, hm, hc⟩ := step_stored hst hn hs
      exact ⟨m, hm, hc.isInt32 hn, hinc.step hn (fun ha => hok ha n hst.storedID) hc⟩

/-- **The order of the IDs.** In a run in which no `addTask` finds a wrapped counter, the IDs are
handed out in strictly increasing order. And the next `addTask` goes on with a greater ID exactly
if it does not find a wrapped counter either, or is the first to succeed at all. -/
theorem issued_increasing (h₀ : f₀.Created) (h : Run QueueFile.step NotWrapped f₀ es f) :
    (issued es).Pairwise (· < ·) ∧
      ∀ a o u i, f.step a = some (o, u) → issuedID (a, o) = some i →
        ((∀ j ∈ issued es, j < i) ↔ NotWrapped f a ∨ issued es = []) := by
  obtain ⟨n, hst, hn, hinc⟩ := run_increasing h₀ h
  refine ⟨hinc.pairwise, fun a o u i hs hi => ?_⟩
  obtain ⟨m, -, hc⟩ := step_stored hst hn hs
  cases hc with
  | same hnone | skipped _ hnone =>
      rw [hi] at hnone
      cases hnone
  | issued =>
      obtain rfl : n = i := Option.some.inj hi
      constructor
      · intro hlt
        by_cases hnil : issued es = []
        · exact .inr hnil
        · -- the IDs before the wrap are not negative
          obtain ⟨j, hj⟩ := List.exists_mem_of_ne_nil _ hnil
          refine .inl fun _ k hk => ?_
          obtain rfl : n = k := Option.some.inj (hst.storedID.symm.trans hk)
          exact le_of_lt (lt_of_le_of_lt (hinc.nonneg j hj) (hlt j hj))
      · rintro (hok | hnil)
        · exact hinc.below (hok rfl n hst.storedID)
        · simp [hnil]

/-- The run that gives `issued_increasing` its witness: three tasks in two sessions, the program
dying in between. -/
def twoLives : List FileAction :=
  [.call Env.rowid (.addTask listing), .die Env.rowid (.addTask listing) 10,
    .connectToDB Env.rowid true, .call Env.rowid (.addTask listing)]

theorem twoLives_runs : (script QueueFile.step NotWrapped (.opened SQLiteQueue.fresh.mToken)
    twoLives).isSome = true := by
  decide +kernel

theorem issued_increasing_twoLives :
    ∃ es f, Run QueueFile.step NotWrapped (.opened SQLiteQueue.fresh.mToken) es f ∧
      issued es = [0, 2] ∧ (issued es).Pairwise (· < ·) :=
  ⟨_, _, Run.of_script twoLives_runs, by decide +kernel,
    (issued_increasing SQLiteQueue.created_fresh (Run.of_script twoLives_runs)).1⟩

/-! ### The wrap -/

theorem nextID_toInt32 (k : Int) : nextID (toInt32 k) = toInt32 (k + 1) := Int.bmod_add_bmod

/-- `addTask` and then `clearPending`, both succeeding. -/
theorem exists_round {c : Conn TableName} (hdb : c.db = ledgerDB ⟨[], [], n⟩) (hn : IsInt32 n) :
    ∃ es c', Run QueueFile.step anyAction (.opened c) es (.opened c') ∧
      c'.db = ledgerDB ⟨[], [], nextID n⟩ ∧ issued es = [n] := by
  have hrel : ∀ c : Conn TableName, (c.given Env.rowid).Reliable := fun _ => by
    simp [Conn.Reliable, Conn.given, Env.rowid]
  obtain ⟨⟨-, -, hno⟩ | ⟨-, -, hno⟩ | ⟨hr₁, hd₁, -⟩, -⟩ :=
    addTask_spec (c := c.given Env.rowid) hdb hn listing
  · exact absurd (hrel c) hno
  · exact absurd (by simp) (hno (hrel c))
  · generalize hc₁ : addTask listing (c.given Env.rowid) = r₁ at hr₁ hd₁
    obtain ⟨out, c₁⟩ := r₁
    obtain rfl : out = (.OK, { listing with ID := n }) := hr₁
    obtain ⟨⟨-, -, hno⟩ | ⟨hr₂, hd₂⟩, -⟩ := clearPending_spec (c := c₁.given Env.rowid) hd₁
    · exact absurd (hrel c₁) hno
    · have hadd : QueueFile.step (.opened c) (.call Env.rowid (.addTask listing)) =
          some (.returned (.task .OK { listing with ID := n }), .opened c₁) := by
        simp only [QueueFile.step, Operation.run, run_bind, run_pure, hc₁]
      have hclear : QueueFile.step (.opened c₁) (.call Env.rowid .clearPending) =
          some (.returned (.code .OK), .opened (clearPending (c₁.given Env.rowid)).2) := by
        simp only [QueueFile.step, Operation.run, run_bind, run_pure, hr₂]
      exact ⟨_, _, (Run.single trivial hadd).snoc trivial hclear, hd₂, rfl⟩

/-- Any number of these rounds. -/
theorem exists_rounds {c₀ : Conn TableName} (h₀ : c₀.db = ledgerDB emptyLedger) (k : Nat) :
    ∃ es c, Run QueueFile.step anyAction (.opened c₀) es (.opened c) ∧
      c.db = ledgerDB ⟨[], [], toInt32 k⟩ ∧
      issued es = (List.range k).map fun (i : Nat) => toInt32 i := by
  induction k with
  | zero => exact ⟨[], _, .nil, h₀, rfl⟩
  | succ k ih =>
      obtain ⟨es, c, hrun, hdb, hes⟩ := ih
      obtain ⟨es', c', hrun', hdb', hes'⟩ := exists_round hdb (toInt32_isInt32 k)
      refine ⟨es ++ es', c', hrun.append hrun', ?_, ?_⟩
      · rw [hdb', nextID_toInt32]
        push_cast
        rfl
      · rw [issued, List.filterMap_append, List.range_succ, List.map_append]
        exact congrArg₂ (· ++ ·) hes hes'

/-- **After `2^31` tasks the IDs start over from below**: behind the IDs `0` to `2^31 - 1` the
next one is `-2^31`. -/
theorem issued_wraps :
    QueueFile.Created (.opened SQLiteQueue.fresh.mToken) ∧
      ∃ es f, Run QueueFile.step anyAction (.opened SQLiteQueue.fresh.mToken) es f ∧
        issued es = ((List.range (2 ^ 31)).map fun (i : Nat) => toInt32 i) ++ [-2 ^ 31] ∧
        ¬ (issued es).Pairwise (· < ·) := by
  obtain ⟨es, c, hrun, -, hes⟩ := exists_rounds fresh_refines.db (2 ^ 31 + 1)
  have hlast : toInt32 ((2 ^ 31 : Nat) : Int) = -2 ^ 31 := by decide
  have hzero : toInt32 ((0 : Nat) : Int) = 0 := by decide
  rw [List.range_succ, List.map_append, List.map_cons, List.map_nil, hlast] at hes
  refine ⟨SQLiteQueue.created_fresh, es, _, hrun, hes, fun hpair => ?_⟩
  rw [hes, List.pairwise_append] at hpair
  -- the first ID was 0
  have hmem : (0 : Int) ∈ (List.range (2 ^ 31)).map fun (i : Nat) => toInt32 i :=
    List.mem_map.mpr ⟨0, List.mem_range.mpr (by decide), hzero⟩
  exact absurd (hpair.2.2 0 hmem (-2 ^ 31) (by simp)) (by decide)

end SimpleTaskQueue
