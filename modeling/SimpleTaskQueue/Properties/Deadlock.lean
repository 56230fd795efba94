import SimpleTaskQueue.Model.Dao.SQLiteQueue.Locks
/-!
# SimpleTaskQueue.Properties.Deadlock

**The two mutexes of the queue can deadlock**, and exactly in this way: `mainLoopFin`, with an
exit code, and a client in `clearPending` or `removeTask` each take their first mutex before
the other takes its second. As long as no step does that (`Crossing`), no two threads ever wait
for each other.
-/

namespace SimpleTaskQueue

open Mutex Runs

variable {s s' : Threads Lock} {t t' : Thread Lock} {i j : Nat} {a : Act LockCall}

theorem queueLocks_proper : queueLocks.Proper := by
  intro c
  cases c with
  | currentTask running => cases running <;> simp [queueLocks, LockCall.program, Thread.Proper,
      TwoPhase, leaves, currentTaskOnly]
  | mainLoopInit row => cases row <;> simp [queueLocks, LockCall.program, Thread.Proper,
      TwoPhase, leaves, tokenFirst, tokenOnly]
  | mainLoopFin exitCode => cases exitCode <;> simp [queueLocks, LockCall.program, Thread.Proper,
      TwoPhase, leaves, currentTaskFirst, currentTaskOnly]
  | listPending | listFinished | pendingDetails | finishedDetails | clearPending | clearFinished
  | addTask | removeTask => simp [queueLocks, LockCall.program, Thread.Proper, TwoPhase, leaves,
      tokenFirst, tokenOnly]

/-! ### Where a thread can stand -/

/-- Where a thread can stand in a call that acquires the token first, or one mutex only: what
is left to do, and what is held. -/
def points : List (Thread Lock) :=
  [⟨[], []⟩, ⟨tokenOnly, []⟩, ⟨[.release .token], [.token]⟩, ⟨tokenFirst, []⟩,
    ⟨[.acquire .currentTask, .release .currentTask, .release .token], [.token]⟩,
    ⟨[.release .currentTask, .release .token], [.currentTask, .token]⟩,
    ⟨currentTaskOnly, []⟩, ⟨[.release .currentTask], [.currentTask]⟩]

/-- Where a thread can stand in `mainLoopFin` with an exit code, until it releases. -/
def finPoints : List (Thread Lock) :=
  [⟨currentTaskFirst, []⟩,
    ⟨[.acquire .token, .release .token, .release .currentTask], [.currentTask]⟩,
    ⟨[.release .token, .release .currentTask], [.token, .currentTask]⟩]

/-- Every thread stands at a point of a call it may make. -/
def Placed (s : Threads Lock) : Prop :=
  ∀ i t, s[i]? = some t → t ∈ points ∨ i = 0 ∧ t ∈ finPoints

theorem program_placed {c : LockCall} (h : queueLocks.may i c = true) :
    (⟨c.program, []⟩ : Thread Lock) ∈ points ∨
      i = 0 ∧ (⟨c.program, []⟩ : Thread Lock) ∈ finPoints := by
  cases c with
  | currentTask running => cases running <;> exact .inl (by decide)
  | mainLoopInit row => cases row <;> exact .inl (by decide)
  | mainLoopFin exitCode =>
      cases exitCode with
      | false => exact .inl (by decide)
      | true => exact .inr ⟨by simpa [queueLocks, LockCall.ofWorker] using h, by decide⟩
  | listPending | listFinished | pendingDetails | finishedDetails | clearPending | clearFinished
  | addTask | removeTask => exact .inl (by decide)

/-- The next point of a thread that is not blocked. -/
def next (t : Thread Lock) : Thread Lock := (advance [] t).getD t

theorem advance_eq_next (h : advance s t = some t') : t' = next t := by
  unfold next
  obtain ⟨rest, held⟩ := t
  rcases advance_cases h with ⟨m, hrest, hheld, -⟩ | ⟨m, hrest, hheld⟩
  · simp only at hrest hheld
    subst hrest
    simp [advance, ← hheld]
  · simp only at hrest hheld
    subst hrest
    simp [advance, ← hheld]

theorem next_points : ∀ t ∈ points, next t ∈ points := by decide

theorem next_finPoints : ∀ t ∈ finPoints, next t ∈ points ∨ next t ∈ finPoints := by decide

theorem placed_step (hs : Placed s) (h : queueLocks.step s a = some ((), s')) : Placed s' := by
  have hset : ∀ {k : Nat} {x y : Thread Lock}, s[k]? = some x →
      (y ∈ points ∨ k = 0 ∧ y ∈ finPoints) → Placed (s.set k y) := by
    intro k x y hx hy i t ht
    rcases getElem?_set_some ht with ⟨rfl, rfl⟩ | ⟨-, ht⟩
    · exact hy
    · exact hs i t ht
  rcases step_cases h with ⟨k, c, x, -, hx, hmay, hrest, rfl⟩ | ⟨k, x, x', -, hx, hadv, rfl⟩
  · have hheld : x.held = [] := by
      have hidle : ∀ t ∈ points ++ finPoints, t.rest = [] → t.held = [] := by decide
      refine hidle x ?_ hrest
      rcases hs k x hx with hp | ⟨-, hp⟩
      · exact List.mem_append_left _ hp
      · exact List.mem_append_right _ hp
    rw [hheld]
    exact hset hx (program_placed hmay)
  · obtain rfl := advance_eq_next hadv
    refine hset hx ?_
    rcases hs k x hx with hp | ⟨h0, hp⟩
    · exact .inl (next_points x hp)
    · exact (next_finPoints x hp).imp_right fun h => ⟨h0, h⟩

theorem placed_idle (n : Nat) : Placed (idle n) := by
  intro i t ht
  obtain ⟨-, rfl⟩ := List.mem_replicate.mp (List.mem_of_getElem? ht)
  exact .inl (by decide)

/-! ### The deadlock -/

/-- One side takes its first mutex while the other stands between its two: the worker begins
`mainLoopFin` (with an exit code), or a client begins `clearPending` or `removeTask`. -/
def Crossing (s : Threads Lock) (i : Nat) : Prop :=
  ∃ t j t', s[i]? = some t ∧ s[j]? = some t' ∧
    ((i = 0 ∧ j ≠ 0 ∧ t.rest = currentTaskFirst ∧ t'.held = [.token] ∧ t'.Waits .currentTask) ∨
      (i ≠ 0 ∧ j = 0 ∧ t.rest = tokenFirst ∧ t'.held = [.currentTask] ∧ t'.Waits .token))

theorem waits_iff {m : Lock} : t.Waits m ↔ t.rest.head? = some (.acquire m) :=
  List.head?_eq_some_iff.symm

/-- A thread that is about to take two mutexes stands at the beginning of its call. -/
theorem points_pair : ∀ t ∈ points, ∀ m m', t.rest.take 2 = [.acquire m, .acquire m'] →
    t = ⟨tokenFirst, []⟩ ∧ m = .token ∧ m' = .currentTask := by decide

theorem finPoints_pair : ∀ t ∈ finPoints, ∀ m m', t.rest.take 2 = [.acquire m, .acquire m'] →
    t = ⟨currentTaskFirst, []⟩ ∧ m = .currentTask ∧ m' = .token := by decide

/-- A thread that holds a mutex and wants one has the first of its call and wants the second. -/
theorem points_waits : ∀ t ∈ points, ∀ m ∈ t.held, ∀ m', t.rest.head? = some (.acquire m') →
    t.held = [.token] ∧ m = .token ∧ m' = .currentTask := by decide

theorem finPoints_waits : ∀ t ∈ finPoints, ∀ m ∈ t.held, ∀ m',
    t.rest.head? = some (.acquire m') →
    t.held = [.currentTask] ∧ m = .currentTask ∧ m' = .token := by decide

/-- In the queue a circle is closed only by a crossing. -/
theorem closes_iff_crossing (hs : Placed s) : Closes s i ↔ Crossing s i := by
  constructor
  · intro h
    obtain ⟨t, m, m', rest, j, t', x, ht, hrest, hji, ht', hm', hx, hw⟩ := h
    have htake : t.rest.take 2 = [.acquire m, .acquire m'] := by rw [hrest]; rfl
    rw [waits_iff] at hw
    refine ⟨t, j, t', ht, ht', ?_⟩
    rcases hs i t ht with hp | ⟨rfl, hp⟩
    · -- two calls of the same order cannot wait for each other
      obtain ⟨rfl, rfl, rfl⟩ := points_pair t hp m m' htake
      obtain rfl := List.mem_singleton.mp hx
      rcases hs j t' ht' with hp' | ⟨rfl, hp'⟩
      · have := (points_waits t' hp' _ hm' _ hw).2.1
        cases this
      · exact .inr ⟨hji.symm, rfl, rfl, (finPoints_waits t' hp' _ hm' _ hw).1, waits_iff.mpr hw⟩
    · obtain ⟨rfl, rfl, rfl⟩ := finPoints_pair t hp m m' htake
      obtain rfl := List.mem_singleton.mp hx
      rcases hs j t' ht' with hp' | ⟨rfl, hp'⟩
      · exact .inl ⟨rfl, hji, rfl, (points_waits t' hp' _ hm' _ hw).1, waits_iff.mpr hw⟩
      · -- there is one worker
        exact absurd rfl hji
  · intro h
    obtain ⟨t, j, t', ht, ht', ⟨hi, hj, hrest, hheld, hw⟩ | ⟨hi, hj, hrest, hheld, hw⟩⟩ := h
    · refine ⟨t, .currentTask, .token, _, j, t', .currentTask, ht, hrest, ?_, ht', ?_, ?_, hw⟩
      · intro hji
        subst hji
        exact hj hi
      · simp [hheld]
      · simp
    · refine ⟨t, .token, .currentTask, _, j, t', .token, ht, hrest, ?_, ht', ?_, ?_, hw⟩
      · intro hji
        subst hji
        exact hi hj
      · simp [hheld]
      · simp

/-- **The deadlock of the queue.** In a run of the worker and `n` clients no two threads ever
wait for each other if and only if no step of the run is a crossing. -/
theorem queue_deadlock_free_iff {n : Nat} {es : List (Act LockCall × Unit)}
    (h : Run queueLocks.step anyAction (idle (n + 1)) es s) :
    (∀ es₁ es₂ s₁, es = es₁ ++ es₂ → Run queueLocks.step anyAction (idle (n + 1)) es₁ s₁ →
      ¬ Deadlock s₁) ↔
      ∀ es₁ i es₂ s₁, es = es₁ ++ (.step i, ()) :: es₂ →
        Run queueLocks.step anyAction (idle (n + 1)) es₁ s₁ → ¬ Crossing s₁ i := by
  have hplaced : ∀ {es₁ s₁}, Run queueLocks.step anyAction (idle (n + 1)) es₁ s₁ → Placed s₁ :=
    fun h₁ => h₁.invariant (placed_idle _) fun _ _ _ _ hs _ hstep => placed_step hs hstep
  rw [deadlock_free_iff queueLocks_proper h]
  refine forall₄_congr fun es₁ i es₂ s₁ => forall_congr' fun _ => forall_congr' fun h₁ => ?_
  rw [closes_iff_crossing (hplaced h₁)]

/-- A client clears `pending` while no task ends. -/
def quietClear : List (Act LockCall) :=
  [.call 1 .clearPending, .step 1, .step 1, .step 1, .step 1, .call 0 (.mainLoopFin true), .step 0]

theorem quietClear_runs :
    (script queueLocks.step anyAction (idle 2) quietClear).isSome := by
  decide +kernel

theorem queue_deadlock_free_iff_quietClear :
    let es := ((script queueLocks.step anyAction (idle 2) quietClear).get quietClear_runs).1
    (∀ es₁ es₂ s₁, es = es₁ ++ es₂ → Run queueLocks.step anyAction (idle 2) es₁ s₁ →
      ¬ Deadlock s₁) ↔
      ∀ es₁ i es₂ s₁, es = es₁ ++ (.step i, ()) :: es₂ →
        Run queueLocks.step anyAction (idle 2) es₁ s₁ → ¬ Crossing s₁ i :=
  queue_deadlock_free_iff (n := 1) (Run.of_script quietClear_runs)

/-- A client clears `pending` while `mainLoopFin` begins: each takes its first mutex. -/
def clearAtTheEnd : List (Act LockCall) :=
  [.call 0 (.mainLoopFin true), .call 1 .clearPending, .step 0, .step 1]

theorem clearAtTheEnd_deadlock :
    ∃ es s, Run queueLocks.step anyAction (idle 2) es s ∧ Deadlock s := by
  have h : (script queueLocks.step anyAction (idle 2) clearAtTheEnd).isSome := by decide +kernel
  refine ⟨_, _, Run.of_script h, 0, 1, _, _, .currentTask, .token, by decide, rfl, rfl, ?_, ?_, ?_,
    ?_⟩
  · decide
  · exact ⟨_, rfl⟩
  · decide
  · exact ⟨_, rfl⟩

end SimpleTaskQueue
