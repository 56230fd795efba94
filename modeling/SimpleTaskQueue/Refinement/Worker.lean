import SimpleTaskQueue.Model.Dao.SQLiteQueue.Queue
/-!
# SimpleTaskQueue.Refinement.Worker

Control flow of `mainLoop`: what a step of a thread can do (`LoopStep`), and the discipline
under which there is **one worker at a time**. The code does not enforce it: `start` looks at
`m_isRunning` only, which is cleared while the thread is still in the loop. `OneWorker` asks
of a `start` that launches a thread that no earlier thread is in the loop; it holds in
particular when every earlier `mainLoop` has returned.

Under this discipline at most one thread is in the loop (`Run.single`), and the step of a
thread determines whether a task is being executed.
-/

namespace SimpleTaskQueue

open Sqlite Runs

namespace SQLiteQueue

variable {q u : SQLiteQueue} {pc pc' : Pc} {w : Work} {a : Action} {o : Output}

/-- The steps of a thread, one constructor for each place it can stand in. -/
inductive LoopStep (q : SQLiteQueue) : Pc → Work → Output → SQLiteQueue → Pc → Prop
  | test : LoopStep q .test .go .silent q (if q.mStart then .init else .clearRunning)
  | init (env : Env) : LoopStep q .init (.init env) (q.runInit env).1 (q.runInit env).2.1
      (q.runInit env).2.2
  | startProcess (ok : Bool) : LoopStep q .startProcess (.start ok) (.started q.mCurrentTask ok) q
      (if ok then .poll else .finFailed)
  | poll (running : Bool) : LoopStep q .poll (.isRunning running) .silent q
      (if running then .poll else .fin)
  | fin (env : Env) (exitCode : Option Int) : LoopStep q .fin (.fin env exitCode)
      (q.runFin env exitCode).1 (q.runFin env exitCode).2 .test
  | finFailed (env : Env) (exitCode : Option Int) : LoopStep q .finFailed (.fin env exitCode)
      (q.runFin env exitCode).1 (q.runFin env exitCode).2 .clearStart
  | clearStart : LoopStep q .clearStart .go .silent { q with mStart := false } .test
  | clearRunning : LoopStep q .clearRunning .go .silent { q with mIsRunning := false } .returned

theorem LoopStep.of_mainLoop {r : Output × SQLiteQueue × Pc} (h : q.mainLoop pc w = some r) :
    LoopStep q pc w r.1 r.2.1 r.2.2 := by
  unfold mainLoop at h
  split at h
  · cases h; exact .test
  · cases h; exact .init _
  · cases h; exact .startProcess _
  · cases h; exact .poll _
  · cases h; exact .fin _ _
  · cases h; exact .finFailed _ _
  · cases h; exact .clearStart
  · cases h; exact .clearRunning
  · cases h

/-- The three ways in which `mainLoopInit` ends. -/
theorem runInit_cases (q : SQLiteQueue) (env : Env) :
    let r := q.call env mainLoopInit
    (r.1 = .notPrepared ∧ q.runInit env = (.inited r.1, r.2, .test)) ∨
    (∃ t, r.1 = .picked t ∧
      q.runInit env = (.inited r.1, { r.2 with mCurrentTask := t }, .startProcess)) ∨
    (r.1 = .stopped ∧
      q.runInit env = (.inited r.1, { r.2 with mStart := false, mIsRunning := false }, .test)) := by
  intro r
  rcases hr : r with ⟨_ | t | _, q'⟩
  · exact .inl ⟨rfl, by simp only [runInit, show q.call env mainLoopInit = _ from hr]⟩
  · exact .inr (.inl ⟨t, rfl, by simp only [runInit, show q.call env mainLoopInit = _ from hr]⟩)
  · exact .inr (.inr ⟨rfl, by simp only [runInit, show q.call env mainLoopInit = _ from hr]⟩)

theorem runInit_threads (q : SQLiteQueue) (env : Env) :
    (q.runInit env).2.1.threads = q.threads := by
  rcases q.runInit_cases env with ⟨-, h⟩ | ⟨t, -, h⟩ | ⟨-, h⟩ <;> rw [h] <;> rfl

theorem LoopStep.threads (h : LoopStep q pc w o u pc') : u.threads = q.threads := by
  cases h with
  | init env => exact q.runInit_threads env
  | test | startProcess | poll | fin | finFailed | clearStart | clearRunning => rfl

/-- No step leads into the loop. -/
theorem LoopStep.inLoop (h : LoopStep q pc w o u pc') (hpc : pc'.InLoop = true) :
    pc.InLoop = true := by
  cases h with
  | clearRunning => exact hpc
  | test | init | startProcess | poll | fin | finFailed | clearStart => rfl

/-- A step of the machine taken by a thread. -/
theorem step_worker {i : Nat} (h : q.step (.worker i w) = some (o, u)) :
    ∃ pc pc' q', q.threads[i]? = some pc ∧ LoopStep q pc w o q' pc' ∧
      u = { q' with threads := q.threads.set i pc' } := by
  simp only [step] at h
  split at h
  · simp at h
  · next pc hpc =>
    simp only [Option.map_eq_some_iff, Prod.mk.injEq] at h
    obtain ⟨⟨o', q', pc'⟩, hr, rfl, rfl⟩ := h
    have hl := LoopStep.of_mainLoop hr
    exact ⟨pc, pc', q', hpc, hl, by rw [← hl.threads]⟩

/-! ### One worker at a time -/

/-- At most one thread is in the loop. -/
def Single (ts : List Pc) : Prop :=
  ∀ (i j : Nat) (p p' : Pc), ts[i]? = some p → ts[j]? = some p' → p.InLoop = true →
    p'.InLoop = true → i = j

/-- A thread executes a task. -/
def Executing (ts : List Pc) : Prop := ∃ p ∈ ts, p.Executing = true

/-- The discipline: a `start` that launches a thread finds no thread in the loop. -/
def OneWorker (q : SQLiteQueue) (a : Action) : Prop :=
  a.isStart = true → q.mIsRunning = false → ∀ p ∈ q.threads, p.InLoop = false

instance (q : SQLiteQueue) (a : Action) : Decidable (OneWorker q a) :=
  inferInstanceAs (Decidable (_ → _ → ∀ _ ∈ _, _))

theorem Pc.inLoop_of_executing {p : Pc} (h : p.Executing = true) : p.InLoop = true := by
  cases p <;> first | rfl | cases h

variable {ts : List Pc} {i : Nat} {p p' : Pc}

theorem Single.set (h : Single ts) (hi : ts[i]? = some p)
    (hp : p'.InLoop = true → p.InLoop = true) : Single (ts.set i p') := by
  have hback : ∀ (j : Nat) (x : Pc), (ts.set i p')[j]? = some x → x.InLoop = true →
      ∃ y : Pc, ts[j]? = some y ∧ y.InLoop = true := by
    intro j x hx hxl
    rcases getElem?_set_some hx with ⟨rfl, rfl⟩ | ⟨-, hx⟩
    · exact ⟨p, hi, hp hxl⟩
    · exact ⟨x, hx, hxl⟩
  intro j k x y hx hy hxl hyl
  obtain ⟨x', hx', hxl'⟩ := hback j x hx hxl
  obtain ⟨y', hy', hyl'⟩ := hback k y hy hyl
  exact h j k x' y' hx' hy' hxl' hyl'

theorem single_of_quiet (h : ∀ p ∈ ts, p.InLoop = false) (p' : Pc) : Single (ts ++ [p']) := by
  have hlast : ∀ (j : Nat) (x : Pc), (ts ++ [p'])[j]? = some x → x.InLoop = true →
      j = ts.length := by
    intro j x hx hxl
    by_contra hj
    rcases Nat.lt_or_ge j ts.length with hlt | hge
    · rw [List.getElem?_append_left hlt] at hx
      rw [h x (List.mem_of_getElem? hx)] at hxl
      cases hxl
    · rw [List.getElem?_eq_none (by simp; omega)] at hx
      cases hx
  intro j k x y hx hy hxl hyl
  rw [hlast j x hx hxl, hlast k y hy hyl]

/-- Among single threads the one in the loop decides whether a task is executed. -/
theorem Single.executing_iff (h : Single ts) (hi : ts[i]? = some p) (hp : p.InLoop = true) :
    Executing ts ↔ p.Executing = true := by
  refine ⟨fun ⟨x, hx, hxe⟩ => ?_, fun hpe => ⟨p, List.mem_of_getElem? hi, hpe⟩⟩
  obtain ⟨j, hj⟩ := List.mem_iff_getElem?.mp hx
  obtain rfl := h j i x p hj hi (Pc.inLoop_of_executing hxe) hp
  rw [hi] at hj
  cases hj
  exact hxe

/-- After its step the same. -/
theorem Single.executing_set (h : Single ts) (hi : ts[i]? = some p) (hp : p.InLoop = true) :
    Executing (ts.set i p') ↔ p'.Executing = true := by
  have hset : (ts.set i p')[i]? = some p' := getElem?_set_of_some hi
  refine ⟨fun ⟨x, hx, hxe⟩ => ?_, fun hpe => ⟨p', List.mem_of_getElem? hset, hpe⟩⟩
  obtain ⟨j, hj⟩ := List.mem_iff_getElem?.mp hx
  rcases getElem?_set_some hj with ⟨-, rfl⟩ | ⟨hij, hj⟩
  · exact hxe
  · exact absurd (h i j p x hi hj hp (Pc.inLoop_of_executing hxe)) hij

/-- A thread that does not execute before or after its step changes nothing. -/
theorem executing_set_of_not (hi : ts[i]? = some p) (hp : p.Executing = false)
    (hp' : p'.Executing = false) : Executing (ts.set i p') ↔ Executing ts := by
  have hset : (ts.set i p')[i]? = some p' := getElem?_set_of_some hi
  constructor
  · intro h
    obtain ⟨x, hx, hxe⟩ := h
    rcases List.mem_or_eq_of_mem_set hx with hx | rfl
    · exact ⟨x, hx, hxe⟩
    · simp [hp'] at hxe
  · intro h
    obtain ⟨x, hx, hxe⟩ := h
    obtain ⟨j, hj⟩ := List.mem_iff_getElem?.mp hx
    have hij : i ≠ j := by
      intro hji
      subst hji
      rw [hi] at hj
      cases hj
      simp [hp] at hxe
    exact ⟨x, List.mem_of_getElem? ((List.getElem?_set_ne hij).trans hj), hxe⟩

theorem executing_append_test : Executing (ts ++ [.test]) ↔ Executing ts := by
  simp only [Executing, List.mem_append, List.mem_singleton]
  constructor
  · intro h
    obtain ⟨p, hp | rfl, he⟩ := h
    · exact ⟨p, hp, he⟩
    · cases he
  · intro h
    obtain ⟨p, hp, he⟩ := h
    exact ⟨p, .inl hp, he⟩

/-! ### Control under the discipline -/

/-- Client calls other than `start` leave the threads alone. -/
theorem step_client_threads (h : q.step a = some (o, u)) (hw : ∀ i w, a ≠ .worker i w)
    (hs : a ≠ .start) : u.threads = q.threads := by
  cases a with
  | worker i w => exact absurd rfl (hw i w)
  | start => exact absurd rfl hs
  | stop =>
      simp only [step, Option.some.injEq, Prod.mk.injEq] at h
      obtain ⟨-, rfl⟩ := h
      unfold stopImpl
      split <;> rfl
  | listPending | listFinished | pendingDetails | finishedDetails | clearPending | clearFinished
  | currentTask | addTask | removeTask =>
      simp only [step, Option.some.injEq, Prod.mk.injEq] at h
      obtain ⟨-, rfl⟩ := h
      rfl

/-- Client calls leave `m_currentTask` alone. -/
theorem step_client_currentTask (h : q.step a = some (o, u)) (hw : ∀ i w, a ≠ .worker i w) :
    u.mCurrentTask = q.mCurrentTask := by
  cases a with
  | worker i w => exact absurd rfl (hw i w)
  | stop | start =>
      simp only [step, Option.some.injEq, Prod.mk.injEq] at h
      obtain ⟨-, rfl⟩ := h
      simp only [stopImpl, start]
      split <;> rfl
  | listPending | listFinished | pendingDetails | finishedDetails | clearPending | clearFinished
  | currentTask | addTask | removeTask =>
      simp only [step, Option.some.injEq, Prod.mk.injEq] at h
      obtain ⟨-, rfl⟩ := h
      rfl

/-- **Step lemma.** The discipline keeps the worker single. -/
theorem single_step (hq : Single q.threads) (hok : OneWorker q a) (h : q.step a = some (o, u)) :
    Single u.threads := by
  by_cases hw : ∃ i w, a = .worker i w
  · obtain ⟨i, w, rfl⟩ := hw
    obtain ⟨pc, pc', q', hpc, hl, rfl⟩ := step_worker h
    exact hq.set hpc hl.inLoop
  · by_cases hs : a = .start
    · subst hs
      simp only [step, Option.some.injEq, Prod.mk.injEq] at h
      obtain ⟨-, rfl⟩ := h
      unfold start
      split
      · exact hq
      · next hrun => exact single_of_quiet (hok rfl (by simpa using hrun)) _
    · rw [step_client_threads h (fun i w hc => hw ⟨i, w, hc⟩) hs]
      exact hq

/-- **Run lemma.** At every moment of a run under the discipline at most one thread is in the
loop. -/
theorem run_single {es : List (Action × Output)} (h : Run step OneWorker q es u)
    (hq : Single q.threads) : Single u.threads :=
  h.invariant (I := fun q => Single q.threads) hq
    fun _ _ _ _ hI hok hs => single_step hI hok hs

theorem single_fresh : Single fresh.threads := fun i j p p' hi => by simp [fresh] at hi

end SQLiteQueue

end SimpleTaskQueue
