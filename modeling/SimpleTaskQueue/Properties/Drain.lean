import SimpleTaskQueue.Refinement.Provenance
/-!
# SimpleTaskQueue.Properties.Drain

**A queue that is started executes what waits in it.** Over all runs of the thread that `start`
launches, in which SQLite does not fail, every process can be started and asked for its exit code,
and no client stops the queue or takes tasks away: the thread executes the waiting tasks in their
order, those that clients add meanwhile behind them, and records each with its exit code. It makes
five steps for a task, besides polls of a process that goes on running, and four more to end.
-/

namespace SimpleTaskQueue

open Sqlite Runs SQLiteQueue

variable {q u v : SQLiteQueue} {L L₀ L' : QueueLedger} {fl fl' : Option Task} {a : Action}
  {o : Output} {es es₀ : List Event} {t : Task} {row : Row} {rows : List Row} {n k i : Nat}
  {pc : Pc}

/-! ### What happened -/

/-- The row of a task that was accepted. -/
def addOf : Event → Option Row
  | (.addTask _ _, .task .OK t) => some (addedRow t t.ID)
  | _ => none

/-- The rows of the tasks that were accepted, in order. -/
def addedRows (es : List Event) : List Row := es.filterMap addOf

/-- The exit code of a task that was finished. -/
def codeOf : Event → Option Int
  | (.worker _ (.fin _ exitCode), _) => exitCode
  | _ => none

/-- The exit codes, in order. -/
def exitCodes (es : List Event) : List Int := es.filterMap codeOf

/-- The task that the process got. -/
def startOf : Event → Option Task
  | (_, .started t _) => some t
  | _ => none

/-- The tasks that the process got, in order. -/
def startedTasks (es : List Event) : List Task := es.filterMap startOf

/-- The thread `i` made a step, and did not just find the process running. -/
def worksOn (i : Nat) : Event → Bool
  | (.worker _ (.isRunning true), _) => false
  | (.worker j _, _) => j == i
  | _ => false

/-- The number of these steps. -/
def works (i : Nat) (es : List Event) : Nat := es.countP (worksOn i)

section Snoc

variable {e : Event}

theorem addedRows_snoc : addedRows (es ++ [e]) = addedRows es ++ (addOf e).toList := by
  rw [addedRows, List.filterMap_append]
  cases h : addOf e <;> simp [h, addedRows]

theorem exitCodes_snoc : exitCodes (es ++ [e]) = exitCodes es ++ (codeOf e).toList := by
  rw [exitCodes, List.filterMap_append]
  cases h : codeOf e <;> simp [h, exitCodes]

theorem startedTasks_snoc : startedTasks (es ++ [e]) = startedTasks es ++ (startOf e).toList := by
  rw [startedTasks, List.filterMap_append]
  cases h : startOf e <;> simp [h, startedTasks]

theorem works_snoc : works i (es ++ [e]) = works i es + (worksOn i e).toNat := by
  rw [works, List.countP_append, List.countP_singleton]
  cases worksOn i e <;> rfl

end Snoc

/-- Nobody stops the queue or takes a task away, and nothing fails. -/
def Action.Undisturbed (a : Action) : Prop :=
  a.Reliable ∧ a.Rowid ∧
    match a with
    | .start | .stop | .removeTask _ _ | .clearPending _ | .clearFinished _ => False
    | .worker _ (.start ok) => ok = true
    | .worker _ (.fin _ exitCode) => exitCode ≠ none
    | _ => True

/-! ### Where the thread stands -/

/-- The thread has finished `k` of the tasks in `rows`, of which `n` are those that waited at first:
where it stands, with `m_start` and the task in flight, what it has started, and how many steps it
has made. -/
inductive Draining (rows : List Row) (n k : Nat) :
    List Task → Nat → Pc → Bool → Option Task → Prop
  | test : Draining rows n k ((rows.take k).map Row.task) (5 * k) .test true none
  | init : Draining rows n k ((rows.take k).map Row.task) (5 * k + 1) .init true none
  | picked {row : Row} (hrow : rows[k]? = some row) :
      Draining rows n k ((rows.take k).map Row.task) (5 * k + 2) .startProcess true (some row.task)
  | running {row : Row} (hrow : rows[k]? = some row) :
      Draining rows n k ((rows.take (k + 1)).map Row.task) (5 * k + 3) .poll true (some row.task)
  | ended {row : Row} (hrow : rows[k]? = some row) :
      Draining rows n k ((rows.take (k + 1)).map Row.task) (5 * k + 4) .fin true (some row.task)
  | empty (hk : n ≤ k) :
      Draining rows n k ((rows.take k).map Row.task) (5 * k + 2) .test false none
  | left (hk : n ≤ k) :
      Draining rows n k ((rows.take k).map Row.task) (5 * k + 3) .clearRunning false none
  | returned (hk : n ≤ k) :
      Draining rows n k ((rows.take k).map Row.task) (5 * k + 4) .returned false none

/-- A task that is added stands behind the others. -/
theorem Draining.add {started : List Task} {work : Nat} {start : Bool}
    (h : Draining rows n k started work pc start fl) (hk : k ≤ rows.length) (row : Row) :
    Draining (rows ++ [row]) n k started work pc start fl := by
  have htake : (rows ++ [row]).take k = rows.take k := List.take_append_of_le_length hk
  have hget : ∀ {row' : Row}, rows[k]? = some row' → (rows ++ [row])[k]? = some row' ∧
      (rows ++ [row]).take (k + 1) = rows.take (k + 1) := by
    intro row' hrow
    have hlt := (List.getElem?_eq_some_iff.mp hrow).1
    exact ⟨(List.getElem?_append_left hlt).trans hrow, List.take_append_of_le_length hlt⟩
  cases h with
  | test => exact htake ▸ .test
  | init => exact htake ▸ .init
  | picked hrow => exact htake ▸ .picked (hget hrow).1
  | running hrow => exact (hget hrow).2 ▸ .running (hget hrow).1
  | ended hrow => exact (hget hrow).2 ▸ .ended (hget hrow).1
  | empty hn => exact htake ▸ .empty hn
  | left hn => exact htake ▸ .left hn
  | returned hn => exact htake ▸ .returned hn

/-- The state behind `es`, when `L₀` was in the database at the time of `start`, and `i` is the
thread that it launched. -/
structure Drains (L₀ : QueueLedger) (i : Nat) (es : List Event) (q : SQLiteQueue) (L : QueueLedger)
    (fl : Option Task) : Prop where
  others : ∀ j pc, j ≠ i → q.threads[j]? = some pc → pc.InLoop = false
  le : (exitCodes es).length ≤ (L₀.pending ++ addedRows es).length
  pending : L.pending = (L₀.pending ++ addedRows es).drop (exitCodes es).length
  done : L.done = L₀.done ++ List.zipWith finishedRow
    (((L₀.pending ++ addedRows es).take (exitCodes es).length).map Row.task) (exitCodes es)
  place : ∃ pc, q.threads[i]? = some pc ∧
    Draining (L₀.pending ++ addedRows es) L₀.pending.length (exitCodes es).length
      (startedTasks es) (works i es) pc q.mStart fl

/-- The ledger stays as it is. -/
theorem Drains.move {e : Event} (h : Drains L₀ i es q L fl) (hadd : addOf e = none)
    (hcode : codeOf e = none)
    (hothers : ∀ j pc, j ≠ i → u.threads[j]? = some pc → pc.InLoop = false)
    (hpc : u.threads[i]? = some pc)
    (hplace : Draining (L₀.pending ++ addedRows es) L₀.pending.length (exitCodes es).length
      (startedTasks es ++ (startOf e).toList) (works i es + (worksOn i e).toNat) pc u.mStart fl') :
    Drains L₀ i (es ++ [e]) u L fl' := by
  have hrows : addedRows (es ++ [e]) = addedRows es := by
    rw [addedRows_snoc, hadd, Option.toList_none, List.append_nil]
  have hcodes : exitCodes (es ++ [e]) = exitCodes es := by
    rw [exitCodes_snoc, hcode, Option.toList_none, List.append_nil]
  refine ⟨hothers, ?_, ?_, ?_, pc, hpc, ?_⟩
  · rw [hrows, hcodes]
    exact h.le
  · rw [hrows, hcodes]
    exact h.pending
  · rw [hrows, hcodes]
    exact h.done
  · rw [hrows, hcodes, startedTasks_snoc, works_snoc]
    exact hplace

/-- A client reads. -/
theorem Drains.read {e : Event} (h : Drains L₀ i es q L fl) (hadd : addOf e = none)
    (hcode : codeOf e = none) (hstart : startOf e = none) (hworks : worksOn i e = false)
    (hthreads : u.threads = q.threads) (hmStart : u.mStart = q.mStart) :
    Drains L₀ i (es ++ [e]) u L fl := by
  obtain ⟨pc, hpc, hplace⟩ := h.place
  refine h.move hadd hcode (hthreads ▸ h.others) (hthreads ▸ hpc) ?_
  rw [hstart, hworks, Option.toList_none, List.append_nil, hmStart]
  exact hplace

/-- A client adds a task. -/
theorem Drains.add {env : Env} (h : Drains L₀ i es q L fl) (hthreads : u.threads = q.threads)
    (hmStart : u.mStart = q.mStart) (next : Int) :
    Drains L₀ i (es ++ [(.addTask env t, .task .OK { t with ID := L.next })]) u
      (L.add (addedRow t L.next) next) fl := by
  obtain ⟨pc, hpc, hplace⟩ := h.place
  let e : Event := (.addTask env t, .task .OK { t with ID := L.next })
  have hrows : L₀.pending ++ addedRows (es ++ [e]) =
      L₀.pending ++ addedRows es ++ [addedRow t L.next] := by
    rw [addedRows_snoc, ← List.append_assoc]
    rfl
  have hcodes : exitCodes (es ++ [e]) = exitCodes es := by
    rw [exitCodes_snoc]
    exact List.append_nil _
  have hstarted : startedTasks (es ++ [e]) = startedTasks es := by
    rw [startedTasks_snoc]
    exact List.append_nil _
  have hworks : works i (es ++ [e]) = works i es := works_snoc
  have hle := h.le
  refine ⟨hthreads ▸ h.others, ?_, ?_, ?_, pc, hthreads ▸ hpc, ?_⟩
  · rw [hrows, hcodes, List.length_append]
    omega
  · rw [hrows, hcodes, List.drop_append_of_le_length hle, ← h.pending]
    rfl
  · rw [hrows, hcodes, List.take_append_of_le_length hle]
    exact h.done
  · rw [hrows, hcodes, hstarted, hworks, hmStart]
    exact hplace.add hle _

/-- The thread finishes a task. -/
theorem Drains.finish {env : Env} {m : Int} {r : FinResult} (h : Drains L₀ i es q L (some row.task))
    (hothers : ∀ j pc, j ≠ i → u.threads[j]? = some pc → pc.InLoop = false)
    (hpc : u.threads[i]? = some .test) (hmStart : u.mStart = true)
    (hrow : (L₀.pending ++ addedRows es)[(exitCodes es).length]? = some row)
    (hpending : L'.pending = L.pending.tail)
    (hdone : L'.done = L.done ++ [finishedRow row.task m])
    (hstarted : startedTasks es =
      ((L₀.pending ++ addedRows es).take ((exitCodes es).length + 1)).map Row.task)
    (hworks : works i es = 5 * (exitCodes es).length + 4) :
    Drains L₀ i (es ++ [(.worker i (.fin env (some m)), .finished row.task r)]) u L' none := by
  let e : Event := (.worker i (.fin env (some m)), .finished row.task r)
  have hrows : addedRows (es ++ [e]) = addedRows es := by
    rw [addedRows_snoc]
    exact List.append_nil _
  have hcodes : exitCodes (es ++ [e]) = exitCodes es ++ [m] := exitCodes_snoc
  have hlen : (exitCodes (es ++ [e])).length = (exitCodes es).length + 1 := by
    rw [hcodes, List.length_append, List.length_singleton]
  have hstarted' : startedTasks (es ++ [e]) = startedTasks es := by
    rw [startedTasks_snoc]
    exact List.append_nil _
  have hworks' : works i (es ++ [e]) = works i es + 1 := by
    rw [works_snoc]
    simp [e, worksOn]
  have hlt := (List.getElem?_eq_some_iff.mp hrow).1
  have htake : (L₀.pending ++ addedRows es).take ((exitCodes es).length + 1) =
      (L₀.pending ++ addedRows es).take (exitCodes es).length ++ [row] := by
    rw [List.take_add_one, hrow, Option.toList_some]
  refine ⟨hothers, ?_, ?_, ?_, .test, hpc, ?_⟩
  · rw [hrows, hlen]
    exact hlt
  · rw [hrows, hlen, hpending, h.pending, List.tail_drop]
  · rw [hrows, hlen, hcodes, htake, hdone, h.done, List.map_append, List.append_assoc]
    congr 1
    rw [List.zipWith_append]
    · rfl
    · rw [List.length_map, List.length_take, Nat.min_eq_left h.le]
  · have hsteps : works i (es ++ [e]) = 5 * ((exitCodes es).length + 1) := by omega
    rw [hrows, hlen, hstarted', hstarted, hsteps, hmStart]
    exact .test

/-! ### Steps -/

/-- A step of a thread leaves the others where they were. -/
theorem others_set {pc' : Pc} (h : ∀ j pc, j ≠ i → q.threads[j]? = some pc → pc.InLoop = false)
    {q' : SQLiteQueue} :
    ∀ j pc, j ≠ i → ({ q' with threads := q.threads.set i pc' } : SQLiteQueue).threads[j]? =
      some pc → pc.InLoop = false := by
  intro j pc hj hpc
  refine h j pc hj ?_
  rwa [List.getElem?_set_ne (Ne.symm hj)] at hpc

/-- A step of another thread: it is out of the loop. -/
theorem Drains.other {j : Nat} {w : Work} (h : Drains L₀ i es q L fl) (hj : j ≠ i)
    (hs : q.step (.worker j w) = some (o, u)) (heff : Effect L fl (.worker j w) o L' fl') :
    Drains L₀ i (es ++ [(.worker j w, o)]) u L' fl' := by
  obtain ⟨pc, pc', q', hpc, hl, rfl⟩ := step_worker hs
  have hout := h.others j pc hj hpc
  obtain ⟨pcᵢ, hpcᵢ, hplace⟩ := h.place
  cases hl with
  | clearRunning =>
      cases heff
      refine h.move rfl rfl (fun m p hm hp => ?_)
        ((List.getElem?_set_ne hj).trans hpcᵢ) ?_
      · rcases getElem?_set_some hp with ⟨-, rfl⟩ | ⟨-, hp⟩
        · rfl
        · exact h.others m p hm hp
      · have hworks : worksOn i (.worker j .go, .silent) = false := beq_eq_false_iff_ne.mpr hj
        rw [hworks]
        show Draining _ _ _ (startedTasks es ++ []) (works i es + 0) pcᵢ q.mStart fl
        rw [List.append_nil]
        exact hplace
  | test | init | startProcess | poll | fin | finFailed | clearStart => cases hout

theorem worksOn_worker {j : Nat} {w : Work} (hw : w ≠ .isRunning true) :
    worksOn i (.worker j w, o) = (j == i) := by
  cases w with
  | isRunning running =>
      cases running with
      | true => exact absurd rfl hw
      | false => rfl
  | go | init | start | fin => rfl

/-- The thread makes a step that leaves the ledger alone. -/
theorem Drains.advance {w : Work} (h : Drains L₀ i es q L fl) (hw : w ≠ .isRunning true)
    (hcode : codeOf (.worker i w, o) = none)
    (hothers : ∀ j pc, j ≠ i → u.threads[j]? = some pc → pc.InLoop = false)
    (hpc : u.threads[i]? = some pc)
    (hplace : Draining (L₀.pending ++ addedRows es) L₀.pending.length (exitCodes es).length
      (startedTasks es ++ (startOf (.worker i w, o)).toList) (works i es + 1) pc u.mStart fl') :
    Drains L₀ i (es ++ [(.worker i w, o)]) u L fl' := by
  refine h.move rfl hcode hothers hpc ?_
  rw [worksOn_worker hw, beq_self_eq_true]
  exact hplace

/-- A step of the thread. -/
theorem Drains.thread {w : Work} (h : Drains L₀ i es q L fl) (hv : ValidFlight L fl)
    (hint : ∀ row ∈ L.pending, IsInt32 row.ID) (hu : (Action.worker i w).Undisturbed)
    (hs : q.step (.worker i w) = some (o, u)) (heff : Effect L fl (.worker i w) o L' fl') :
    Drains L₀ i (es ++ [(.worker i w, o)]) u L' fl' := by
  obtain ⟨hrel, hrowid, hwork⟩ := hu
  obtain ⟨pc, pc', q', hpc, hl, rfl⟩ := step_worker hs
  obtain ⟨pc₀, hpc₀, hplace⟩ := h.place
  obtain rfl : pc = pc₀ := Option.some.inj (hpc.symm.trans hpc₀)
  have hothers : ∀ {q' : SQLiteQueue} {pc' : Pc} (j : Nat) (pc : Pc), j ≠ i →
      ({ q' with threads := q.threads.set i pc' } : SQLiteQueue).threads[j]? = some pc →
        pc.InLoop = false := others_set h.others
  have hset : ∀ (pc' : Pc), (q.threads.set i pc')[i]? = some pc' := fun _ =>
    getElem?_set_of_some hpc
  -- the next row is the first one of the table
  have hhead : ∀ {row : Row}, (L₀.pending ++ addedRows es)[(exitCodes es).length]? = some row →
      L.pending.head? = some row := by
    intro row hrow
    rw [h.pending, List.head?_drop]
    exact hrow
  generalize hst : startedTasks es = st at hplace
  generalize hwk : works i es = wk at hplace
  generalize hms : q.mStart = start at hplace
  cases hl with
  | test =>
      cases heff
      cases hplace with
      | test =>
          refine h.advance nofun rfl hothers (hset _) ?_
          show Draining _ _ _ (startedTasks es ++ []) _ _ q.mStart none
          rw [hst, hwk, hms, List.append_nil, if_pos rfl]
          exact .init
      | empty hk =>
          refine h.advance nofun rfl hothers (hset _) ?_
          show Draining _ _ _ (startedTasks es ++ []) _ _ q.mStart none
          rw [hst, hwk, hms, List.append_nil, if_neg Bool.false_ne_true]
          exact .left hk
  | init env =>
      cases hplace
      rcases q.runInit_cases env with ⟨hr, hrun⟩ | ⟨t, hr, hrun⟩ | ⟨hr, hrun⟩
      · -- the statement could be prepared
        rw [hrun, hr] at heff
        cases heff with
        | notPicked _ _ hstopped => cases (hstopped hrel).1
      · rw [hrun] at heff ⊢
        rw [hr] at heff ⊢
        cases heff with
        | @picked _ _ row _ _ hscan =>
            have hrow : (L₀.pending ++ addedRows es)[(exitCodes es).length]? = some row := by
              rw [← List.head?_drop, ← h.pending]
              exact hscan hrowid
            refine h.advance nofun rfl hothers (hset _) ?_
            show Draining _ _ _ (startedTasks es ++ []) _ _ q.mStart _
            rw [hst, hwk, hms, List.append_nil]
            exact .picked hrow
        | notPicked _ hno => exact absurd rfl (hno _)
      · rw [hrun] at heff ⊢
        rw [hr] at heff ⊢
        cases heff with
        | notPicked _ _ hstopped =>
            have hnil := (hstopped hrel).2
            rw [h.pending, List.drop_eq_nil_iff, List.length_append] at hnil
            refine h.advance nofun rfl hothers (hset _) ?_
            show Draining _ _ _ (startedTasks es ++ []) _ _ false none
            rw [hst, hwk, List.append_nil]
            exact .empty (by omega)
  | startProcess ok =>
      obtain rfl : ok = true := hwork
      cases hplace with
      | @picked row hrow =>
          cases heff with
          | started hfl =>
          have hcur : q.mCurrentTask = row.task := (Option.some.inj hfl).symm
          have htake :
              ((L₀.pending ++ addedRows es).take ((exitCodes es).length + 1)).map Row.task =
                ((L₀.pending ++ addedRows es).take (exitCodes es).length).map Row.task ++
                  [row.task] := by
            rw [List.take_add_one, hrow, Option.toList_some, List.map_append, List.map_singleton]
          refine h.advance nofun rfl hothers (hset _) ?_
          show Draining _ _ _ (startedTasks es ++ [q.mCurrentTask]) _ _ q.mStart _
          rw [hst, hwk, hms, hcur, ← htake]
          exact .running hrow
  | poll running =>
      cases hplace with
      | running hrow =>
          cases heff
          cases running with
          | true =>
              refine h.move rfl rfl hothers (hset _) ?_
              show Draining _ _ _ (startedTasks es ++ []) (works i es + 0) _ q.mStart _
              rw [hst, hwk, hms, List.append_nil]
              exact .running hrow
          | false =>
              refine h.advance nofun rfl hothers (hset _) ?_
              show Draining _ _ _ (startedTasks es ++ []) _ _ q.mStart _
              rw [hst, hwk, hms, List.append_nil]
              exact .ended hrow
  | fin env exitCode =>
      cases hplace with
      | @ended row hrow =>
          obtain ⟨m, rfl⟩ := Option.ne_none_iff_exists'.mp hwork
          obtain ⟨l, hl⟩ : ∃ l, L.pending = row :: l := List.head?_eq_some_iff.mp (hhead hrow)
          have hid : toInt32 row.task.ID = row.ID := by
            have hrow : toInt32 row.ID = row.ID := toInt32_of_isInt32 (hint row (by simp [hl]))
            rw [Row.task_ID, hrow, hrow]
          generalize ho : (q.runFin env (some m)).1 = o at heff ⊢
          cases heff with
          | notMoved _ _ hno | copied _ _ hno => exact absurd hrel hno
          | dropped hfl hno =>
              cases hfl
              refine absurd (hv.finish_nodup ?_) (hno hrel)
              rw [finishedRow_ID, Row.task_ID, toInt32_of_isInt32 (toInt32_isInt32 _)]
          | moved hfl hnew =>
              cases hfl
              have hmoved : (q.runFin env (some m)).2.mStart = true := by
                have hres : (mainLoopFin q.mCurrentTask (some m) (q.mToken.given env)).1 = .moved :=
                  (Output.finished.inj ho).2
                simp only [runFin, SQLiteQueue.call, hres, hms]
                rfl
              refine h.finish hothers (hset _) hmoved hrow ?_ rfl hst hwk
              show (L.drop Row.ID (toInt32 row.task.ID)).pending = L.pending.tail
              rw [hid, hv.valid.drop_head hl, hl, List.tail_cons]
  | finFailed | clearStart => cases hplace
  | clearRunning =>
      cases heff
      cases hplace with
      | left hk =>
          refine h.advance nofun rfl hothers (hset _) ?_
          show Draining _ _ _ (startedTasks es ++ []) _ _ q.mStart none
          rw [hst, hwk, hms, List.append_nil]
          exact .returned hk

/-- **Step lemma.** -/
theorem Drains.step (h : Drains L₀ i es q L fl) (hv : ValidFlight L fl)
    (hint : ∀ row ∈ L.pending, IsInt32 row.ID) (hnext : IsInt32 L.next) (hu : a.Undisturbed)
    (hs : q.step a = some (o, u)) (heff : Effect L fl a o L' fl') :
    Drains L₀ i (es ++ [(a, o)]) u L' fl' := by
  have hrel := hu.1
  have hlets := hu.2.2
  cases a with
  | worker j w =>
      by_cases hj : j = i
      · subst hj
        exact h.thread hv hint hu hs heff
      · exact h.other hj hs heff
  | addTask env t =>
      have hthreads := step_client_threads hs (by simp) (by simp)
      have hmStart : u.mStart = q.mStart := by
        obtain ⟨-, rfl⟩ := Prod.mk.inj (Option.some.inj hs)
        rfl
      cases heff with
      | addTask => exact h.add hthreads hmStart _
      | addTaskFailed _ hno => exact absurd hrel hno
      | addTaskSkipped _ hno =>
          exact absurd (hv.add_nodup (toInt32_of_isInt32 hnext)) (hno hrel)
  | listPending | listFinished | pendingDetails | finishedDetails | currentTask =>
      have hthreads := step_client_threads hs (by simp) (by simp)
      have hmStart : u.mStart = q.mStart := by
        obtain ⟨-, rfl⟩ := Prod.mk.inj (Option.some.inj hs)
        rfl
      cases heff
      exact h.read rfl rfl rfl rfl hthreads hmStart
  | start | stop | removeTask | clearPending | clearFinished => exact hlets.elim

/-- `start` launches the thread. -/
theorem drains_start (hrun : q.mIsRunning = false) (hquiet : ∀ p ∈ q.threads, p.InLoop = false) :
    Drains L q.threads.length [] q.start.2 L none := by
  have hstart : q.start.2 =
      { q with mIsRunning := true, mStart := true, threads := q.threads ++ [.test] } := by
    rw [SQLiteQueue.start, if_neg (by simp [hrun])]
  rw [hstart]
  refine ⟨fun j pc hj hpc => ?_, Nat.zero_le _, ?_, ?_, .test, ?_, ?_⟩
  · rcases getElem?_concat_some hpc with ⟨hlast, -⟩ | ⟨-, hold⟩
    · exact absurd hlast hj
    · exact hquiet pc (List.mem_of_getElem? hold)
  · exact (List.append_nil _).symm
  · exact (List.append_nil _).symm
  · exact List.getElem?_concat_length
  · exact .test

/-- **Run lemma.** -/
theorem run_drains (h : Run SQLiteQueue.step (fun _ a => a.Undisturbed) u es v) {es₁ : List Event}
    (ht : Tracked es₁ u L₀ none) (hd : Drains L₀ i [] u L₀ none)
    (hadds : adds (es₁ ++ es) < 2 ^ 31 - 1) (hrel : ∀ e ∈ es₁, e.1.Reliable) :
    ∃ L fl, Tracked (es₁ ++ es) v L fl ∧ Drains L₀ i es v L fl ∧
      ∀ e ∈ es₁ ++ es, e.1.Reliable := by
  induction h with
  | nil => exact ⟨L₀, none, (List.append_nil es₁).symm ▸ ht, hd, by simpa using hrel⟩
  | @snoc es v w a o _ hu hs ih =>
      rw [← List.append_assoc, adds_append] at hadds
      obtain ⟨L, fl, htr, hdr, hrel'⟩ := ih (by omega)
      have hone : OneWorker v a := by
        intro hstart
        cases a with
        | start => exact hu.2.2.elim
        | _ => cases hstart
      obtain ⟨L', fl', href, heff⟩ := step_refines htr.refines htr.isInt32_next hone hs
      have hprov := htr.provenance (by omega)
      have hint : ∀ row ∈ L.pending, IsInt32 row.ID := by
        intro row hrow
        obtain ⟨t₀, ht₀, -⟩ := hprov.pending row hrow
        exact (hprov.below _ _ ht₀).1
      rw [← List.append_assoc]
      refine ⟨L', fl', .snoc htr hone hs heff href,
        hdr.step (htr.valid (by omega) hrel') hint htr.isInt32_next hu hs heff, ?_⟩
      rw [List.forall_mem_append]
      exact ⟨hrel', List.forall_mem_singleton.mpr hu.1⟩

/-- What the place of the thread says about what it did. -/
theorem Draining.bounds {started : List Task} {work : Nat} {start : Bool}
    (h : Draining rows n k started work pc start fl) (hk : k ≤ rows.length) :
    started <+: rows.map Row.task ∧ work ≤ 5 * k + 4 ∧
      (pc = .returned → n ≤ k ∧ started.length = k) := by
  have hpre : ∀ m, (rows.take m).map Row.task <+: rows.map Row.task := fun m =>
    (List.take_prefix m rows).map Row.task
  cases h with
  | test | init | picked | running | ended | empty | left =>
      exact ⟨hpre _, by omega, nofun⟩
  | returned hn =>
      refine ⟨hpre _, le_refl _, fun _ => ⟨hn, ?_⟩⟩
      rw [List.length_map, List.length_take, Nat.min_eq_left hk]

/-- Until it returns, the thread can make a step. -/
theorem Draining.enabled {started : List Task} {work : Nat} {start : Bool}
    (h : Draining rows n k started work pc start fl) (hpc : u.threads[i]? = some pc)
    (hne : pc ≠ .returned) :
    ∃ w, (Action.worker i w).Undisturbed ∧ (u.step (.worker i w)).isSome := by
  have hstep : ∀ w r, u.mainLoop pc w = some r → (u.step (.worker i w)).isSome = true := by
    intro w r hr
    simp only [SQLiteQueue.step, hpc, hr, Option.map_some, Option.isSome_some]
  have hnone : ∀ b ∈ ([] : List Bool), b = false := List.forall_mem_nil _
  cases h with
  | test | empty | left => exact ⟨.go, ⟨hnone, trivial, trivial⟩, hstep _ _ rfl⟩
  | init => exact ⟨.init .rowid, ⟨hnone, rfl, trivial⟩, hstep _ _ rfl⟩
  | picked => exact ⟨.start true, ⟨hnone, trivial, rfl⟩, hstep _ _ rfl⟩
  | running => exact ⟨.isRunning false, ⟨hnone, trivial, trivial⟩, hstep _ _ rfl⟩
  | ended =>
      exact ⟨.fin .rowid (some 0), ⟨hnone, trivial, Option.some_ne_none 0⟩, hstep _ _ rfl⟩
  | returned => exact absurd rfl hne

/-- **What a started queue does.** A queue that does not run is started; no client stops it or takes
tasks away, SQLite does not fail, every process can be started and asked for its exit code. At any
time the thread has finished some of the tasks that waited at first, and then of those that were
added since, in their order, and has recorded each with the exit code of its process; the others
still wait. It makes no more than five steps for each of these and four more, besides finding that a
process runs, and can make the next one until it returns; and when it returns, none of the tasks
that waited at first is left. -/
theorem start_drains (h : Run SQLiteQueue.step OneWorker fresh es₀ q)
    (hrun : q.mIsRunning = false) (hquiet : ∀ p ∈ q.threads, p.InLoop = false)
    (h' : Run SQLiteQueue.step (fun _ a => a.Undisturbed) q.start.2 es u)
    (hadds : adds (es₀ ++ es) < 2 ^ 31 - 1) (hrel : ∀ e ∈ es₀, e.1.Reliable) :
    ∃ L₀ L k pc, q.mToken.db = ledgerDB L₀ ∧ u.mToken.db = ledgerDB L ∧
      u.threads[q.threads.length]? = some pc ∧ k = (exitCodes es).length ∧
      L.pending = (L₀.pending ++ addedRows es).drop k ∧
      L.done = L₀.done ++ List.zipWith finishedRow
        (((L₀.pending ++ addedRows es).take k).map Row.task) (exitCodes es) ∧
      startedTasks es <+: (L₀.pending ++ addedRows es).map Row.task ∧
      works q.threads.length es ≤ 5 * k + 4 ∧ k ≤ (L₀.pending ++ addedRows es).length ∧
      (pc = .returned → L₀.pending.length ≤ k ∧ (startedTasks es).length = k) ∧
      (pc ≠ .returned → ∃ w, (Action.worker q.threads.length w).Undisturbed ∧
        (u.step (.worker q.threads.length w)).isSome) := by
  obtain ⟨L₀, fl₀, ht₀⟩ := run_tracked h
  obtain rfl : fl₀ = none := by
    by_contra hne
    obtain ⟨pc, hpc, hexec⟩ := ht₀.refines.executing.mpr (Option.isSome_iff_ne_none.mpr hne)
    have hloop := Pc.inLoop_of_executing hexec
    rw [hquiet pc hpc] at hloop
    cases hloop
  have hone : OneWorker q .start := fun _ _ => hquiet
  obtain ⟨L', fl', href, heff⟩ := step_refines ht₀.refines ht₀.isInt32_next hone rfl
  obtain ⟨rfl, rfl⟩ : L₀ = L' ∧ none = fl' := by
    cases heff
    exact ⟨rfl, rfl⟩
  have ht : Tracked (es₀ ++ [(.start, .code q.start.1)]) q.start.2 L₀ none :=
    .snoc ht₀ hone rfl heff href
  have hadds' : adds (es₀ ++ [(.start, .code q.start.1)] ++ es) < 2 ^ 31 - 1 := by
    have hzero : adds [(Action.start, Output.code q.start.1)] = 0 := rfl
    rw [adds_append] at hadds
    rw [adds_append, adds_append, hzero]
    exact hadds
  have hrel' : ∀ e ∈ es₀ ++ [(Action.start, Output.code q.start.1)], e.1.Reliable := by
    rw [List.forall_mem_append]
    exact ⟨hrel, List.forall_mem_singleton.mpr (List.forall_mem_nil _)⟩
  obtain ⟨L, fl, htr, hd, -⟩ := run_drains h' ht (drains_start hrun hquiet) hadds' hrel'
  obtain ⟨pc, hpc, hplace⟩ := hd.place
  obtain ⟨hstarted, hworks, hreturned⟩ := hplace.bounds hd.le
  exact ⟨L₀, L, _, pc, ht₀.refines.db, htr.refines.db, hpc, rfl, hd.pending, hd.done, hstarted,
    hworks, hd.le, hreturned, hplace.enabled hpc⟩

/-- Two tasks wait, and a third one is added while the first is executed. -/
def twoWaiting : List Action := [.addTask .rowid listing, .addTask .rowid listing]

theorem twoWaiting_runs : (script SQLiteQueue.step OneWorker fresh twoWaiting).isSome := by
  decide +kernel

def executeThree : List Action :=
  [.worker 0 .go, .worker 0 (.init .rowid), .addTask .rowid listing, .worker 0 (.start true),
    .worker 0 (.isRunning true), .worker 0 (.isRunning false), .worker 0 (.fin .rowid (some 0)),
    .worker 0 .go, .worker 0 (.init .rowid), .worker 0 (.start true), .worker 0 (.isRunning false),
    .worker 0 (.fin .rowid (some 256)), .listFinished .rowid, .worker 0 .go,
    .worker 0 (.init .rowid), .worker 0 (.start true), .worker 0 (.isRunning false),
    .worker 0 (.fin .rowid (some 0)), .worker 0 .go, .worker 0 (.init .rowid), .worker 0 .go,
    .worker 0 .go]

def twoWaitingRun : List Event × SQLiteQueue :=
  (script SQLiteQueue.step OneWorker fresh twoWaiting).get twoWaiting_runs

theorem executeThree_runs :
    (script SQLiteQueue.step anyAction twoWaitingRun.2.start.2 executeThree).isSome := by
  decide +kernel

def executeThreeRun : List Event × SQLiteQueue :=
  (script SQLiteQueue.step anyAction twoWaitingRun.2.start.2 executeThree).get executeThree_runs

theorem executeThree_undisturbed :
    ∀ e ∈ executeThreeRun.1, e.1.Undisturbed :=
  forall_script executeThree_runs (by
    simp [executeThree, Action.Undisturbed, Action.Reliable, Action.faults, Action.Rowid,
      Env.rowid])

theorem start_drains_executeThree :
    ∃ L₀ L k pc, twoWaitingRun.2.mToken.db = ledgerDB L₀ ∧
      executeThreeRun.2.mToken.db = ledgerDB L ∧
      executeThreeRun.2.threads[twoWaitingRun.2.threads.length]? = some pc ∧
      k = (exitCodes executeThreeRun.1).length ∧
      L.pending = (L₀.pending ++ addedRows executeThreeRun.1).drop k ∧
      L.done = L₀.done ++ List.zipWith finishedRow
        (((L₀.pending ++ addedRows executeThreeRun.1).take k).map Row.task)
        (exitCodes executeThreeRun.1) ∧
      startedTasks executeThreeRun.1 <+:
        (L₀.pending ++ addedRows executeThreeRun.1).map Row.task ∧
      works twoWaitingRun.2.threads.length executeThreeRun.1 ≤ 5 * k + 4 ∧
      k ≤ (L₀.pending ++ addedRows executeThreeRun.1).length ∧
      (pc = .returned → L₀.pending.length ≤ k ∧ (startedTasks executeThreeRun.1).length = k) ∧
      (pc ≠ .returned → ∃ w, (Action.worker twoWaitingRun.2.threads.length w).Undisturbed ∧
        (executeThreeRun.2.step (.worker twoWaitingRun.2.threads.length w)).isSome) :=
  start_drains (Run.of_script twoWaiting_runs) (by decide +kernel) (by decide +kernel)
    ((Run.of_script executeThree_runs).of_forall executeThree_undisturbed) (by decide +kernel)
    (by decide +kernel)

end SimpleTaskQueue
