import SimpleTaskQueue.Properties.Installation
/-!
# SimpleTaskQueue.Properties.RealTime

What **concurrent clients** of a server see. The handlers look a queue up and then call it, with
anything in between.

Tasks of one file get their IDs in the order in which they were queued, in real time and over
restarts (`ids_in_real_time`), as long as one object at a time has the file open: two objects have
two mutexes, and both can read the same `lastID`.
-/

namespace SimpleTaskQueue

open Sqlite Runs SQLiteQueue

/-- The ID that the event handed out. -/
def handedOut : Event → Option Int
  | (.addTask _ _, .task .OK t) => some t.ID
  | _ => none

variable {L L' : QueueLedger} {fl fl' : Option Task} {a : Action} {o : Output} {x : QueueLife}
  {l : List QueueLifeEvent} {m n : Int}

theorem Effect.next_of_handedOut (h : Effect L fl a o L' fl') (hm : handedOut (a, o) = some m) :
    m = L.next ∧ L'.next = nextID L.next := by
  cases h with
  | addTask =>
      obtain rfl := Option.some.inj hm
      exact ⟨rfl, rfl⟩
  | @addTaskFailed _ _ t' rc hrc | @addTaskSkipped _ _ t' rc hrc =>
      cases rc <;> first | exact absurd rfl hrc | cases hm
  | listPending | listFinished | pendingDetails | finishedDetails | clearPending
  | clearPendingFailed | clearFinished | clearFinishedFailed | currentTask | removeTask
  | removeTaskFailed | start | stop | go | started | polled | picked | notPicked | noExitCode
  | notMoved | copied | dropped | moved => cases hm

/-- The IDs handed out in the life of a file, the earliest first. -/
def handedOutIDs (l : List QueueLifeEvent) : List Int := (QueueLife.calls l).filterMap handedOut

/-- **Run lemma.** IDs grow, whatever object hands them out, and are below the counter. -/
theorem LifeTracked.ids_increasing (h : LifeTracked l x L fl)
    (hadds : adds (QueueLife.calls l) < 2 ^ 31 - 1) :
    (handedOutIDs l).Pairwise (· < ·) ∧ ∀ m ∈ handedOutIDs l, m < L.next := by
  induction h with
  | created _ hes =>
      rw [handedOutIDs, hes]
      exact ⟨.nil, by simp⟩
  | init _ _ _ _ ih =>
      rw [QueueLife.calls_snoc_init] at hadds
      rw [handedOutIDs, QueueLife.calls_snoc_init]
      exact ih hadds
  | exit _ ih =>
      rw [QueueLife.calls_snoc_exit] at hadds
      rw [handedOutIDs, QueueLife.calls_snoc_exit]
      exact ih hadds
  | @call l q _ L L' fl _ a o h _ _ heff _ ih =>
      rw [QueueLife.calls_snoc_call, adds_append] at hadds
      obtain ⟨h₀, h₁⟩ := h.next_bounds (by omega)
      obtain ⟨hpair, hbelow⟩ := ih (by omega)
      have hnext := nextID_of_lt h₀ (by omega)
      rw [handedOutIDs, QueueLife.calls_snoc_call, List.filterMap_append]
      cases hm : handedOut (a, o) with
      | none =>
          have hle : L.next ≤ L'.next := by
            rcases heff.next with hn | ⟨-, hn⟩ <;> omega
          rw [List.filterMap_cons_none hm, List.filterMap_nil, List.append_nil]
          exact ⟨hpair, fun m hm => lt_of_lt_of_le (hbelow m hm) hle⟩
      | some m =>
          obtain ⟨rfl, hn⟩ := heff.next_of_handedOut hm
          rw [List.filterMap_cons_some hm, List.filterMap_nil]
          refine ⟨List.pairwise_append.mpr
            ⟨hpair, List.pairwise_singleton _ _, fun k hk j hj => ?_⟩,
            fun k hk => ?_⟩
          · exact List.mem_singleton.mp hj ▸ hbelow k hk
          · rcases List.mem_append.mp hk with hk | hk
            · exact (hbelow k hk).trans (by omega)
            · rw [List.mem_singleton.mp hk]
              omega

namespace Service

variable {d : Directory} {S : Session} {f : FileName} {es : List SessionEvent}

/-- The ID that a step handed out for a task in the file. -/
def handedOutOn (f : FileName) : ServiceAction × ServiceOutput → Option Int
  | (_, .called _ g e) => if g = f then handedOut e else none
  | _ => none

theorem handedOutIDs_lifeEvents (a : ServiceAction) (o : ServiceOutput) :
    handedOutIDs (lifeEvents f (a, o)) = (handedOutOn f (a, o)).toList := by
  cases o with
  | called k g e =>
      rw [lifeEvents_called, handedOutOn]
      split
      · rw [handedOutIDs, QueueLife.calls]
        cases hm : handedOut e <;> simp [hm]
      · rfl
  | status st =>
      cases a with
      | request r =>
          cases r with
          | create env req =>
              show handedOutIDs (if env.reaches req.name = some f then _ else _) = []
              split <;> rfl
          | rename | delete | list | getQueue | call | isRunning => rfl
      | destroy | worker | restart => rfl
  | names | noQueue | running | silent =>
      cases a with
      | request r => cases r <;> rfl
      | destroy | worker | restart => rfl

theorem handedOutIDs_lifeOf (es : List SessionEvent) :
    handedOutIDs (lifeOf f es) = (Linearizable.acted es).filterMap fun p => handedOutOn f p.2 := by
  induction es with
  | nil => rfl
  | cons e es ih =>
      rw [← List.singleton_append, lifeOf_append, Linearizable.acted_append, List.filterMap_append,
        ← ih, handedOutIDs, QueueLife.calls_append, List.filterMap_append]
      congr 1
      obtain ⟨m, e⟩ := e
      cases e with
      | acted i a o =>
          have hlife : lifeOf f [(m, .acted i a o)] = lifeEvents f (a, o) := List.append_nil _
          have hacted : Linearizable.acted [(m, .acted i a o)] = [(i, a, o)] := rfl
          have hone : List.filterMap handedOut (QueueLife.calls (lifeEvents f (a, o))) =
            (handedOutOn f (a, o)).toList := handedOutIDs_lifeEvents a o
          rw [hlife, hacted, hone]
          cases hm : handedOutOn f (a, o) <;> simp [hm]
      | sent | found | answered => rfl

/-- The call that is answered with an ID for a task in the file, and the ID. -/
def answeredID (f : FileName) : SessionEvent → Option (Nat × Int)
  | (.answer i, .answered j (.called _ g (.addTask _ _, .task .OK t))) =>
    if i = j ∧ g = f then some (i, t.ID) else none
  | _ => none

/-- The call `i` was answered with the ID `m` for a task in the file. -/
def AnsweredID (f : FileName) (es : List SessionEvent) (i : Nat) (m : Int) : Prop :=
  (i, m) ∈ es.filterMap (answeredID f)

instance (f : FileName) (es : List SessionEvent) (i : Nat) (m : Int) :
    Decidable (AnsweredID f es i m) :=
  inferInstanceAs (Decidable (_ ∈ _))

theorem AnsweredID.exists_mem {i : Nat} (h : AnsweredID f es i m) : ∃ k env t t',
    (Linearizable.Move.answer i,
      Linearizable.Event.answered i (.called k f (.addTask env t, .task .OK t'))) ∈ es ∧
    t'.ID = m := by
  obtain ⟨e, he, hm⟩ := List.mem_filterMap.mp h
  unfold answeredID at hm
  split at hm
  · next j j' k g env t t' =>
    split at hm
    · next hjg =>
      obtain ⟨rfl, rfl⟩ := hjg
      obtain ⟨rfl, rfl⟩ := Prod.mk.inj (Option.some.inj hm)
      exact ⟨k, env, t, t', he, rfl⟩
    · cases hm
  · cases hm

/-- **IDs in real time.** In every interleaving of handlers and threads, over restarts, renames and
all failures of SQLite, as long as no file is opened that a queue object still has open: if the file
was new, its queue has one worker at a time, and fewer than `2^31 - 1` tasks are added to it, two
calls never get the same ID, and of two calls that do not overlap the later one gets the larger
ID. -/
theorem ids_in_real_time {i j : Nat} {m n : Int} (hf : d.lookup f = none)
    (h : Run session (Orderly OneWorker) ⟨new d, []⟩ es S)
    (hadds : adds (callsOn f es) < 2 ^ 31 - 1) (hi : AnsweredID f es i m)
    (hj : AnsweredID f es j n) (hij : i ≠ j) :
    m ≠ n ∧ (Linearizable.Precedes es i j → m < n) := by
  obtain ⟨x, -, hlife⟩ := run_life (.new hf) h
  have hpair : (handedOutIDs (lifeOf f es)).Pairwise (· < ·) := by
    rcases life_tracked hlife with ⟨-, -, -, hnone⟩ | ⟨L, fl, ht⟩
    · rw [handedOutIDs, hnone]
      exact .nil
    · exact (ht.ids_increasing hadds).1
  rw [handedOutIDs_lifeOf, List.pairwise_filterMap] at hpair
  obtain ⟨k, env, t, t', hmem, rfl⟩ := hi.exists_mem
  obtain ⟨k', env', u, u', hmem', rfl⟩ := hj.exists_mem
  obtain ⟨a, b, -, -, heither, horder⟩ := Linearizable.Run.real_time
    (R := fun p q => ∀ m, handedOutOn f p = some m → ∀ n, handedOutOn f q = some n → m < n)
    h hpair hmem hmem' hij
  have ht : ∀ c, handedOutOn f (c, .called k f (.addTask env t, .task .OK t')) = some t'.ID :=
    fun c => if_pos rfl
  have hu : ∀ c, handedOutOn f (c, .called k' f (.addTask env' u, .task .OK u')) = some u'.ID :=
    fun c => if_pos rfl
  refine ⟨?_, fun hpre => horder hpre _ (ht a) _ (hu b)⟩
  rcases heither with hlt | hlt
  · exact ne_of_lt (hlt _ (ht a) _ (hu b))
  · exact ne_of_gt (hlt _ (hu b) _ (ht a))

/-- Two clients add a task at a time, and the process ends. -/
def twoClients : List SessionMove :=
  atOnce 0 (.create .ok ⟨"a".toList⟩) ++
    [.send (.request (.call "a".toList (.addTask .rowid listing))),
      .send (.request (.call "a".toList (.addTask .rowid listing))),
      .find 1, .find 2, .act 2, .act 1, .answer 1, .answer 2, .own .restart] ++
    atOnce 3 (.create .ok ⟨"a".toList⟩) ++ atOnce 4 (.call "a".toList (.addTask .rowid listing))

theorem twoClients_runs : (script session (Orderly OneWorker) ⟨new ∅, []⟩ twoClients).isSome := by
  decide +kernel

theorem ids_in_real_time_twoClients :
    let r := (script session (Orderly OneWorker) ⟨new ∅, []⟩ twoClients).get twoClients_runs
    (1 : Int) ≠ 2 ∧ (Linearizable.Precedes r.1 1 4 → (1 : Int) < 2) :=
  ids_in_real_time (d := ∅) (f := fileA) rfl (Run.of_script twoClients_runs) (by decide +kernel)
    (by decide +kernel) (by decide +kernel) (by decide)

end Service

end SimpleTaskQueue
