import SimpleTaskQueue.Properties.Conservation
import SimpleTaskQueue.Refinement.Service
/-!
# SimpleTaskQueue.Properties.Installation

A server with all its queues **over restarts**, in every interleaving of handlers and threads: what
happens to one database file is a matter of the steps on that file alone, and no task in it is
lost.

The runs are those in which no file is opened that another queue object has open. The code does
not see to that: `createQueue` for a listed name, or under the old name of a renamed queue, opens
the file a second time.
-/

namespace SimpleTaskQueue

open Sqlite Runs SQLiteQueue

variable {d d' : Directory} {S S' : Session} {f : FileName} {db : QueueDB} {L : QueueLedger}
  {fl : Option Task} {x : QueueLife} {l : List QueueLifeEvent} {i : Int} {t : Task} {row : Row}
  {es es' : List SessionEvent}

/-! ### In the life of a file -/

/-- At some time a client call deleted the row of ID `i`. -/
def LifeDeleted (l : List QueueLifeEvent) (i : Int) : Prop :=
  ∃ l₁ a o l₂ x L fl, l = l₁ ++ (.call a, o) :: l₂ ∧ LifeTracked l₁ x L fl ∧ Deletes L i (a, o)

theorem LifeDeleted.mono {l' : List QueueLifeEvent} (h : LifeDeleted l i) :
    LifeDeleted (l ++ l') i := by
  obtain ⟨l₁, a, o, l₂, x, L, fl, rfl, ht, hd⟩ := h
  exact ⟨l₁, a, o, l₂ ++ l', x, L, fl, by simp, ht, hd⟩

/-- The ID of a `removeTask` fits 32 bits, as those of requests do. -/
def Fits : Action → Prop
  | .removeTask _ id => IsInt32 id
  | _ => True

instance (a : Action) : Decidable (Fits a) :=
  match a with
  | .removeTask _ id => inferInstanceAs (Decidable (IsInt32 id))
  | .listPending _ | .listFinished _ | .pendingDetails _ _ _ | .finishedDetails _ _ _
  | .clearPending _ | .clearFinished _ | .currentTask _ | .addTask _ _ | .start | .stop
  | .worker _ _ => .isTrue trivial

theorem not_cuts {a : Action} (h : Fits a) : ¬ Cuts L i a := by
  intro hcut
  cases a with
  | removeTask env id =>
      obtain ⟨hne, rfl, -⟩ := hcut
      exact hne (toInt32_of_isInt32 h).symm
  | listPending | listFinished | pendingDetails | finishedDetails | clearPending | clearFinished
  | currentTask | addTask | start | stop | worker => cases hcut

/-- **Run lemma.** An accepted task is in one of the tables unless a client deleted it, whatever
object accepted it. -/
theorem LifeTracked.present (h : LifeTracked l x L fl)
    (hadds : adds (QueueLife.calls l) < 2 ^ 31 - 1)
    (hrel : ∀ e ∈ QueueLife.calls l, e.1.Reliable) (hfit : ∀ e ∈ QueueLife.calls l, Fits e.1)
    (hi : Added (QueueLife.calls l) i t) : Present L i ∨ LifeDeleted l i := by
  induction h with
  | created _ hes =>
      rw [hes] at hi
      obtain ⟨env, hm⟩ := hi
      cases hm
  | init _ _ _ _ ih =>
      rw [QueueLife.calls_snoc_init] at hadds hrel hfit hi
      exact (ih hadds hrel hfit hi).imp_right LifeDeleted.mono
  | exit _ ih =>
      rw [QueueLife.calls_snoc_exit] at hadds hrel hfit hi
      exact (ih hadds hrel hfit hi).imp_right LifeDeleted.mono
  | @call l q _ L _ fl _ a o h _ _ heff _ ih =>
      rw [QueueLife.calls_snoc_call] at hadds hrel hfit hi
      rw [adds_append] at hadds
      have hrel' : ∀ e ∈ QueueLife.calls l, e.1.Reliable :=
        fun e he => hrel e (List.mem_append_left _ he)
      have hfit' : ∀ e ∈ QueueLife.calls l, Fits e.1 :=
        fun e he => hfit e (List.mem_append_left _ he)
      have hprov := h.provenance (by omega)
      rcases added_snoc.mp hi with hi | hi
      · rcases ih (by omega) hrel' hfit' hi with hp | hd
        · rcases heff.present (h.valid (by omega) hrel') (hrel (a, o) (by simp))
            (fun t ht => (hprov.below _ _ (hprov.flight t ht).choose_spec.1).1) hp with hp | hd | hc
          · exact .inl hp
          · exact .inr ⟨l, a, o, [], .opened q, L, fl, rfl, h, hd⟩
          · exact absurd hc (not_cuts (hfit (a, o) (by simp)))
        · exact .inr hd.mono
      · obtain ⟨rfl, rfl, -⟩ := heff.added hi
        exact .inl (present_add h.isInt32_next)

/-- Every row carries what was queued. -/
theorem Provenance.keeps {es : List Event} (hp : Provenance es L fl)
    (hnul : ∀ e ∈ es, e.1.NulFree) (hrow : row ∈ L.pending ++ L.done) :
    ∃ t, Added es row.ID t ∧ Keeps row t := by
  rcases List.mem_append.mp hrow with hrow | hrow
  · obtain ⟨t, ht, he⟩ := hp.pending row hrow
    exact ⟨t, ht, he ▸ keeps_addedRow t row.ID⟩
  · obtain ⟨t, n, ht, he⟩ := hp.done row hrow
    obtain ⟨env, hm⟩ := ht
    exact ⟨t, ⟨env, hm⟩, he ▸ keeps_finishedRow (hnul _ hm t rfl) row.ID n⟩

namespace Service

/-- **The queues do not interfere.** In two runs of a server that make the same steps on a file,
with the same answers of the system, each step gives the same result, and the file has the same
content in the end, whatever happens to all other files, and whatever its queue is called, as long
as no file is opened that a queue object still has open. -/
theorem no_interference (hf : d.Opens f db) (hf' : d'.Opens f db)
    (h : Run session (Orderly anyAction) ⟨new d, []⟩ es S)
    (h' : Run session (Orderly anyAction) ⟨new d', []⟩ es' S')
    (hsame : (lifeOf f es).map Prod.fst = (lifeOf f es').map Prod.fst) :
    lifeOf f es = lifeOf f es' ∧
      ∃ db', S.server.dir.Opens f db' ∧ S'.server.dir.Opens f db' := by
  obtain ⟨x, hx, hlife⟩ := run_life hf h
  obtain ⟨x', hx', hlife'⟩ := run_life hf' h'
  obtain ⟨hes, rfl⟩ := hlife.det_actions hlife' hsame
  exact ⟨hes, x.content, hx.content, hx'.content⟩

/-- The moves of a client that nobody comes in between of. -/
def atOnce (i : Nat) (r : Request) : List SessionMove :=
  [.send (.request r), .find i, .act i, .answer i]

/-- Two queues. One of them is renamed while a task is added to it, and then executes the task; the
process ends meanwhile, and starts again. -/
def twoQueues : List SessionMove :=
  atOnce 0 (.create .ok ⟨"a".toList⟩) ++ atOnce 1 (.create .ok ⟨"b".toList⟩) ++
    [.send (.request (.call "a".toList (.addTask .rowid listing))), .find 2] ++
    atOnce 3 (.rename ⟨"a".toList, "c".toList⟩) ++ [.act 2, .answer 2] ++
    atOnce 4 (.call "c".toList .start) ++
    [.own (.worker 0 0 .go), .own (.worker 0 0 (.init .rowid)), .own .restart] ++
    atOnce 5 (.create .ok ⟨"b".toList⟩) ++ atOnce 6 (.create .ok ⟨"a".toList⟩)

theorem twoQueues_runs : (script session (Orderly OneWorker) ⟨new ∅, []⟩ twoQueues).isSome := by
  decide +kernel

def twoQueuesRun : List SessionEvent × Session :=
  (script session (Orderly OneWorker) ⟨new ∅, []⟩ twoQueues).get twoQueues_runs

theorem run_twoQueues : Run session (Orderly OneWorker) ⟨new ∅, []⟩ twoQueuesRun.1 twoQueuesRun.2 :=
  Run.of_script twoQueues_runs

/-- The other queue goes on. -/
def otherQueue : List SessionMove :=
  atOnce 7 (.rename ⟨"b".toList, "d".toList⟩) ++
    atOnce 8 (.call "d".toList (.addTask .rowid listing))

theorem otherQueue_runs :
    (script session (Orderly OneWorker) twoQueuesRun.2 otherQueue).isSome := by
  decide +kernel

def fileA : FileName := ⟨"a.db".toList, by decide⟩

theorem no_interference_otherQueue :
    let r := (script session (Orderly OneWorker) twoQueuesRun.2 otherQueue).get otherQueue_runs
    lifeOf fileA twoQueuesRun.1 = lifeOf fileA (twoQueuesRun.1 ++ r.1) ∧
      ∃ db, twoQueuesRun.2.server.dir.Opens fileA db ∧ r.2.server.dir.Opens fileA db := by
  have hlater := run_twoQueues.append (Run.of_script otherQueue_runs)
  have hnone : (lifeOf fileA ((script session (Orderly OneWorker) twoQueuesRun.2 otherQueue).get
      otherQueue_runs).1).isEmpty = true := by decide +kernel
  have hnil := List.isEmpty_iff.mp hnone
  refine no_interference (d := ∅) (.new rfl) (.new rfl) (run_twoQueues.mono orderly_any)
    (hlater.mono orderly_any) ?_
  rw [lifeOf_append, hnil, List.append_nil]

/-- The calls and the steps of threads on a file. -/
abbrev callsOn (f : FileName) (es : List SessionEvent) : List Event := QueueLife.calls (lifeOf f es)

/-- At some time a client call deleted the row of ID `i` from the file. -/
def Removed (d : Directory) (f : FileName) (es : List SessionEvent) (i : Int) : Prop :=
  ∃ es₁ m j a k e es₂ S L, es = es₁ ++ (m, .acted j a (.called k f e)) :: es₂ ∧
    Run session (Orderly OneWorker) ⟨new d, []⟩ es₁ S ∧ S.server.dir.Opens f (ledgerDB L) ∧
    Deletes L i e

theorem length_moveEvents (e : SessionEvent) : (moveEvents f e).length ≤ 1 := by
  unfold moveEvents
  split
  · unfold lifeEvents
    split <;> try split
    all_goals simp
  · simp

/-- A call in the life of the file is a step of an object that has it open. -/
theorem called_of_moveEvents {e : SessionEvent} {b : Action} {p : Output}
    (h : moveEvents f e = [(.call b, p)]) :
    ∃ m j a k, e = (m, .acted j a (.called k f (b, p))) := by
  unfold moveEvents at h
  split at h
  · next m j a o =>
    unfold lifeEvents at h
    split at h
    · split at h <;> simp at h
    · next a' k g e he =>
      obtain ⟨-, rfl⟩ := Prod.mk.inj he
      split at h
      · next hg =>
        simp only [List.cons.injEq, Prod.mk.injEq, QueueLifeAction.call.injEq, and_true] at h
        obtain ⟨rfl, rfl⟩ := h
        exact ⟨m, j, a, k, hg ▸ rfl⟩
      · cases h
    · simp at h
    · simp at h
  · cases h

/-- A row that was deleted in the life of the file was deleted from the server. -/
theorem removed_of_life (hf : d.lookup f = none)
    (h : Run session (Orderly OneWorker) ⟨new d, []⟩ es S) (hd : LifeDeleted (lifeOf f es) i) :
    Removed d f es i := by
  obtain ⟨l₁, b, p, l₂, x, L, fl, hl, ht, hdel⟩ := hd
  obtain ⟨es₁, e, es₂, rfl, rfl, hev⟩ := flatMap_at length_moveEvents hl
  obtain ⟨m, j, a, k, rfl⟩ := called_of_moveEvents hev
  obtain ⟨S₁, h₁, -⟩ := h.split
  obtain ⟨x₁, hx₁, hlife⟩ := run_life (.new hf) h₁
  obtain rfl := hlife.det ht.run
  exact ⟨es₁, m, j, a, k, (b, p), es₂, S₁, L, rfl, h₁, ht.refines.content ▸ hx₁.content, hdel⟩

/-- **No task is lost over restarts.** After every run of a server, in every interleaving of
handlers and threads, over any number of ends of the process, with queues created, renamed, deleted
and created again, openings failing anywhere, and one worker at a time for each queue, as long as no
file is opened that a queue object still has open: if the file was new, no call on a queue of it
fails in SQLite, strings have no NUL, the IDs to be removed fit 32 bits, and fewer than `2^31 - 1`
IDs are handed out, then no ID is twice in the file; an accepted task is in one of its tables, as it
was queued, unless a client call deleted its row; and there are no other rows. -/
theorem no_task_lost_restarting (hf : d.lookup f = none)
    (h : Run session (Orderly OneWorker) ⟨new d, []⟩ es S)
    (hadds : adds (callsOn f es) < 2 ^ 31 - 1) (hrel : ∀ e ∈ callsOn f es, e.1.Reliable)
    (hnul : ∀ e ∈ callsOn f es, e.1.NulFree) (hfit : ∀ e ∈ callsOn f es, Fits e.1) :
    callsOn f es = [] ∨
      ∃ L, S.server.dir.Opens f (ledgerDB L) ∧ L.Valid Row.ID ∧
        (∀ i t, Added (callsOn f es) i t →
          (∃ row ∈ L.pending ++ L.done, row.ID = i ∧ Keeps row t) ∨ Removed d f es i) ∧
        ∀ row ∈ L.pending ++ L.done, ∃ t, Added (callsOn f es) row.ID t ∧ Keeps row t := by
  obtain ⟨x, hx, hlife⟩ := run_life (.new hf) h
  rcases life_tracked hlife with ⟨-, -, -, hnone⟩ | ⟨L, fl, ht⟩
  · exact .inl hnone
  have hprov := ht.provenance hadds
  have hkeeps : ∀ row ∈ L.pending ++ L.done, ∃ t, Added (callsOn f es) row.ID t ∧ Keeps row t :=
    fun row hrow => hprov.keeps hnul hrow
  refine .inr ⟨L, ht.refines.content ▸ hx.content, (ht.valid hadds hrel).valid, fun i t hi => ?_,
    hkeeps⟩
  rcases ht.present hadds hrel hfit hi with ⟨row, hrow, rfl⟩ | hd
  · obtain ⟨t', ht', hk⟩ := hkeeps row hrow
    obtain rfl := hprov.unique _ _ _ ht' hi
    exact .inl ⟨row, hrow, rfl, hk⟩
  · exact .inr (removed_of_life hf h hd)

theorem no_task_lost_restarting_twoQueues :
    callsOn fileA twoQueuesRun.1 = [] ∨
      ∃ L, twoQueuesRun.2.server.dir.Opens fileA (ledgerDB L) ∧ L.Valid Row.ID ∧
        (∀ i t, Added (callsOn fileA twoQueuesRun.1) i t →
          (∃ row ∈ L.pending ++ L.done, row.ID = i ∧ Keeps row t) ∨
            Removed ∅ fileA twoQueuesRun.1 i) ∧
        ∀ row ∈ L.pending ++ L.done,
          ∃ t, Added (callsOn fileA twoQueuesRun.1) row.ID t ∧ Keeps row t :=
  no_task_lost_restarting rfl run_twoQueues (by decide +kernel) (by decide +kernel)
    (by decide +kernel) (by decide +kernel)

end Service

end SimpleTaskQueue
