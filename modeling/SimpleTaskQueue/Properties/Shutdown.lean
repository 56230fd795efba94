import SimpleTaskQueue.Model.Controller.GRPCServer.Server
/-!
# SimpleTaskQueue.Properties.Shutdown

**Is shutting down idempotent?** Every call of `stop` fulfils the promise, and the destructor makes
one more. So a single signal is one too many, and a server that was ever asked to end its service
does not survive its destructor.
-/

namespace SimpleTaskQueue

open Runs

namespace Server

variable {s t u : Server} {a : LifeAction} {o : LifeOutput}
  {es es' : List (LifeAction × LifeOutput)}

/-- The step calls `stop`. -/
def Stops : LifeAction → Prop
  | .stop | .destroy => True
  | .start _ | .getFuture | .wake => False

instance (a : LifeAction) : Decidable (Stops a) :=
  match a with
  | .stop | .destroy => isTrue trivial
  | .start _ | .getFuture | .wake => isFalse id

/-- How often `stop` was called, by signals and by the destructor. -/
def stops (es : List (LifeAction × LifeOutput)) : Nat := es.countP fun e => decide (Stops e.1)

theorem stops_snoc (e : LifeAction × LifeOutput) :
    stops (es ++ [e]) = stops es + if Stops e.1 then 1 else 0 := by
  rw [stops, List.countP_append, List.countP_singleton]
  simp [stops]

theorem stop_cases (s : Server) :
    (s.mExitRequested.satisfied = true ∧ s.stop = none) ∨
      s.mExitRequested.satisfied = false ∧
        s.stop = some { s with mExitRequested := { s.mExitRequested with satisfied := true } } := by
  cases hsat : s.mExitRequested.satisfied with
  | true => exact .inl ⟨rfl, by simp [stop, StdPromise.setValue, hsat]⟩
  | false => exact .inr ⟨rfl, by simp [stop, StdPromise.setValue, hsat]⟩

/-- What a step can do: it has nothing to do with `stop`; it calls `stop`, which throws; or it calls
`stop`, which fulfils the promise. -/
inductive LifeStep (s : Server) : LifeAction → LifeOutput → Server → Prop
  | other {a : LifeAction} {o : LifeOutput} {u : Server} (ha : ¬ Stops a)
      (hsat : u.mExitRequested.satisfied = s.mExitRequested.satisfied) (ho : o ≠ .futureError)
      (hgone : u.gone = true → o = .crashed) : LifeStep s a o u
  | thrown {a : LifeAction} {u : Server} (ha : Stops a) (hsat : s.mExitRequested.satisfied = true)
      (hsat' : u.mExitRequested.satisfied = true) (hgone : u.gone = true) :
      LifeStep s a .futureError u
  | fulfilled {a : LifeAction} {u : Server} (ha : Stops a)
      (hsat : s.mExitRequested.satisfied = false) (hsat' : u.mExitRequested.satisfied = true)
      (hgone : u.gone = true ↔ a = .destroy) : LifeStep s a .silent u

theorem LifeStep.of_step (h : s.step a = some (o, u)) : s.gone = false ∧ LifeStep s a o u := by
  unfold step at h
  split at h
  · cases h
  next hs =>
  have hs : s.gone = false := Bool.eq_false_iff.mpr hs
  refine ⟨hs, ?_⟩
  cases a with
  | start build =>
      dsimp only at h
      split at h
      · cases build <;> cases h
        · exact .other id rfl (by simp) (by simp [hs])
        · exact .other id rfl (by simp) (by simp)
        · exact .other id rfl (by simp) (by simp [startFailed, hs])
      · cases h
  | getFuture =>
      dsimp only at h
      split at h
      · split at h
        · next p hp =>
          have hsat : p.satisfied = s.mExitRequested.satisfied := by
            unfold StdPromise.getFuture at hp
            split at hp
            · cases hp
            · cases hp
              rfl
          cases h
          exact .other id hsat (by simp) (by simp [hs])
        · cases h
          exact .other id rfl (by simp) (by simp [startFailed, hs])
      · cases h
  | wake =>
      dsimp only at h
      split at h
      · cases h
        exact .other id rfl (by simp) (by simp [hs])
      · cases h
  | stop =>
      rcases stop_cases s with ⟨hsat, hstop⟩ | ⟨hsat, hstop⟩ <;> simp only [hstop] at h <;> cases h
      · exact .thrown trivial hsat hsat rfl
      · exact .fulfilled trivial hsat rfl (by simp [hs])
  | destroy =>
      dsimp only at h
      split at h
      · cases h
      · rcases stop_cases s with ⟨hsat, hstop⟩ | ⟨hsat, hstop⟩ <;> simp only [hstop] at h <;>
          cases h
        · exact .thrown trivial hsat hsat rfl
        · exact .fulfilled trivial hsat rfl (by simp)

/-- **Step lemma.** A call of `stop` fulfils the promise, or throws if it is fulfilled; no other
step does either. -/
theorem step_stops (h : s.step a = some (o, u)) :
    (u.mExitRequested.satisfied = true ↔ s.mExitRequested.satisfied = true ∨ Stops a) ∧
      (o = .futureError ↔ Stops a ∧ s.mExitRequested.satisfied = true) := by
  obtain ⟨-, hstep⟩ := LifeStep.of_step h
  cases hstep with
  | other ha hsat ho => simp [ha, hsat, ho]
  | thrown ha hsat hsat' => simp [ha, hsat, hsat']
  | fulfilled ha hsat hsat' => simp [ha, hsat, hsat']

/-- **Run lemma.** -/
theorem run_stops (h : Run step anyAction new es s) :
    (s.mExitRequested.satisfied = true ↔ 1 ≤ stops es) ∧
      ((∀ e ∈ es, e.2 ≠ .futureError) ↔ stops es ≤ 1) := by
  induction h with
  | nil => simp [new, StdPromise.new, stops]
  | @snoc es t u a o h _ hs ih =>
      obtain ⟨hsat, hthrow⟩ := ih
      obtain ⟨hsat', hthrow'⟩ := step_stops hs
      have hlast : (∀ e ∈ es ++ [(a, o)], e.2 ≠ .futureError) ↔
          stops es ≤ 1 ∧ ¬ (Stops a ∧ 1 ≤ stops es) := by
        rw [List.forall_mem_append, hthrow, List.forall_mem_singleton, ne_eq, hthrow', hsat]
      rw [stops_snoc, hsat', hsat, hlast]
      by_cases ha : Stops a
      · rw [if_pos ha]
        refine ⟨by simp [ha], ?_⟩
        simp only [ha, true_and]
        omega
      · rw [if_neg ha]
        exact ⟨by simp [ha], by simp [ha]⟩

/-- A lifetime that is over ended in the destructor, with an exception, or with a crash. -/
theorem gone_cases (hs : s.step a = some (o, u)) (hgone : u.gone = true) :
    a = .destroy ∨ a = .stop ∧ o = .futureError ∨ o = .crashed := by
  obtain ⟨-, hstep⟩ := LifeStep.of_step hs
  cases hstep with
  | other _ _ _ hcrash => exact .inr (.inr (hcrash hgone))
  | thrown ha =>
      cases a with
      | stop => exact .inr (.inl ⟨rfl, rfl⟩)
      | destroy => exact .inl rfl
      | start | getFuture | wake => exact ha.elim
  | fulfilled _ _ _ hdestroy => exact .inl (hdestroy.mp hgone)

theorem gone_of_destroy (hs : s.step .destroy = some (o, u)) : u.gone = true := by
  obtain ⟨-, hstep⟩ := LifeStep.of_step hs
  cases hstep with
  | other ha => exact absurd trivial ha
  | thrown _ _ _ hgone => exact hgone
  | fulfilled _ _ _ hdestroy => exact hdestroy.mpr rfl

/-- The destructor is the last step. -/
theorem run_destroy (h : Run step anyAction new es s) (hgone : s.gone = false) :
    ∀ e ∈ es, e.1 ≠ .destroy := by
  induction h with
  | nil => exact fun e he => absurd he List.not_mem_nil
  | @snoc es t u a o h _ hs ih =>
      intro e he
      rcases List.mem_append.mp he with he | he
      · exact ih (LifeStep.of_step hs).1 e he
      · obtain rfl := List.mem_singleton.mp he
        rintro rfl
        rw [gone_of_destroy hs] at hgone
        cases hgone

/-- **Shutting down is idempotent** in a whole lifetime of the object if and only if `stop` is not
called before the destructor. -/
theorem no_future_error_iff (h : Run step anyAction new es s) (hgone : s.gone = true)
    (hcrash : ∀ e ∈ es, e.2 ≠ .crashed) :
    (∀ e ∈ es, e.2 ≠ .futureError) ↔ ∀ e ∈ es, e.1 ≠ .stop := by
  have hstops := (run_stops h).2
  cases h with
  | nil => cases hgone
  | @snoc es t _ a o h₁ _ hs =>
      have hmem : (a, o) ∈ es ++ [(a, o)] := by simp
      rcases gone_cases hs hgone with rfl | ⟨rfl, rfl⟩ | rfl
      · have hlast : stops (es ++ [(.destroy, o)]) = stops es + 1 := stops_snoc _
        have hnone : stops (es ++ [(.destroy, o)]) ≤ 1 ↔ stops es = 0 := by
          rw [hlast]
          omega
        have hdestroy := run_destroy h₁ (LifeStep.of_step hs).1
        rw [hstops, hnone, stops, List.countP_eq_zero, List.forall_mem_append]
        constructor
        · intro hno
          exact ⟨fun e he hstop => hno e he (by simp [hstop, Stops]), by simp⟩
        · rintro ⟨hno, -⟩ ⟨b, r⟩ he hstop
          have hstops : Stops b := of_decide_eq_true hstop
          cases b with
          | stop => exact hno _ he rfl
          | destroy => exact hdestroy _ he rfl
          | start | getFuture | wake => exact hstops
      · exact iff_of_false (fun hno => hno _ hmem rfl) fun hno => hno _ hmem rfl
      · exact absurd rfl (hcrash _ hmem)

/-- The port is taken, and nobody sends a signal. -/
def startFails : List LifeAction := [.start .exception, .destroy]

theorem startFails_runs : (script step anyAction new startFails).isSome :=
  rfl

theorem no_future_error_iff_startFails :
    ∃ es s, Run step anyAction new es s ∧
      ((∀ e ∈ es, e.2 ≠ .futureError) ↔ ∀ e ∈ es, e.1 ≠ .stop) :=
  ⟨_, _, Run.of_script startFails_runs, no_future_error_iff (Run.of_script startFails_runs)
    (by decide +kernel) (by decide +kernel)⟩

/-- The server serves, and gets one signal. -/
def oneSignal : List LifeAction := [.start .built, .getFuture, .stop, .wake, .destroy]

theorem oneSignal_runs : (script step anyAction new oneSignal).isSome :=
  rfl

/-- **One signal is one too many**: `start` returns 0, and the destructor throws. -/
theorem one_signal_future_error :
    ∃ es s, Run step anyAction new es s ∧ (LifeAction.wake, LifeOutput.returned 0) ∈ es ∧
      (LifeAction.destroy, LifeOutput.futureError) ∈ es :=
  ⟨_, _, Run.of_script oneSignal_runs, by decide +kernel, by decide +kernel⟩

end Server

end SimpleTaskQueue
