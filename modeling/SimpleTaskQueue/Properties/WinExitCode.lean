import SimpleTaskQueue.Model.Proc.Host
/-!
# SimpleTaskQueue.Properties.WinExitCode

**Does `WinProc` report the real exit code?** It takes a process with the code `STILL_ACTIVE` for a
running one, and `stop` gives the process handle away, after which nobody fetches the code any more:
`exitCode` then returns the placeholder that `start` stored. Apart from these two it does.
-/

namespace SimpleTaskQueue

open Runs

namespace WinHost

variable {s t u : WinHost} {a : WinAction} {o : ProcOutput DWord}
  {es : List (WinAction × ProcOutput DWord)}

/-- What the calls say now about the child that was started last, if there is one: when it ended by
itself, it is not running and its code is returned; and whatever `exitCode` returns is its code. So
the placeholder is never returned for another code, or before the child ended. -/
structure Reports (s : WinHost) : Prop where
  ended (code : DWord) (hlast : s.children.getLast? = some ⟨false, some code⟩) :
    (s.proc.isRunning s.children).1 = false ∧ (s.proc.exitCode s.children).1 = some code
  code (child : WinChild) (out : DWord) (hlast : s.children.getLast? = some child)
    (hout : (s.proc.exitCode s.children).1 = some out) : child.code = some out

/-- `m_exitCode` is the code of the last child, which ended. -/
def Fetched (s : WinHost) : Prop :=
  ∀ child, s.children.getLast? = some child → child.code = some s.proc.mExitCode

/-- The last child does not end with `STILL_ACTIVE`, and the handle is not given away before the
exit code was fetched. -/
def KeepsCode (s : WinHost) : WinAction → Prop
  | .ends (i, code) => i + 1 = s.children.length → code ≠ stillActive
  | .stop | .init => s.Fetched
  | _ => True

/-- **The invariant.** The object has the code of the last child, or its handle. -/
inductive Held (s : WinHost) : Prop
  | idle (hp : s.proc.hProcess = none) (hf : s.Fetched)
  | runs (hp : s.proc.hProcess = some (s.children.length - 1))
      (hlast : s.children.getLast? = some ⟨false, none⟩)
  | ended {child : WinChild} {code : DWord} (hp : s.proc.hProcess = some (s.children.length - 1))
      (hlast : s.children.getLast? = some child) (hcode : child.code = some code)
      (hne : code ≠ stillActive)

/-! ### The calls -/

theorem getExitCodeProcess_last {k : WinChildren} {child : WinChild}
    (hlast : k.getLast? = some child) :
    k.getExitCodeProcess (k.length - 1) = some (child.code.getD stillActive) := by
  rw [WinChildren.getExitCodeProcess, ← List.getLast?_eq_getElem?, hlast]
  rfl

/-- Closing a console keeps the codes. -/
theorem fetched_closePseudoConsole (p : WinProc) (k : WinChildren) (console : Nat) :
    Fetched ⟨p, k.closePseudoConsole console⟩ ↔ Fetched ⟨p, k⟩ := by
  obtain ⟨f, hf, hlast⟩ : ∃ f : WinChild → WinChild, (∀ child, (f child).code = child.code) ∧
      (k.closePseudoConsole console).getLast? = k.getLast?.map f := by
    rw [List.getLast?_eq_getElem?, WinChildren.closePseudoConsole, List.length_modify,
      List.getElem?_modify, ← List.getLast?_eq_getElem?]
    split
    · refine ⟨_, fun child => ?_, rfl⟩
      split <;> rfl
    · exact ⟨id, fun _ => rfl, rfl⟩
  simp only [Fetched, hlast]
  cases k.getLast? <;> simp [hf]

/-- `resetHandle` gives the handle away, and keeps `m_exitCode`. -/
theorem resetHandle_idle {p p' : WinProc} {k k' : WinChildren} (h : p.resetHandle k = (p', k')) :
    p'.hProcess = none ∧ p'.mExitCode = p.mExitCode ∧ (Fetched ⟨p', k'⟩ ↔ Fetched ⟨p, k⟩) := by
  cases h
  refine ⟨rfl, rfl, ?_⟩
  cases p.mPseudoConsole with
  | none => exact .rfl
  | some console => exact fetched_closePseudoConsole p k console

/-- `stop` and `init` do the same. -/
theorem stopImpl_idle {p p' : WinProc} {k k' : WinChildren} (h : p.stopImpl k = (p', k')) :
    p'.hProcess = none ∧ p'.mExitCode = p.mExitCode ∧ (Fetched ⟨p', k'⟩ ↔ Fetched ⟨p, k⟩) := by
  unfold WinProc.stopImpl at h
  split at h
  · exact resetHandle_idle h
  · next console _ =>
    obtain ⟨hp, hcode, hf⟩ := resetHandle_idle h
    exact ⟨hp, hcode, hf.trans (fetched_closePseudoConsole p k console)⟩

/-- `init` and `stop` give the handle away. -/
theorem closes_idle (hs : WinHost.step s a = some (o, u)) (ha : a = .init ∨ a = .stop) :
    u.proc.hProcess = none ∧ (Fetched u ↔ Fetched s) := by
  rcases ha with rfl | rfl
  · cases hs
    obtain ⟨hp, -, hf⟩ := resetHandle_idle (p := { s.proc with hProcess := none, hThread := none })
      (k := s.children) rfl
    exact ⟨hp, hf⟩
  · cases hs
    obtain ⟨hp, -, hf⟩ := stopImpl_idle (p := s.proc) (k := s.children) rfl
    exact ⟨hp, hf⟩

/-- `isRunning` answers right, and fetches the code of an ended child. -/
theorem Held.isRunning (h : Held s) :
    (s.children.getLast? = some ⟨false, none⟩ ∧
      s.proc.isRunning s.children = (true, s.proc)) ∨
    ∃ p, s.proc.isRunning s.children = (false, p) ∧ Held ⟨p, s.children⟩ ∧
      Fetched ⟨p, s.children⟩ := by
  cases h with
  | idle hp hf =>
      refine .inr ⟨s.proc, ?_, .idle hp hf, hf⟩
      simp only [WinProc.isRunning, hp]
  | runs hp hlast =>
      refine .inl ⟨hlast, ?_⟩
      simp [WinProc.isRunning, hp, getExitCodeProcess_last hlast]
  | @ended child code hp hlast hcode hne =>
      refine .inr ⟨{ s.proc with mExitCode := code }, ?_, .ended hp hlast hcode hne, ?_⟩
      · simp [WinProc.isRunning, hp, getExitCodeProcess_last hlast, hcode, hne]
      · intro child' hlast'
        obtain rfl : child = child' := Option.some.inj (hlast.symm.trans hlast')
        exact hcode

/-- A poll, by `isRunning` or `exitCode`, keeps the invariant. -/
theorem Held.polled (h : Held s) : Held ⟨(s.proc.isRunning s.children).2, s.children⟩ := by
  rcases h.isRunning with ⟨-, hrun⟩ | ⟨p, hrun, hp, -⟩
  · rw [hrun]
    exact h
  · rw [hrun]
    exact hp

theorem exitCode_snd (p : WinProc) (k : WinChildren) : (p.exitCode k).2 = (p.isRunning k).2 := by
  unfold WinProc.exitCode
  dsimp only
  split <;> rfl

theorem Held.reports (h : Held s) : Reports s := by
  rcases h.isRunning with ⟨hlast, hrun⟩ | ⟨p, hrun, -, hf⟩
  · have hout : (s.proc.exitCode s.children).1 = none := by simp [WinProc.exitCode, hrun]
    constructor
    · intro code hlast'
      rw [hlast] at hlast'
      cases hlast'
    · intro child out _ hout'
      rw [hout] at hout'
      cases hout'
  · have hout : (s.proc.exitCode s.children).1 = some p.mExitCode := by
      simp [WinProc.exitCode, hrun]
    constructor
    · intro code hlast
      obtain rfl : code = p.mExitCode := Option.some.inj (hf _ hlast)
      exact ⟨by rw [hrun], hout⟩
    · intro child out hlast hout'
      rw [hf child hlast, ← hout, hout']

theorem createChildProcess_cases (p : WinProc) (env : WinStartEnv) (task : Task)
    (k : WinChildren) :
    (∃ line, p.createChildProcess env task k = (1, p, k, line)) ∨
    ∃ line, p.createChildProcess env task k =
      (0, { p with hProcess := some k.length, hThread := some k.length }, k ++ [⟨false, none⟩],
        line) := by
  unfold WinProc.createChildProcess
  split
  · exact .inl ⟨_, rfl⟩
  split
  · exact .inl ⟨_, rfl⟩
  split
  · exact .inl ⟨_, rfl⟩
  split
  · exact .inl ⟨_, rfl⟩
  · exact .inr ⟨_, rfl⟩

theorem Held.start (h : Held s) {env : WinStartEnv} {task : Task} {rc : Nat} {p : WinProc}
    {k : WinChildren} (hs : s.proc.start env task s.children = (rc, p, k)) : Held ⟨p, k⟩ := by
  rcases h.isRunning with ⟨-, hrun⟩ | ⟨q, hrun, hq, hf⟩
  · simp only [WinProc.start, hrun, if_true] at hs
    cases hs
    exact h
  · simp only [WinProc.start, hrun, Bool.false_eq_true, if_false] at hs
    split at hs
    · cases hs
      exact hq
    -- behind `resetHandle` the object has the code of the last child, and no handle
    rcases hreset : q.resetHandle s.children with ⟨q₁, k₁⟩
    obtain ⟨hp₁, -, hf₁⟩ := resetHandle_idle hreset
    have hfetched : ∀ p, p.mExitCode = q₁.mExitCode → Fetched ⟨p, k₁⟩ := by
      intro p hp child hlast
      rw [hp]
      exact hf₁.mpr hf child hlast
    simp only [hreset] at hs
    split at hs
    · cases hs
      exact .idle hp₁ (hfetched _ rfl)
    split at hs
    · cases hs
      exact .idle hp₁ (hfetched _ rfl)
    split at hs
    · rw [Prod.mk.injEq] at hs
      obtain ⟨hp₂, -, hf₂⟩ := resetHandle_idle hs.2
      exact .idle hp₂ (hf₂.mpr (hfetched _ rfl))
    rcases createChildProcess_cases { q₁ with
        mChildStdoutRead := true, mChildStdoutWrite := true, mChildStdinRead := true,
        mChildStdinWrite := true, mPseudoConsole := some k₁.length } env task k₁ with
      ⟨line, hchild⟩ | ⟨line, hchild⟩
    · simp only [hchild] at hs
      rw [if_pos Nat.one_ne_zero, Prod.mk.injEq] at hs
      obtain ⟨hp₂, -, hf₂⟩ := resetHandle_idle hs.2
      exact .idle hp₂ (hf₂.mpr (hfetched _ rfl))
    · simp only [hchild] at hs
      cases hs
      exact .runs (by simp) (by simp)

/-! ### The steps -/

/-- The last child ends, or another one. -/
theorem ends_cases {k k' : WinChildren} {i : Nat} {code : DWord} (h : k.ends i code = some k') :
    k'.length = k.length ∧
      ((i + 1 = k.length ∧ ∃ closed, k.getLast? = some ⟨closed, none⟩ ∧
          k'.getLast? = some ⟨closed, some code⟩) ∨
        (i + 1 ≠ k.length ∧ k'.getLast? = k.getLast?)) := by
  unfold WinChildren.ends at h
  split at h
  · next closed hi =>
    obtain rfl := Option.some.inj h
    have hlt : i < k.length := (List.getElem?_eq_some_iff.mp hi).1
    refine ⟨List.length_set, ?_⟩
    rw [List.getLast?_eq_getElem?, List.getLast?_eq_getElem?, List.length_set]
    by_cases hi' : i + 1 = k.length
    · rw [← hi', Nat.add_sub_cancel, hi, List.getElem?_set_self hlt]
      exact .inl ⟨rfl, closed, rfl, rfl⟩
    · exact .inr ⟨hi', List.getElem?_set_ne (by omega)⟩
  · cases h

/-- While the last child runs, the object has its handle. -/
theorem Held.running (h : Held s) {closed : Bool}
    (hlast : s.children.getLast? = some ⟨closed, none⟩) :
    closed = false ∧ s.proc.hProcess = some (s.children.length - 1) := by
  cases h with
  | idle hp hf => cases hf _ hlast
  | runs hp hruns =>
      rw [hlast] at hruns
      cases hruns
      exact ⟨rfl, hp⟩
  | ended hp hended hcode =>
      rw [hlast] at hended
      cases hended
      cases hcode

theorem Held.step (h : Held s) (hs : WinHost.step s a = some (o, u)) (hkeeps : KeepsCode s a) :
    Held u := by
  cases a with
  | init =>
      obtain ⟨hp, hf⟩ := closes_idle hs (.inl rfl)
      exact .idle hp (hf.mpr hkeeps)
  | start arg =>
      obtain ⟨env, task⟩ := arg
      cases hs
      exact h.start rfl
  | stop =>
      obtain ⟨hp, hf⟩ := closes_idle hs (.inr rfl)
      exact .idle hp (hf.mpr hkeeps)
  | isRunning pick =>
      cases hs
      exact h.polled
  | exitCode pick =>
      obtain rfl : ⟨(s.proc.exitCode s.children).2, s.children⟩ = u :=
        congrArg Prod.snd (Option.some.inj hs)
      rw [exitCode_snd]
      exact h.polled
  | ends child =>
      obtain ⟨i, code⟩ := child
      obtain ⟨k, hk, ⟨⟩⟩ := Option.map_eq_some_iff.mp hs
      obtain ⟨hlen, ⟨hi, closed, hlast, hlast'⟩ | ⟨-, hsame⟩⟩ := ends_cases hk
      · obtain ⟨-, hp⟩ := h.running hlast
        exact .ended (by rw [hlen, ← hp]) hlast' rfl (hkeeps hi)
      · cases h with
        | idle hp hf => exact .idle hp fun child hlast => hf child (hsame ▸ hlast)
        | runs hp hlast => exact .runs (by rw [hlen, ← hp]) (hsame.trans hlast)
        | ended hp hlast hcode hne =>
            exact .ended (by rw [hlen, ← hp]) (hsame.trans hlast) hcode hne

/-- Without its handle the object returns what it has. -/
theorem not_reports_of_idle (hp : s.proc.hProcess = none) (hf : ¬ Fetched s) : ¬ Reports s := by
  intro hreports
  have hout : (s.proc.exitCode s.children).1 = some s.proc.mExitCode := by
    simp [WinProc.exitCode, WinProc.isRunning, hp]
  exact hf fun child hlast => hreports.code _ _ hlast hout

theorem Held.not_reports (h : Held s) (hs : WinHost.step s a = some (o, u))
    (hkeeps : ¬ KeepsCode s a) : ¬ Reports u := by
  cases a with
  | init =>
      obtain ⟨hp, hf⟩ := closes_idle hs (.inl rfl)
      exact not_reports_of_idle hp (mt hf.mp hkeeps)
  | stop =>
      obtain ⟨hp, hf⟩ := closes_idle hs (.inr rfl)
      exact not_reports_of_idle hp (mt hf.mp hkeeps)
  | ends child =>
      obtain ⟨i, code⟩ := child
      obtain ⟨k, hk, ⟨⟩⟩ := Option.map_eq_some_iff.mp hs
      obtain ⟨hi, rfl⟩ : i + 1 = s.children.length ∧ code = stillActive := by
        simpa [KeepsCode] using hkeeps
      obtain ⟨hlen, ⟨-, closed, hlast, hlast'⟩ | ⟨hi', -⟩⟩ := ends_cases hk
      · -- the child had its console, so it ended by itself
        obtain ⟨rfl, hp⟩ := h.running hlast
        intro hreports
        obtain ⟨hrun, -⟩ := hreports.ended _ hlast'
        have hcode := getExitCodeProcess_last hlast'
        rw [hlen] at hcode
        simp [WinProc.isRunning, hp, hcode] at hrun
      · exact absurd hi hi'
  | start | isRunning | exitCode => exact absurd trivial hkeeps

theorem held_fresh : Held fresh := .idle rfl fun _ hlast => by cases hlast

/-- **`WinProc` reports the real exit code** in every state of a history of calls exactly if in none
of its steps the last child ends with `STILL_ACTIVE`, and no `stop` (and no `init`) comes while the
last child runs or before a poll has fetched its code. -/
theorem reports_always_iff (h : Run step anyAction fresh es s) :
    (∀ es₁ es₂ t, es = es₁ ++ es₂ → Run step anyAction fresh es₁ t → Reports t) ↔
      ∀ es₁ a o es₂ t, es = es₁ ++ (a, o) :: es₂ → Run step anyAction fresh es₁ t →
        KeepsCode t a :=
  h.always_iff held_fresh (fun _ ht => ht.reports)
    (fun _ _ _ _ _ _ ht _ hs hkeeps => ht.step hs hkeeps)
    (fun _ _ _ _ _ _ ht _ hs hkeeps => ht.not_reports hs hkeeps)

/-- The code of the child is fetched, then the handle is given away. -/
def polledFirst : List WinAction :=
  [.start (.ok, listing), .isRunning (), .ends (0, 7), .exitCode (), .stop]

theorem polledFirst_runs : (script step anyAction fresh polledFirst).isSome :=
  rfl

theorem reports_always_iff_polledFirst :
    ∃ es s, Run step anyAction fresh es s ∧ (s.proc.exitCode s.children).1 = some 7 ∧
      ((∀ es₁ es₂ t, es = es₁ ++ es₂ → Run step anyAction fresh es₁ t → Reports t) ↔
        ∀ es₁ a o es₂ t, es = es₁ ++ (a, o) :: es₂ → Run step anyAction fresh es₁ t →
          KeepsCode t a) :=
  ⟨_, _, Run.of_script polledFirst_runs, by decide +kernel,
    reports_always_iff (Run.of_script polledFirst_runs)⟩

/-- The child passes 259 to `exit`. -/
def exitsStillActive : List WinAction := [.start (.ok, listing), .ends (0, stillActive)]

/-- The child passes 1 to `exit`; then `stop` is called, and only then `exitCode`. -/
def stoppedFirst : List WinAction := [.start (.ok, listing), .ends (0, 1), .stop]

theorem exitsStillActive_runs : (script step anyAction fresh exitsStillActive).isSome :=
  rfl

theorem stoppedFirst_runs : (script step anyAction fresh stoppedFirst).isSome :=
  rfl

/-- **A child that ended with 259 runs for ever, and a stopped one has ended with 259.** -/
theorem placeholder_reported :
    (∃ es s, Run step anyAction fresh es s ∧
      s.children.getLast? = some ⟨false, some stillActive⟩ ∧
      (s.proc.isRunning s.children).1 = true ∧ (s.proc.exitCode s.children).1 = none ∧
      ¬ Reports s) ∧
    ∃ es s, Run step anyAction fresh es s ∧ s.children.getLast? = some ⟨false, some 1⟩ ∧
      (s.proc.exitCode s.children).1 = some stillActive ∧ ¬ Reports s := by
  refine ⟨⟨_, _, Run.of_script exitsStillActive_runs, by decide +kernel, by decide +kernel,
    by decide +kernel, fun hreports => ?_⟩, ⟨_, _, Run.of_script stoppedFirst_runs,
    by decide +kernel, by decide +kernel, fun hreports => ?_⟩⟩
  · obtain ⟨hrun, -⟩ := hreports.ended stillActive (by decide +kernel)
    exact absurd hrun (by decide +kernel)
  · have hcode := hreports.code ⟨false, some 1⟩ stillActive (by decide +kernel) (by decide +kernel)
    exact absurd hcode (by decide)

end WinHost

end SimpleTaskQueue
