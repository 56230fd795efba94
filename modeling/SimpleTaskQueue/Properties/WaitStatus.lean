import SimpleTaskQueue.Model.Proc.Host
import SimpleTaskQueue.Refinement.LinuxQueue
/-!
# SimpleTaskQueue.Properties.WaitStatus

**The recorded wait status is stable.** `waitpid` delivers the status of a child once, and every
`exitCode` polls again; still the answers of `LinuxProc` depend only on how its child ended.
-/

namespace SimpleTaskQueue

open Processes Runs

/-- An event of the server with one `LinuxProc`. -/
abbrev LinuxEvent := LinuxAction × ProcOutput Int

namespace LinuxHost

variable {s t u : LinuxHost} {a : LinuxAction} {o : ProcOutput Int} {es es' : List LinuxEvent}
  {env : StartEnv} {ts : List Termination}

/-- How the child `pid` ended in a history. -/
def endings (pid : Int) (es : List LinuxEvent) : List Termination :=
  es.filterMap fun e => match e.1 with
    | .ends (p, t) => if p = pid then some t else none
    | _ => none

theorem endings_append (pid : Int) (es es' : List LinuxEvent) :
    endings pid (es ++ es') = endings pid es ++ endings pid es' :=
  List.filterMap_append

/-- The call does not change what task the object is about. -/
def SameTask : LinuxAction → Prop
  | .start _ | .init => False
  | _ => True

/-- **The invariant**: the child of the object, the endings of that child, and `m_exitCode`. -/
inductive Watched (s : LinuxHost) : List Termination → Prop
  | live (hget : s.children.get s.proc.mPid = some .live) : Watched s []
  | zombie {t : Termination} (hget : s.children.get s.proc.mPid = some (.zombie t.status)) :
      Watched s [t]
  | collected {t : Termination} (hget : s.children.get s.proc.mPid = some .collected)
      (hcode : s.proc.mExitCode = t.status) : Watched s [t]

/-- What is watched is the child of the object and `m_exitCode`. -/
theorem Watched.congr (h : Watched s ts) (hpid : u.proc.mPid = s.proc.mPid)
    (hcode : u.proc.mExitCode = s.proc.mExitCode)
    (hget : u.children.get s.proc.mPid = s.children.get s.proc.mPid) : Watched u ts := by
  rw [← hpid] at hget
  cases h with
  | live hlive => exact .live (by rw [hget, hpid, hlive])
  | zombie hzombie => exact .zombie (by rw [hget, hpid, hzombie])
  | collected hcol hw => exact .collected (by rw [hget, hpid, hcol]) (hcode.trans hw)

/-- What is asked of the object. -/
def Running (s : LinuxHost) : Prop :=
  ∀ pick, (s.proc.isRunning pick s.children).1 = true ∧
    (s.proc.exitCode pick s.children).1 = none

def EndedWith (s : LinuxHost) (w : Int) : Prop :=
  ∀ pick, (s.proc.isRunning pick s.children).1 = false ∧
    (s.proc.exitCode pick s.children).1 = some w

/-- A poll keeps what is watched, and answers right. -/
theorem Watched.isRunning (h : Watched s ts) (pick : Int) :
    ∃ p k, s.proc.isRunning pick s.children = (ts.isEmpty, p, k) ∧ Watched ⟨p, k⟩ ts ∧
      p.mPid = s.proc.mPid ∧ ∀ t, ts = [t] → p.mExitCode = t.status := by
  cases h with
  | live hget => exact ⟨_, _, LinuxQueue.isRunning_of_get pick hget, .live hget, rfl, by simp⟩
  | @zombie t hget =>
      have hrun := LinuxQueue.isRunning_of_get pick hget
      simp only [wIf_status, if_true] at hrun
      refine ⟨_, _, hrun, .collected (Children.get_set_self hget _) rfl, rfl, ?_⟩
      rintro t ⟨⟩
      rfl
  | @collected t hget hcode =>
      refine ⟨_, _, LinuxQueue.isRunning_of_get pick hget, .collected hget hcode, rfl, ?_⟩
      rintro t ⟨⟩
      exact hcode

theorem Watched.exitCode (h : Watched s ts) (pick : Int) :
    ∃ n p k, s.proc.exitCode pick s.children = (n, p, k) ∧ Watched ⟨p, k⟩ ts ∧
      p.mPid = s.proc.mPid ∧ (ts = [] → n = none) ∧ ∀ t, ts = [t] → n = some t.status := by
  obtain ⟨p, k, hrun, hw, hpid, hcode⟩ := h.isRunning pick
  cases ts with
  | nil => exact ⟨none, p, k, by simp [LinuxProc.exitCode, hrun], hw, hpid, fun _ => rfl, by simp⟩
  | cons t ts =>
      refine ⟨some p.mExitCode, p, k, by simp [LinuxProc.exitCode, hrun], hw, hpid, by simp, ?_⟩
      intro t' ht'
      rw [hcode t' ht']

theorem Watched.answers (h : Watched s ts) :
    ts = [] ∧ Running s ∨ ∃ t, ts = [t] ∧ EndedWith s t.status := by
  have hpoll : ∀ pick, (s.proc.isRunning pick s.children).1 = ts.isEmpty ∧
      (ts = [] → (s.proc.exitCode pick s.children).1 = none) ∧
      ∀ t, ts = [t] → (s.proc.exitCode pick s.children).1 = some t.status := by
    intro pick
    obtain ⟨p, k, hrun, -⟩ := h.isRunning pick
    obtain ⟨n, p', k', hexit, -, -, hnone, hsome⟩ := h.exitCode pick
    rw [hrun, hexit]
    exact ⟨rfl, hnone, hsome⟩
  cases h with
  | live => exact .inl ⟨rfl, fun pick => ⟨(hpoll pick).1, (hpoll pick).2.1 rfl⟩⟩
  | @zombie t | @collected t =>
      exact .inr ⟨t, rfl, fun pick => ⟨(hpoll pick).1, (hpoll pick).2.2 t rfl⟩⟩

/-- **Step lemma.** -/
theorem Watched.step (h : Watched s ts) (hs : LinuxHost.step s a = some (o, u))
    (hsame : SameTask a) :
    u.proc.mPid = s.proc.mPid ∧ Watched u (ts ++ endings s.proc.mPid [(a, o)]) := by
  cases a with
  | init | start => cases hsame
  | stop =>
      cases hs
      rw [show endings s.proc.mPid [(.stop, .silent)] = [] from rfl, List.append_nil]
      exact ⟨rfl, h.congr rfl rfl rfl⟩
  | isRunning pick =>
      obtain ⟨p, k, hrun, hw, hpid, -⟩ := h.isRunning pick
      simp only [LinuxHost.step, hrun] at hs
      cases hs
      exact ⟨hpid, by simpa [endings] using hw⟩
  | exitCode pick =>
      obtain ⟨n, p, k, hexit, hw, hpid, -⟩ := h.exitCode pick
      simp only [LinuxHost.step, hexit] at hs
      cases hs
      exact ⟨hpid, by simpa [endings] using hw⟩
  | ends child =>
      obtain ⟨pid, t⟩ := child
      obtain ⟨k, hk, ⟨⟩⟩ := Option.map_eq_some_iff.mp hs
      refine ⟨rfl, ?_⟩
      simp only [Children.terminate] at hk
      split at hk
      · next hlive =>
        obtain rfl := Option.some.inj hk
        by_cases hpid : pid = s.proc.mPid
        · subst hpid
          have hends : endings s.proc.mPid [(.ends (s.proc.mPid, t), .silent)] = [t] := by
            simp [endings]
          rw [hends]
          cases h with
          | live => exact .zombie (Children.get_set_self hlive _)
          | zombie hget | collected hget =>
              rw [hget] at hlive
              cases hlive
        · have hends : endings s.proc.mPid [(.ends (pid, t), .silent)] = [] := by
            simp [endings, hpid]
          have hother := Children.get_set_ne (k := s.children) (Children.get_pos hlive) hpid
            (.zombie t.status)
          rw [hends, List.append_nil]
          exact h.congr rfl rfl hother
      · cases hk

/-- **Run lemma.** -/
theorem Watched.run (h : Run LinuxHost.step (fun _ => SameTask) s es u) (hw : Watched s []) :
    u.proc.mPid = s.proc.mPid ∧ Watched u (endings s.proc.mPid es) := by
  induction h with
  | nil => exact ⟨rfl, hw⟩
  | snoc _ hsame hs ih =>
      obtain ⟨hpid, hw'⟩ := ih
      obtain ⟨hpid', hw''⟩ := hw'.step hs hsame
      rw [endings_append]
      exact ⟨hpid'.trans hpid, hpid ▸ hw''⟩

/-- **The answers of a single `LinuxProc` are stable.** In every history, from a `start` that
returned 0 up to the next `start`: as long as the child of that `start` lives, every `isRunning`
returns true and every `exitCode` fails; once it has ended, every `isRunning` returns false and
every `exitCode` the status with which it ended. It ends once at most. -/
theorem wait_status_stable
    (h : Run step anyAction fresh (es ++ (.start env, .code 0) :: es') s)
    (hes' : ∀ e ∈ es', SameTask e.1) :
    ∃ s₁, Run step anyAction fresh (es ++ [(.start env, .code 0)]) s₁ ∧
      s₁.children.get s₁.proc.mPid = some .live ∧ s.proc.mPid = s₁.proc.mPid ∧
      ((endings s₁.proc.mPid es' = [] ∧ Running s) ∨
        ∃ t, endings s₁.proc.mPid es' = [t] ∧ EndedWith s t.status) := by
  obtain ⟨s₀, s₁, h₀, -, hs, h₁⟩ := h.at_step
  have hlive : s₁.children.get s₁.proc.mPid = some .live := by
    rcases hstart : s₀.proc.start env s₀.children with ⟨rc, p, k⟩
    simp only [step, hstart] at hs
    cases hs
    exact (LinuxQueue.start_eq_zero hstart).2.1
  obtain ⟨hpid, hw⟩ := Watched.run (h₁.of_forall hes') (.live hlive)
  exact ⟨s₁, h₀.snoc trivial hs, hlive, hpid, hw.answers⟩

/-- A task that was killed, and one that passes 3 to `exit`. -/
def twoTasks : List LinuxAction :=
  [.start .ok, .ends (1, .signaled sigKill false), .start .ok, .isRunning 1,
    .ends (2, .exited 3), .exitCode 1, .isRunning 1]

theorem twoTasks_runs : (script step anyAction fresh twoTasks).isSome :=
  rfl

theorem wait_status_stable_twoTasks :
    ∃ s s₁, Run step anyAction fresh
        [(.start .ok, .code 0), (.ends (1, .signaled sigKill false), .silent),
          (.start .ok, .code 0)] s₁ ∧
      s₁.children.get s₁.proc.mPid = some .live ∧ s.proc.mPid = s₁.proc.mPid ∧
      ((endings s₁.proc.mPid [(.isRunning 1, .running true), (.ends (2, .exited 3), .silent),
          (.exitCode 1, .exitCode (some 768)), (.isRunning 1, .running false)] = [] ∧ Running s) ∨
        ∃ t, endings s₁.proc.mPid [(.isRunning 1, .running true),
          (.ends (2, .exited 3), .silent), (.exitCode 1, .exitCode (some 768)),
          (.isRunning 1, .running false)] = [t] ∧ EndedWith s t.status) := by
  have hrun := Run.of_script twoTasks_runs
  have hes : ((script step anyAction fresh twoTasks).get twoTasks_runs).1 =
      [(.start .ok, .code 0), (.ends (1, .signaled sigKill false), .silent)] ++
        (.start .ok, .code 0) :: [(.isRunning 1, .running true), (.ends (2, .exited 3), .silent),
          (.exitCode 1, .exitCode (some 768)), (.isRunning 1, .running false)] := by
    decide +kernel
  rw [hes] at hrun
  exact ⟨_, wait_status_stable hrun (by simp [SameTask])⟩

end LinuxHost

end SimpleTaskQueue
