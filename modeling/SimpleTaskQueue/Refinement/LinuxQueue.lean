import SimpleTaskQueue.Model.Dao.LinuxQueue
import SimpleTaskQueue.Refinement.Tracking
/-!
# SimpleTaskQueue.Refinement.LinuxQueue

What the composition of queue and `LinuxProc` adds to the queue alone. A run of the composition
is a run of the queue (`run_queue`), so all that is known of runs of the queue holds here too.

The new invariant is **custody** (`Custody`): from a successful `LinuxProc::start` on, and until
the next one, `m_pid` is the child of that start; and `m_exitCode` is its status word once
`waitpid` delivered it to this object. If another part of the server was faster, it is 0, the
value `start` set.
-/

namespace SimpleTaskQueue

open Sqlite Processes Runs SQLiteQueue

/-- An event of the composition. -/
abbrev HostEvent := HostAction × Report

namespace LinuxQueue

variable {s u : LinuxQueue} {a : HostAction} {r : Report} {es : List HostEvent}

/-- The discipline of one worker at a time. -/
def OneWorker (s : LinuxQueue) : HostAction → Prop
  | .client a => SQLiteQueue.OneWorker s.queue a
  | _ => True

instance (s : LinuxQueue) (a : HostAction) : Decidable (OneWorker s a) :=
  match a with
  | .client a => inferInstanceAs (Decidable (SQLiteQueue.OneWorker s.queue a))
  | .stop | .go _ | .init _ _ | .start _ _ | .isRunning _ _ | .fin _ _ _ | .terminate _ _ | .fork
  | .collect _ => isTrue trivial

/-- The action of the queue in the steps that do not reach `m_process`, but for its `stop`. -/
def quietPart : HostAction → Option Action
  | .client a => if isCall a then some a else none
  | .stop => some .stop
  | .go i => some (.worker i .go)
  | .init i env => some (.worker i (.init env))
  | _ => none

theorem quietPart_ne {qa : Action} (h : quietPart a = some qa) :
    (∀ i ok, qa ≠ .worker i (.start ok)) ∧ ∀ i env n, qa ≠ .worker i (.fin env n) := by
  cases a with
  | client a =>
      simp only [quietPart] at h
      split at h
      · next hcall =>
        cases h
        constructor
        · intro i ok hw
          subst hw
          cases hcall
        · intro i env n hw
          subst hw
          cases hcall
      · cases h
  | stop | go i | init i env =>
      cases h
      exact ⟨fun _ _ => nofun, fun _ _ _ => nofun⟩
  | start | isRunning | fin | terminate | fork | collect => cases h

theorem quietPart_oneWorker {qa : Action} (h : quietPart a = some qa) (hok : OneWorker s a) :
    s.queue.OneWorker qa := by
  cases a with
  | client a =>
      simp only [quietPart] at h
      split at h
      · cases h
        exact hok
      · cases h
  | stop | go i | init i env =>
      cases h
      exact fun h => nomatch h
  | start | isRunning | fin | terminate | fork | collect => cases h

/-- What a step does, by what it does to process and children. -/
inductive HostStep (s : LinuxQueue) : HostAction → Report → LinuxQueue → Prop
  /-- A step of the queue that leaves `LinuxProc` alone, but for a `kill`. -/
  | quiet {a : HostAction} {qa : Action} {o : Output} {q : SQLiteQueue} {k : Children}
      (hqa : quietPart a = some qa) (hq : s.queue.step qa = some (o, q))
      (hk : k.table = s.children.table) :
      HostStep s a (.queue (qa, o)) ⟨q, s.proc, k⟩
  | start {i : Nat} {env : StartEnv} {rc : Nat} {p : LinuxProc} {k : Children} {o : Output}
      {q : SQLiteQueue} (hrc : s.proc.start env s.children = (rc, p, k))
      (hq : s.queue.step (.worker i (.start (rc == 0))) = some (o, q)) :
      HostStep s (.start i env)
        (.started (.worker i (.start (rc == 0)), o) s.queue.mCurrentTask rc p.mPid) ⟨q, p, k⟩
  | isRunning {i : Nat} {pick : Int} {b : Bool} {p : LinuxProc} {k : Children} {o : Output}
      {q : SQLiteQueue} (hb : s.proc.isRunning pick s.children = (b, p, k))
      (hq : s.queue.step (.worker i (.isRunning b)) = some (o, q)) :
      HostStep s (.isRunning i pick) (.queue (.worker i (.isRunning b), o)) ⟨q, p, k⟩
  | fin {i : Nat} {env : Env} {pick : Int} {n : Option Int} {p : LinuxProc} {k : Children}
      {o : Output} {q : SQLiteQueue} (hn : s.proc.exitCode pick s.children = (n, p, k))
      (hq : s.queue.step (.worker i (.fin env n)) = some (o, q)) :
      HostStep s (.fin i env pick)
        (.finished (.worker i (.fin env n), o) s.queue.mCurrentTask n) ⟨q, p, k⟩
  | terminate {pid : Int} {t : Termination} (hlive : s.children.get pid = some .live) :
      HostStep s (.terminate pid t) .system
        { s with children := s.children.set pid (.zombie t.status) }
  | fork : HostStep s .fork .system { s with children := s.children.fork.2 }
  | collect {pid w : Int} (hz : s.children.get pid = some (.zombie w)) :
      HostStep s (.collect pid) .system { s with children := s.children.set pid .collected }

theorem lift_eq_some {qa : Action} {p : LinuxProc} {k : Children}
    {report : Action × Output → Report} (h : s.lift qa p k report = some (r, u)) :
    ∃ o q, s.queue.step qa = some (o, q) ∧ r = report (qa, o) ∧ u = ⟨q, p, k⟩ := by
  simp only [lift, Option.map_eq_some_iff, Prod.mk.injEq] at h
  obtain ⟨⟨o, q⟩, hq, rfl, rfl⟩ := h
  exact ⟨o, q, hq, rfl, rfl⟩

theorem HostStep.of_step (h : s.step a = some (r, u)) : HostStep s a r u := by
  cases a with
  | client a =>
      simp only [step] at h
      split at h
      · next hcall =>
        obtain ⟨o, q, hq, rfl, rfl⟩ := lift_eq_some h
        exact .quiet (if_pos hcall) hq rfl
      · cases h
  | stop =>
      obtain ⟨o, q, hq, rfl, rfl⟩ := lift_eq_some h
      refine .quiet rfl hq ?_
      split <;> rfl
  | go i =>
      obtain ⟨o, q, hq, rfl, rfl⟩ := lift_eq_some h
      exact .quiet rfl hq rfl
  | init i env =>
      obtain ⟨o, q, hq, rfl, rfl⟩ := lift_eq_some h
      exact .quiet rfl hq rfl
  | start i env =>
      rcases hrc : s.proc.start env s.children with ⟨rc, p, k⟩
      simp only [step, hrc] at h
      obtain ⟨o, q, hq, rfl, rfl⟩ := lift_eq_some h
      exact .start hrc hq
  | isRunning i pick =>
      rcases hb : s.proc.isRunning pick s.children with ⟨b, p, k⟩
      simp only [step, hb] at h
      obtain ⟨o, q, hq, rfl, rfl⟩ := lift_eq_some h
      exact .isRunning hb hq
  | fin i env pick =>
      rcases hn : s.proc.exitCode pick s.children with ⟨n, p, k⟩
      simp only [step, hn] at h
      obtain ⟨o, q, hq, rfl, rfl⟩ := lift_eq_some h
      exact .fin hn hq
  | terminate pid t =>
      simp only [step, Children.terminate] at h
      split at h
      · next hlive =>
        simp only [Option.map_some, Option.some.injEq, Prod.mk.injEq] at h
        obtain ⟨rfl, rfl⟩ := h
        exact .terminate hlive
      · cases h
  | fork =>
      simp only [step, Option.some.injEq, Prod.mk.injEq] at h
      obtain ⟨rfl, rfl⟩ := h
      exact .fork
  | collect pid =>
      simp only [step, Children.collect] at h
      split at h
      · next w hz =>
        simp only [Option.map_some, Option.some.injEq, Prod.mk.injEq] at h
        obtain ⟨rfl, rfl⟩ := h
        exact .collect hz
      · cases h

/-- `stop` kills `m_pid`, if the queue is running. -/
theorem step_stop (h : s.step .stop = some (r, u)) : u.queue = s.queue.stopImpl ∧
    u.proc = s.proc ∧
    u.children = if s.queue.mIsRunning then s.proc.stopImpl s.children else s.children := by
  obtain ⟨o, q, hq, rfl, rfl⟩ := lift_eq_some h
  obtain ⟨-, rfl⟩ : Output.silent = o ∧ _ = q := by simpa [SQLiteQueue.step] using hq
  exact ⟨rfl, rfl, rfl⟩

/-- The queue's part of a step, under a restriction that its actions meet. -/
theorem HostStep.queue {ok : SQLiteQueue → Action → Prop} (h : HostStep s a r u)
    (hok : ∀ e ∈ r.events, ok s.queue e.1) :
    Run SQLiteQueue.step ok s.queue r.events u.queue := by
  cases h with
  | quiet _ hq | start _ hq | isRunning _ hq | fin _ hq =>
      exact .single (hok _ (List.mem_singleton.mpr rfl)) hq
  | terminate | fork | collect => exact .nil

theorem HostStep.oneWorker (h : HostStep s a r u) (hok : OneWorker s a) :
    ∀ e ∈ r.events, s.queue.OneWorker e.1 := by
  intro e he
  cases h with
  | quiet hqa =>
      obtain rfl := List.mem_singleton.mp he
      exact quietPart_oneWorker hqa hok
  | start | isRunning | fin =>
      obtain rfl := List.mem_singleton.mp he
      exact fun h => nomatch h
  | terminate | fork | collect => cases he

/-- **Refinement.** A run of the composition is a run of the queue. -/
theorem run_queue (h : Run step OneWorker fresh es s) :
    Run SQLiteQueue.step SQLiteQueue.OneWorker SQLiteQueue.fresh
      (es.flatMap fun e => e.2.events) s.queue :=
  h.map (fun s => s.queue) _ fun _ _ _ _ _ _ hok hs =>
    (HostStep.of_step hs).queue ((HostStep.of_step hs).oneWorker hok)

/-- Without the discipline too. -/
theorem run_queue_any (h : Run step anyAction fresh es s) :
    Run SQLiteQueue.step anyAction SQLiteQueue.fresh (es.flatMap fun e => e.2.events) s.queue :=
  h.map (fun s => s.queue) _ fun _ _ _ _ _ _ _ hs => (HostStep.of_step hs).queue fun _ _ => trivial

/-! ### Custody of the child -/

/-- `LinuxProc::isRunning` on a child that exists. -/
theorem isRunning_of_get {p : LinuxProc} {k : Children} {st : ChildState} (pick : Int)
    (h : k.get p.mPid = some st) :
    p.isRunning pick k = match st with
      | .live => (true, p, k)
      | .zombie w => (false,
          (if wIfExited w || wIfSignaled w then { p with mExitCode := w } else p).epollFin,
          k.set p.mPid .collected)
      | .collected => (false, p.epollFin, k) := by
  cases st with
  | live => simp [LinuxProc.isRunning, Children.waitpid_live h]
  | zombie w =>
      have hpos := Children.get_pos h
      have h₁ : p.mPid ≠ -1 := by omega
      have h₂ : p.mPid ≠ 0 := by omega
      simp only [LinuxProc.isRunning, Children.waitpid_zombie h, h₁, h₂, if_false]
      split <;> rfl
  | collected => simp [LinuxProc.isRunning, Children.waitpid_collected h]

/-- What `LinuxProc::start` does behind its `isRunning`, which answered `b` and left `p` and `k`. -/
inductive StartStep (env : StartEnv) (b : Bool) (p : LinuxProc) (k : Children) :
    Nat → LinuxProc → Children → Prop
  | refused (h : b = true ∨ env.isAdmin = true) : StartStep env b p k 1 p k
  | noFork (hb : b = false) (hadmin : env.isAdmin = false) (hfork : env.forkpty = none) :
      StartStep env b p k 1 { p with mMasterFD := -1, mExitCode := 0, mPid := -1 } k
  /-- A call behind `forkpty` fails; the child is killed. -/
  | killed {p' : LinuxProc} (hb : b = false) (hadmin : env.isAdmin = false)
      (hpid : p'.mPid = k.fork.1) : StartStep env b p k 1 p' (k.fork.2.kill k.fork.1)
  | started {fd epollFd : Int} (hb : b = false) (hadmin : env.isAdmin = false)
      (hfork : env.forkpty = some fd) (hepoll : env.epollCreate = some epollFd) :
      StartStep env b p k 0 ⟨k.fork.1, fd, 0, epollFd⟩ k.fork.2

theorem StartStep.of_start {p p' : LinuxProc} {k k' : Children} {env : StartEnv} {rc : Nat}
    (h : p.start env k = (rc, p', k')) :
    ∃ b p₁ k₁, p.isRunning env.pick k = (b, p₁, k₁) ∧ StartStep env b p₁ k₁ rc p' k' := by
  obtain ⟨b, p₁, k₁, hrun⟩ : ∃ b p₁ k₁, p.isRunning env.pick k = (b, p₁, k₁) := ⟨_, _, _, rfl⟩
  refine ⟨b, p₁, k₁, hrun, ?_⟩
  simp only [LinuxProc.start, hrun] at h
  cases b with
  | true =>
      cases h
      exact .refused (.inl rfl)
  | false =>
      cases hadmin : env.isAdmin with
      | true =>
          simp only [hadmin, Bool.false_eq_true, if_false, if_true] at h
          cases h
          exact .refused (.inr hadmin)
      | false =>
          simp only [hadmin, Bool.false_eq_true, if_false] at h
          cases hfork : env.forkpty with
          | none =>
              simp only [hfork] at h
              cases h
              exact .noFork rfl hadmin hfork
          | some fd =>
              simp only [hfork] at h
              split at h
              · cases h
                exact .killed rfl hadmin rfl
              · split at h
                · cases h
                  exact .killed rfl hadmin rfl
                · cases hepoll : env.epollCreate with
                  | none =>
                      simp only [LinuxProc.epollInit, hepoll] at h
                      cases h
                      exact .killed rfl hadmin rfl
                  | some epollFd =>
                      simp only [LinuxProc.epollInit, hepoll] at h
                      cases hctl : env.epollCtlOk with
                      | false =>
                          simp only [hctl] at h
                          cases h
                          exact .killed rfl hadmin rfl
                      | true =>
                          simp only [hctl] at h
                          cases h
                          exact .started rfl hadmin hfork hepoll

/-- A `LinuxProc::start` that returns 0 created a child, reset `m_exitCode` and has both
descriptors from the system. -/
theorem start_eq_zero {p p' : LinuxProc} {k k' : Children} {env : StartEnv}
    (h : p.start env k = (0, p', k')) :
    p'.mExitCode = 0 ∧ k'.get p'.mPid = some .live ∧ env.forkpty = some p'.mMasterFD ∧
      env.epollCreate = some p'.mEpollFd := by
  obtain ⟨b, p₁, k₁, -, hstep⟩ := StartStep.of_start h
  cases hstep with
  | started _ _ hfork hepoll => exact ⟨rfl, k₁.get_fork_new, hfork, hepoll⟩

/-- The terminations of the child `pid` in a history. -/
def terminations (pid : Int) (es : List HostEvent) : List Termination :=
  es.filterMap fun e => match e.1 with
    | .terminate p t => if p = pid then some t else none
    | _ => none

@[simp] theorem terminations_snoc_self {pid : Int} {t : Termination} :
    terminations pid (es ++ [(.terminate pid t, r)]) = terminations pid es ++ [t] := by
  simp [terminations]

theorem terminations_snoc {pid : Int} {e : HostEvent} (he : ∀ t, e.1 ≠ .terminate pid t) :
    terminations pid (es ++ [e]) = terminations pid es := by
  obtain ⟨a, r⟩ := e
  cases a with
  | terminate p t =>
      have hp : p ≠ pid := fun hp => he t (hp ▸ rfl)
      simp [terminations, hp]
  | client | stop | go | init | start | isRunning | fin | fork | collect => simp [terminations]

/-- `m_pid` is the child `pid`, created at the beginning of `since`. -/
inductive Custody (pid : Int) (since : List HostEvent) (p : LinuxProc) (k : Children) : Prop
  | live (hpid : p.mPid = pid) (hcode : p.mExitCode = 0) (hterm : terminations pid since = [])
      (hget : k.get pid = some .live)
  | zombie {t : Termination} (hpid : p.mPid = pid) (hcode : p.mExitCode = 0)
      (hterm : terminations pid since = [t]) (hget : k.get pid = some (.zombie t.status))
  | collected {t : Termination} (hpid : p.mPid = pid) (hcode : p.mExitCode = t.status)
      (hterm : terminations pid since = [t]) (hget : k.get pid = some .collected)
  /-- Another part of the server collected the status word. -/
  | stolen {t : Termination} (hpid : p.mPid = pid) (hcode : p.mExitCode = 0)
      (hterm : terminations pid since = [t]) (hget : k.get pid = some .collected)
      (hcol : (HostAction.collect pid, Report.system) ∈ since)

variable {pid : Int} {since since' : List HostEvent} {p p' : LinuxProc} {k k' : Children}

/-- Further events that are not a termination of the child change nothing. -/
theorem Custody.mono (h : Custody pid since p k) {e : HostEvent}
    (he : ∀ t, e.1 ≠ .terminate pid t) : Custody pid (since ++ [e]) p k := by
  have hsnoc : terminations pid (since ++ [e]) = terminations pid since := terminations_snoc he
  cases h with
  | live hpid hcode hterm hget => exact .live hpid hcode (hsnoc.trans hterm) hget
  | zombie hpid hcode hterm hget => exact .zombie hpid hcode (hsnoc.trans hterm) hget
  | collected hpid hcode hterm hget => exact .collected hpid hcode (hsnoc.trans hterm) hget
  | stolen hpid hcode hterm hget hcol =>
      exact .stolen hpid hcode (hsnoc.trans hterm) hget (List.mem_append_left _ hcol)

/-- Only the state of this one child matters. -/
theorem Custody.congr (h : Custody pid since p k) (hget : k'.get pid = k.get pid) :
    Custody pid since p k' := by
  cases h with
  | live hpid hcode hterm hg => exact .live hpid hcode hterm (hget.trans hg)
  | zombie hpid hcode hterm hg => exact .zombie hpid hcode hterm (hget.trans hg)
  | collected hpid hcode hterm hg => exact .collected hpid hcode hterm (hget.trans hg)
  | stolen hpid hcode hterm hg hcol => exact .stolen hpid hcode hterm (hget.trans hg) hcol

theorem Custody.get (h : Custody pid since p k) : ∃ st, k.get pid = some st := by
  cases h with
  | live _ _ _ hg | zombie _ _ _ hg | collected _ _ _ hg | stolen _ _ _ hg => exact ⟨_, hg⟩

/-- What an ended child leaves in `m_exitCode`: its status word, or 0 if it was collected by
another part of the server. -/
def Recorded (pid : Int) (since : List HostEvent) (w : Int) : Prop :=
  ∃ t, terminations pid since = [t] ∧
    (w = t.status ∨ w = 0 ∧ (HostAction.collect pid, Report.system) ∈ since)

/-- `isRunning` keeps custody, and says whether the child lives. -/
theorem Custody.isRunning (h : Custody pid since p k) {pick : Int} {b : Bool}
    (hb : p.isRunning pick k = (b, p', k')) :
    Custody pid since p' k' ∧ (b = true ↔ k.get pid = some .live) ∧
      (b = false → Recorded pid since p'.mExitCode) := by
  cases h with
  | live hpid hcode hterm hget =>
      subst hpid
      rw [isRunning_of_get pick hget] at hb
      cases hb
      exact ⟨.live rfl hcode hterm hget, by simp [hget], nofun⟩
  | zombie hpid hcode hterm hget =>
      subst hpid
      rw [isRunning_of_get pick hget] at hb
      simp only [wIf_status, if_true] at hb
      cases hb
      exact ⟨.collected rfl rfl hterm (Children.get_set_self hget _), by simp [hget],
        fun _ => ⟨_, hterm, .inl rfl⟩⟩
  | collected hpid hcode hterm hget =>
      subst hpid
      rw [isRunning_of_get pick hget] at hb
      cases hb
      exact ⟨.collected rfl hcode hterm hget, by simp [hget], fun _ => ⟨_, hterm, .inl hcode⟩⟩
  | stolen hpid hcode hterm hget hcol =>
      subst hpid
      rw [isRunning_of_get pick hget] at hb
      cases hb
      exact ⟨.stolen rfl hcode hterm hget hcol, by simp [hget],
        fun _ => ⟨_, hterm, .inr ⟨hcode, hcol⟩⟩⟩

/-- `exitCode` keeps custody. What it returns was left by the ended child. -/
theorem Custody.exitCode (h : Custody pid since p k) {pick : Int} {n : Option Int}
    (hn : p.exitCode pick k = (n, p', k')) :
    Custody pid since p' k' ∧ ∀ w, n = some w → Recorded pid since w := by
  rcases hrun : p.isRunning pick k with ⟨b, p₁, k₁⟩
  obtain ⟨hcust, -, hrec⟩ := h.isRunning hrun
  simp only [LinuxProc.exitCode, hrun] at hn
  cases b with
  | true =>
      cases hn
      exact ⟨hcust, nofun⟩
  | false =>
      cases hn
      exact ⟨hcust, fun w hw => Option.some.inj hw ▸ hrec rfl⟩

/-! ### The last start -/

/-- `LinuxProc::start` was called for the task the thread executes. -/
def Pc.Launched : Pc → Bool
  | .poll | .fin | .finFailed => true
  | _ => false

/-- Some thread executes a task for which `LinuxProc::start` was called. -/
def Launched (ts : List Pc) : Prop := ∃ p ∈ ts, Pc.Launched p = true

theorem Pc.executing_of_launched {p : Pc} (h : Pc.Launched p = true) : p.Executing = true := by
  cases p <;> first | rfl | cases h

/-- A step of a single worker after which its task is launched: the task was launched before,
or this step called `LinuxProc::start`. -/
theorem launched_step {q q' : SQLiteQueue} {qa : Action} {o : Output} (hq : Single q.threads)
    (h : q.step qa = some (o, q')) (hstart : ∀ i ok, qa ≠ .worker i (.start ok))
    (hl : Launched q'.threads) : Launched q.threads ∧ q'.mCurrentTask = q.mCurrentTask := by
  by_cases hw : ∃ i w, qa = .worker i w
  · obtain ⟨i, w, rfl⟩ := hw
    obtain ⟨pc, pc', q₁, hpc, hstep, rfl⟩ := step_worker h
    obtain ⟨p, hp, hpl⟩ := hl
    obtain ⟨j, hj⟩ := List.mem_iff_getElem?.mp hp
    by_cases hij : i = j
    · subst hij
      obtain rfl : pc' = p := by simpa [List.getElem?_set_self', hpc] using hj
      -- of the remaining steps of the thread only a poll leads to such a place
      cases hstep with
      | poll running => exact ⟨⟨_, List.mem_of_getElem? hpc, rfl⟩, rfl⟩
      | startProcess ok => exact absurd rfl (hstart i ok)
      | test => cases hm : q.mStart <;> simp [Pc.Launched, hm] at hpl
      | init env =>
          rcases q.runInit_cases env with ⟨-, hr⟩ | ⟨t, -, hr⟩ | ⟨-, hr⟩ <;>
            simp [Pc.Launched, hr] at hpl
      | fin | finFailed | clearStart | clearRunning => cases hpl
    · -- the launched thread is the one in the loop, so the other one is leaving
      rw [List.getElem?_set_ne hij] at hj
      have hjl := SQLiteQueue.Pc.inLoop_of_executing (Pc.executing_of_launched hpl)
      have hout : pc.InLoop = false := by
        rw [Bool.eq_false_iff]
        exact fun hin => hij (hq i j pc p hpc hj hin hjl)
      cases hstep with
      | clearRunning => exact ⟨⟨p, List.mem_of_getElem? hj, hpl⟩, rfl⟩
      | test | init | startProcess | poll | fin | finFailed | clearStart => cases hout
  · have hcur := step_client_currentTask h fun i w he => hw ⟨i, w, he⟩
    by_cases hs : qa = .start
    · subst hs
      simp only [SQLiteQueue.step, Option.some.injEq, Prod.mk.injEq] at h
      obtain ⟨-, rfl⟩ := h
      refine ⟨?_, hcur⟩
      unfold SQLiteQueue.start at hl
      split at hl
      · exact hl
      · obtain ⟨p, hp, hpl⟩ := hl
        rcases List.mem_append.mp hp with hp | hp
        · exact ⟨p, hp, hpl⟩
        · rw [List.mem_singleton.mp hp] at hpl
          cases hpl
    · rw [step_client_threads h (fun i w he => hw ⟨i, w, he⟩) hs] at hl
      exact ⟨hl, hcur⟩

/-- A call of `LinuxProc::start`, and what happened since. -/
structure Launch where
  task : Task
  rc : Nat
  pid : Int
  since : List HostEvent

/-- The last call of `LinuxProc::start` in a history. -/
def lastLaunch (es : List HostEvent) : Option Launch :=
  es.foldl (fun last e => match e.2 with
    | .started _ t rc pid => some ⟨t, rc, pid, []⟩
    | _ => last.map fun l => { l with since := l.since ++ [e] }) none

theorem lastLaunch_started {e : Action × Output} {t : Task} {rc : Nat} {pid : Int} :
    lastLaunch (es ++ [(a, .started e t rc pid)]) = some ⟨t, rc, pid, []⟩ := by
  rw [lastLaunch, List.foldl_append]
  rfl

theorem lastLaunch_other (hr : ∀ e t rc pid, r ≠ .started e t rc pid) :
    lastLaunch (es ++ [(a, r)]) =
      (lastLaunch es).map fun l => { l with since := l.since ++ [(a, r)] } := by
  rw [lastLaunch, List.foldl_append]
  cases r with
  | started e t rc pid => exact absurd rfl (hr e t rc pid)
  | queue | finished | system => rfl

/-- What is known while a launched task is executed: it is the task of the last
`LinuxProc::start`, and if that succeeded its child is in custody. -/
def Attended (es : List HostEvent) (s : LinuxQueue) : Prop :=
  Launched s.queue.threads → ∃ l, lastLaunch es = some l ∧ l.task = s.queue.mCurrentTask ∧
    (l.rc = 0 → Custody l.pid l.since s.proc s.children)

/-- A step that is not a start keeps the attendance if it keeps custody. -/
theorem Attended.keep (h : Attended es s) (hr : ∀ e t rc pid, r ≠ .started e t rc pid)
    (hl : Launched u.queue.threads →
      Launched s.queue.threads ∧ u.queue.mCurrentTask = s.queue.mCurrentTask)
    (hc : ∀ pid since, Custody pid since s.proc s.children →
      Custody pid (since ++ [(a, r)]) u.proc u.children) : Attended (es ++ [(a, r)]) u := by
  intro hlu
  obtain ⟨hls, hcur⟩ := hl hlu
  obtain ⟨l, hlast, htask, hcust⟩ := h hls
  refine ⟨{ l with since := l.since ++ [(a, r)] }, ?_, htask.trans hcur.symm, fun hrc => ?_⟩
  · rw [lastLaunch_other hr, hlast]
    rfl
  · exact hc _ _ (hcust hrc)

/-- **Step lemma.** -/
theorem HostStep.attended (h : HostStep s a r u) (hs : Single s.queue.threads)
    (hatt : Attended es s) : Attended (es ++ [(a, r)]) u := by
  cases h with
  | quiet hqa hq hk =>
      refine hatt.keep (fun _ _ _ _ => nofun) (launched_step hs hq (quietPart_ne hqa).1)
        fun pid since hc => ?_
      refine (hc.congr (Children.get_congr hk pid)).mono ?_
      intro t hb
      subst hb
      cases hqa
  | @start i env rc p k o q hrc hq =>
      intro _
      obtain ⟨pc, pc', q₁, hpc, hstep, rfl⟩ := step_worker hq
      refine ⟨_, lastLaunch_started, ?_, fun hrc0 => ?_⟩
      · cases hstep with
        | startProcess => rfl
      · obtain rfl : rc = 0 := hrc0
        obtain ⟨hcode, hget, -⟩ := start_eq_zero hrc
        exact .live rfl hcode rfl hget
  | isRunning hb hq =>
      refine hatt.keep (fun _ _ _ _ => nofun) (launched_step hs hq fun _ _ => nofun)
        fun pid since hc => ?_
      exact (hc.isRunning hb).1.mono fun _ => nofun
  | fin hn hq =>
      refine hatt.keep (fun _ _ _ _ => nofun) (launched_step hs hq fun _ _ => nofun)
        fun pid since hc => ?_
      exact (hc.exitCode hn).1.mono fun _ => nofun
  | @terminate pid t hlive =>
      refine hatt.keep (fun _ _ _ _ => nofun) (fun h => ⟨h, rfl⟩) fun pid' since hc => ?_
      by_cases hpid : pid = pid'
      · subst hpid
        cases hc with
        | live hpid hcode hterm hget =>
            refine .zombie hpid hcode ?_ (Children.get_set_self hget _)
            rw [terminations_snoc_self, hterm]
            rfl
        | zombie _ _ _ hget | collected _ _ _ hget | stolen _ _ _ hget =>
            rw [hlive] at hget
            cases hget
      · refine (hc.congr (Children.get_set_ne (Children.get_pos hlive) hpid _)).mono fun t he => ?_
        exact hpid (HostAction.terminate.inj he).1
  | fork =>
      refine hatt.keep (fun _ _ _ _ => nofun) (fun h => ⟨h, rfl⟩) fun pid' since hc => ?_
      obtain ⟨st, hst⟩ := hc.get
      exact (hc.congr ((Children.get_fork hst).trans hst.symm)).mono fun _ => nofun
  | @collect pid w hz =>
      refine hatt.keep (fun _ _ _ _ => nofun) (fun h => ⟨h, rfl⟩) fun pid' since hc => ?_
      by_cases hpid : pid = pid'
      · subst hpid
        have hin : (HostAction.collect pid, Report.system) ∈
            since ++ [(HostAction.collect pid, Report.system)] := by simp
        cases hc.mono (e := (HostAction.collect pid, Report.system)) fun _ => nofun with
        | zombie hpid hcode hterm hget =>
            exact .stolen hpid hcode hterm (Children.get_set_self hget _) hin
        | live _ _ _ hget | collected _ _ _ hget | stolen _ _ _ hget =>
            rw [hz] at hget
            cases hget
      · exact (hc.congr (Children.get_set_ne (Children.get_pos hz) hpid _)).mono fun _ => nofun

/-- **Run lemma.** Whenever a launched task is executed, its last start is known and its child
in custody. -/
theorem run_attended (h : Run step OneWorker fresh es s) : Attended es s := by
  induction h with
  | nil =>
      intro hl
      obtain ⟨p, hp, -⟩ := hl
      cases hp
  | snoc h _ hs ih =>
      have hsingle := run_single (run_queue h) single_fresh
      exact (HostStep.of_step hs).attended hsingle ih

/-- A `mainLoopFin` of a run: the abstract states around it, and what is known of the start
and of the child of its task. -/
theorem run_fin {i : Nat} {env : Env} {pick : Int} {es' : List HostEvent}
    (h : Run step OneWorker fresh (es ++ (.fin i env pick, r) :: es') s) :
    ∃ s₁ s₂ t n res l L L', Run step OneWorker fresh es s₁ ∧ r.outcome = some (t, n, res) ∧
      lastLaunch es = some l ∧ l.task = t ∧
      s₁.proc.exitCode pick s₁.children = (n, s₂.proc, s₂.children) ∧
      (l.rc = 0 → ∀ w, n = some w → Recorded l.pid l.since w) ∧
      Tracked (es.flatMap fun e => e.2.events) s₁.queue L (some t) ∧
      Effect L (some t) (.worker i (.fin env n)) (.finished t res) L' none ∧
      Refines s₂.queue L' none ∧ Run step OneWorker s₂ es' s := by
  obtain ⟨s₁, s₂, h₁, hok, hs, h₂⟩ := h.at_step
  obtain ⟨L, fl, htr⟩ := run_tracked (run_queue h₁)
  cases HostStep.of_step hs with
  | quiet hqa => cases hqa
  | @fin _ _ _ n p k o q hn hq =>
      obtain ⟨L', fl', href, heff⟩ :=
        step_refines htr.refines htr.isInt32_next (fun h => by cases h) hq
      obtain ⟨t, res, rfl, rfl, rfl⟩ : ∃ t res, fl = some t ∧ o = .finished t res ∧ fl' = none := by
        cases heff with
        | noExitCode hfl | notMoved hfl | copied hfl | dropped hfl | moved hfl =>
            exact ⟨_, _, hfl, rfl, rfl⟩
      have hcur : s₁.queue.mCurrentTask = t := htr.refines.current
      have hlaunched : Launched s₁.queue.threads := by
        obtain ⟨pc, pc', q', hpc, hstep, -⟩ := step_worker hq
        cases hstep with
        | fin | finFailed => exact ⟨_, List.mem_of_getElem? hpc, rfl⟩
      obtain ⟨l, hlast, htask, hcust⟩ := run_attended h₁ hlaunched
      refine ⟨s₁, _, t, n, res, l, L, L', h₁, ?_, hlast, htask.trans hcur, hn, fun hrc => ?_, htr,
        heff, href, h₂⟩
      · rw [hcur]
        rfl
      · exact ((hcust hrc).exitCode hn).2

/-- The queue is stopped while its process runs. -/
def stopRunning : List HostAction :=
  [.client (.addTask .rowid listing), .client .start, .go 0, .init 0 .rowid, .start 0 .ok]

theorem stopRunning_runs : (script LinuxQueue.step anyAction fresh stopRunning).isSome = true := by
  decide +kernel

theorem stopRunning_stop : (((script LinuxQueue.step anyAction fresh stopRunning).get
    stopRunning_runs).2.step .stop).isSome = true := by
  decide +kernel

end LinuxQueue

end SimpleTaskQueue
