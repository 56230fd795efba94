import SimpleTaskQueue.Refinement.LinuxQueue
/-!
# SimpleTaskQueue.Properties.Kill

**Whom does `stop` kill?** `LinuxProc::stopImpl` passes `m_pid` to `kill`, whatever it is: 0 before
the first process, -1 after a failed `forkpty`, and between two tasks the pid of a child that has
been reaped.

What the last calls on `LinuxProc` left in its hands is read off the history (`hold`): nothing, a
child that lives, or one that has terminated and was not reaped. In every interleaving `stop` kills
a child of this `LinuxProc` exactly if it does not kill at all or the hands are not empty.
-/

namespace SimpleTaskQueue

open Sqlite Processes Runs

namespace LinuxQueue

variable {s u : LinuxQueue} {a : HostAction} {r : Report} {es : List HostEvent} {pid : Int}

/-- A child that `LinuxProc` forked and nobody has reaped. -/
inductive Hold
  | none
  | live (pid : Int)
  | ended (pid : Int)
  deriving Repr, DecidableEq

/-- A child that has terminated is reaped. -/
def Hold.reap : Hold → Hold
  | ended _ => none
  | h => h

/-- What an event does to it. `isRunning`, `exitCode` and `start` reap a child that has terminated;
`start` forks a new one unless the old one lives, or the system refuses. -/
def Hold.step (h : Hold) : HostEvent → Hold
  | (.terminate pid _, _) => if h = .live pid then .ended pid else h
  | (.collect pid, _) => if h = .ended pid then .none else h
  | (.isRunning _ _, _) | (.fin _ _ _, _) => h.reap
  | (.start _ env, .started _ _ _ pid) =>
    match h with
    | .live pid => .live pid
    | _ => if env.isAdmin ∨ pid ≤ 0 then .none else .live pid
  | _ => h

/-- What is held after a history. -/
def hold (es : List HostEvent) : Hold := es.foldl Hold.step .none

theorem hold_snoc : hold (es ++ [(a, r)]) = (hold es).step (a, r) := by
  rw [hold, List.foldl_append]
  rfl

/-- The child came into being in a `LinuxProc::start` of the history. -/
def Forked (es : List HostEvent) (pid : Int) : Prop :=
  ∃ es₁ es₂ i env r s₁ s₂, es = es₁ ++ (.start i env, r) :: es₂ ∧
    Run LinuxQueue.step anyAction fresh es₁ s₁ ∧ s₁.step (.start i env) = some (r, s₂) ∧
    s₁.children.get pid = none ∧ s₂.children.get pid = some .live

theorem Forked.mono (h : Forked es pid) (e : HostEvent) : Forked (es ++ [e]) pid := by
  obtain ⟨es₁, es₂, i, env, r, s₁, s₂, rfl, hrest⟩ := h
  exact ⟨es₁, es₂ ++ [e], i, env, r, s₁, s₂, by simp, hrest⟩

/-- A child of this `LinuxProc` that has not been reaped. -/
structure Own (es : List HostEvent) (s : LinuxQueue) (pid : Int) : Prop where
  pos : 0 < pid
  forked : Forked es pid
  unreaped : ∃ st, s.children.get pid = some st ∧ st ≠ .collected

/-- No child belongs to `m_pid`. -/
def Vacant (p : LinuxProc) (k : Children) : Prop :=
  p.mPid = 0 ∨ p.mPid = -1 ∨ k.get p.mPid = some .collected

/-- `m_pid` and the children agree with what is held. -/
def Held (es : List HostEvent) (s : LinuxQueue) : Hold → Prop
  | .live pid => s.proc.mPid = pid ∧ s.children.get pid = some .live ∧ Forked es pid
  | .ended pid => s.proc.mPid = pid ∧ (∃ w, s.children.get pid = some (.zombie w)) ∧ Forked es pid
  | .none => Vacant s.proc s.children

/-! ### The functions of `LinuxProc` -/

section LinuxProc

variable {p p' : LinuxProc} {k k' : Children} {b : Bool} {pick : Int}

/-- What `isRunning` never touches. -/
theorem isRunning_frame (hb : p.isRunning pick k = (b, p', k')) :
    p'.mPid = p.mPid ∧ k'.table.length = k.table.length := by
  have hlength : (k.waitpid p.mPid pick).2.2.table.length = k.table.length := by
    simp only [Children.waitpid]
    split
    · exact List.length_set
    · rfl
    · split <;> rfl
  rcases hw : k.waitpid p.mPid pick with ⟨ret, status, k₁⟩
  rw [hw] at hlength
  simp only [LinuxProc.isRunning, hw] at hb
  split at hb
  · cases hb
    exact ⟨rfl, hlength⟩
  · split at hb
    · cases hb
      exact ⟨rfl, hlength⟩
    · split at hb <;> cases hb <;> exact ⟨rfl, hlength⟩

theorem Vacant.isRunning (h : Vacant p k) (hb : p.isRunning pick k = (b, p', k')) :
    Vacant p' k' ∧ (b = true → p'.mPid ≤ 0) := by
  have hpid := (isRunning_frame hb).1
  rcases h with h | h | h
  · exact ⟨.inl (hpid.trans h), fun _ => by omega⟩
  · exact ⟨.inr (.inl (hpid.trans h)), fun _ => by omega⟩
  · rw [isRunning_of_get pick h] at hb
    cases hb
    exact ⟨.inr (.inr h), nofun⟩

/-- `exitCode` leaves behind what `isRunning` leaves behind. -/
theorem exitCode_isRunning {n : Option Int} (hn : p.exitCode pick k = (n, p', k')) :
    ∃ b, p.isRunning pick k = (b, p', k') := by
  rcases hb : p.isRunning pick k with ⟨b, p₁, k₁⟩
  simp only [LinuxProc.exitCode, hb] at hn
  cases b <;> cases hn <;> exact ⟨_, rfl⟩

end LinuxProc

/-! ### Steps and runs -/

theorem Held.congr {h : Hold} {e : HostEvent} (hheld : Held es s h) (hproc : u.proc = s.proc)
    (hget : ∀ pid st, s.children.get pid = some st → u.children.get pid = some st) :
    Held (es ++ [e]) u h := by
  cases h with
  | none =>
      show Vacant u.proc u.children
      rw [hproc]
      exact hheld.imp_right fun h => h.imp_right (hget _ _)
  | live pid =>
      obtain ⟨hpid, hlive, hforked⟩ := hheld
      exact ⟨hproc ▸ hpid, hget _ _ hlive, hforked.mono e⟩
  | ended pid =>
      obtain ⟨hpid, ⟨w, hw⟩, hforked⟩ := hheld
      exact ⟨hproc ▸ hpid, ⟨w, hget _ _ hw⟩, hforked.mono e⟩

/-- `isRunning` reaps the child if it has ended. -/
theorem Held.isRunning {h : Hold} {p : LinuxProc} {k : Children} {b : Bool} {pick : Int}
    {q : SQLiteQueue} {e : HostEvent} (hheld : Held es s h)
    (hb : s.proc.isRunning pick s.children = (b, p, k)) :
    Held (es ++ [e]) ⟨q, p, k⟩ h.reap := by
  cases h with
  | none => exact (Vacant.isRunning hheld hb).1
  | live pid =>
      obtain ⟨rfl, hlive, hforked⟩ := hheld
      rw [isRunning_of_get pick hlive] at hb
      cases hb
      exact ⟨rfl, hlive, hforked.mono e⟩
  | ended pid =>
      obtain ⟨rfl, ⟨w, hw⟩, -⟩ := hheld
      have hpid := (isRunning_frame hb).1
      rw [isRunning_of_get pick hw] at hb
      cases hb
      refine .inr (.inr ?_)
      rw [hpid]
      exact Children.get_set_self hw _

/-- Something happens to a child other than the one held. -/
theorem Held.other {h : Hold} {e : HostEvent} {st st' : ChildState} (hheld : Held es s h)
    (hget : s.children.get pid = some st) (hst : st ≠ .collected)
    (hh : st = .live → h ≠ .live pid) (hh' : ∀ w, st = .zombie w → h ≠ .ended pid) :
    Held (es ++ [e]) { s with children := s.children.set pid st' } h := by
  have hother : ∀ pid' st₁, pid ≠ pid' → s.children.get pid' = some st₁ →
      (s.children.set pid st').get pid' = some st₁ := fun pid' st₁ hne hget' =>
    (Children.get_set_ne (Children.get_pos hget) hne _).trans hget'
  cases h with
  | none =>
      refine hheld.imp_right fun h => h.imp_right fun hcol => hother _ _ ?_ hcol
      intro hpid
      rw [← hpid, hget] at hcol
      exact hst (Option.some.inj hcol)
  | live pid' =>
      obtain ⟨hpid', hlive, hforked⟩ := hheld
      refine ⟨hpid', hother _ _ ?_ hlive, hforked.mono _⟩
      rintro rfl
      exact hh (Option.some.inj (hget.symm.trans hlive)) rfl
  | ended pid' =>
      obtain ⟨hpid', ⟨w, hw⟩, hforked⟩ := hheld
      refine ⟨hpid', ⟨w, hother _ _ ?_ hw⟩, hforked.mono _⟩
      rintro rfl
      exact hh' w (Option.some.inj (hget.symm.trans hw)) rfl

/-- A pid is new when it is given out. -/
theorem get_of_length_lt {k : Children} (h : (k.table.length : Int) < pid) : k.get pid = none := by
  unfold Children.get
  split
  · exact List.getElem?_eq_none (by omega)
  · rfl

/-- A new child is held. -/
theorem held_forked {i : Nat} {env : StartEnv} {p : LinuxProc} {k k₁ : Children} {q : SQLiteQueue}
    (hrun : Run LinuxQueue.step anyAction fresh es s)
    (hs : s.step (.start i env) = some (r, ⟨q, p, k⟩))
    (hlength : k₁.table.length = s.children.table.length) (hpid : p.mPid = k₁.fork.1)
    (hk : k.table = k₁.fork.2.table) :
    Held (es ++ [(.start i env, r)]) ⟨q, p, k⟩ (.live p.mPid) := by
  have hlive : k.get p.mPid = some .live := by
    rw [Children.get_congr hk, hpid]
    exact k₁.get_fork_new
  refine ⟨rfl, hlive, es, [], i, env, r, s, _, rfl, hrun, hs, get_of_length_lt ?_, hlive⟩
  have hnew : k₁.fork.1 = k₁.table.length + 1 := rfl
  rw [hpid, hnew, hlength]
  omega

/-- **Step lemma**, for `start`. -/
theorem held_start {h : Hold} {i : Nat} {env : StartEnv} {rc : Nat} {p : LinuxProc} {k : Children}
    {q : SQLiteQueue} {e : Action × Output} {t : Task}
    (hrun : Run LinuxQueue.step anyAction fresh es s)
    (hs : s.step (.start i env) = some (.started e t rc p.mPid, ⟨q, p, k⟩))
    (hheld : Held es s h) (hrc : s.proc.start env s.children = (rc, p, k)) :
    Held (es ++ [(.start i env, .started e t rc p.mPid)]) ⟨q, p, k⟩
      (h.step (.start i env, .started e t rc p.mPid)) := by
  obtain ⟨b, p₁, k₁, hb, hcase⟩ := StartStep.of_start hrc
  have hlength := (isRunning_frame hb).2
  have hheld₁ := hheld.isRunning (q := q) (e := (.start i env, .started e t rc p.mPid)) hb
  -- nothing or an ended child was held: then nothing is held behind `isRunning`
  have hvacant : Vacant p₁ k₁ → (b = true → p₁.mPid ≤ 0) →
      Held (es ++ [(.start i env, .started e t rc p.mPid)]) ⟨q, p, k⟩
        (if env.isAdmin = true ∨ p.mPid ≤ 0 then .none else .live p.mPid) := by
    intro hv hneg
    have hnew : k₁.fork.1 = k₁.table.length + 1 := rfl
    cases hcase with
    | refused hno =>
        rw [if_pos (hno.symm.imp_right hneg)]
        exact hv
    | noFork =>
        rw [if_pos (.inr (by simp))]
        exact .inr (.inl rfl)
    | killed _ hadmin hpid =>
        rw [if_neg (by simp [hadmin, hpid, hnew])]
        exact held_forked hrun hs hlength hpid rfl
    | started _ hadmin =>
        rw [if_neg (by simp [hadmin, hnew])]
        exact held_forked hrun hs hlength rfl rfl
  cases h with
  | live pid =>
      obtain ⟨rfl, hlive, hforked⟩ := hheld
      rw [isRunning_of_get _ hlive] at hb
      obtain ⟨rfl, rfl, rfl⟩ : true = b ∧ s.proc = p₁ ∧ s.children = k₁ := by simpa using hb
      cases hcase with
      | refused => exact ⟨rfl, hlive, hforked.mono _⟩
      | noFork hno | killed hno | started hno => cases hno
  | none => exact hvacant hheld₁ (Vacant.isRunning hheld hb).2
  | ended pid =>
      refine hvacant hheld₁ fun htrue => ?_
      obtain ⟨rfl, ⟨w, hw⟩, -⟩ := hheld
      rw [isRunning_of_get _ hw, htrue] at hb
      cases hb

/-- **Step lemma.** -/
theorem held_step (hrun : Run LinuxQueue.step anyAction fresh es s)
    (hheld : Held es s (hold es)) (hs : s.step a = some (r, u)) :
    Held (es ++ [(a, r)]) u (hold (es ++ [(a, r)])) := by
  rw [hold_snoc]
  cases HostStep.of_step hs with
  | @quiet _ qa o q k hqa hq hk =>
      have hsame : (hold es).step (a, .queue (qa, o)) = hold es := by
        cases a with
        | client | stop | go | init => rfl
        | start | isRunning | fin | terminate | fork | collect => cases hqa
      rw [hsame]
      exact hheld.congr rfl fun pid st hst => (Children.get_congr hk pid).trans hst
  | start hrc hq => exact held_start hrun hs hheld hrc
  | isRunning hb hq => exact hheld.isRunning hb
  | fin hn hq =>
      obtain ⟨b, hb⟩ := exitCode_isRunning hn
      exact hheld.isRunning hb
  | fork => exact hheld.congr rfl fun pid st => Children.get_fork
  | @terminate pid t hlive =>
      rw [Hold.step]
      split
      · next hh =>
        rw [hh] at hheld
        obtain ⟨hpid, -, hforked⟩ := hheld
        exact ⟨hpid, ⟨_, Children.get_set_self hlive _⟩, hforked.mono _⟩
      · next hh => exact hheld.other hlive nofun (fun _ => hh) fun _ => nofun
  | @collect pid w hz =>
      rw [Hold.step]
      split
      · next hh =>
        rw [hh] at hheld
        obtain ⟨hpid, -, -⟩ := hheld
        refine .inr (.inr ?_)
        rw [hpid]
        exact Children.get_set_self hz _
      · next hh => exact hheld.other hz nofun nofun fun _ _ => hh

/-- **Run lemma.** In every interleaving `m_pid` is what the history says. -/
theorem run_held (h : Run LinuxQueue.step anyAction fresh es s) : Held es s (hold es) := by
  induction h with
  | nil => exact .inl rfl
  | snoc h _ hs ih => exact held_step h ih hs

/-- **One `stop`** kills a child of this `LinuxProc`, or nobody. -/
theorem kills_own_iff (h : Run LinuxQueue.step anyAction fresh es s)
    (hs : s.step .stop = some (r, u)) :
    (∀ new, u.children.kills = new ++ s.children.kills → ∀ pid ∈ new, Own es s pid) ↔
      (s.queue.mIsRunning = true → hold es ≠ .none) := by
  have hheld := run_held h
  have hkills : u.children.kills =
      (if s.queue.mIsRunning then [s.proc.mPid] else []) ++ s.children.kills := by
    rw [(step_stop hs).2.2]
    split <;> rfl
  cases hrun : s.queue.mIsRunning with
  | false =>
      refine iff_of_true (fun new hnew pid hpid => ?_) nofun
      rw [hkills, hrun, if_neg Bool.false_ne_true] at hnew
      rw [← List.append_cancel_right hnew] at hpid
      cases hpid
  | true =>
      rw [hrun, if_pos rfl] at hkills
      constructor
      · intro hall _ hnone
        rw [hnone] at hheld
        obtain ⟨hpos, -, st, hget, hst⟩ := hall _ hkills _ (List.mem_singleton.mpr rfl)
        -- 0, -1, or reaped
        rcases hheld with hpid | hpid | hcol
        · omega
        · omega
        · rw [hcol] at hget
          exact hst (Option.some.inj hget).symm
      · intro hne new hnew pid hpid
        rw [← List.append_cancel_right (hkills.symm.trans hnew)] at hpid
        obtain rfl : pid = s.proc.mPid := List.mem_singleton.mp hpid
        cases hh : hold es with
        | none => exact absurd hh (hne rfl)
        | live pid =>
            rw [hh] at hheld
            obtain ⟨rfl, hget, hforked⟩ := hheld
            exact ⟨Children.get_pos hget, hforked, _, hget, nofun⟩
        | ended pid =>
            rw [hh] at hheld
            obtain ⟨rfl, ⟨w, hget⟩, hforked⟩ := hheld
            exact ⟨Children.get_pos hget, hforked, _, hget, nofun⟩

/-- Each `kill` that a `stop` of the history issued went to a child that this `LinuxProc` had forked
and nobody had reaped. -/
def KillsOwn (es : List HostEvent) : Prop :=
  ∀ es₁ r es₂ s u, es = es₁ ++ (.stop, r) :: es₂ → Run LinuxQueue.step anyAction fresh es₁ s →
    s.step .stop = some (r, u) →
    ∀ new, u.children.kills = new ++ s.children.kills → ∀ pid ∈ new, Own es₁ s pid

/-- **Whom `stop` kills.** In every interleaving and for every answer of the system, all the calls
of `stop` kill nobody but own children if and only if each of them finds the queue not running, or
a child held. -/
theorem stop_kills_own_iff (h : Run LinuxQueue.step anyAction fresh es s) :
    KillsOwn es ↔
      ∀ es₁ r es₂ s₁, es = es₁ ++ (.stop, r) :: es₂ →
        Run LinuxQueue.step anyAction fresh es₁ s₁ → s₁.queue.mIsRunning = true →
        hold es₁ ≠ .none := by
  constructor
  · intro hall es₁ r es₂ s₁ he h₁
    rw [he] at h
    obtain ⟨t, u, h₁', -, hs, -⟩ := h.at_step
    obtain rfl : t = s₁ := h₁'.det h₁
    exact (kills_own_iff h₁ hs).mp (hall es₁ r es₂ t u he h₁ hs)
  · intro hheld es₁ r es₂ s₁ u he h₁ hs
    exact (kills_own_iff h₁ hs).mpr (hheld es₁ r es₂ s₁ he h₁)

/-- The process of the first task runs when the queue is stopped. -/
def killRunning : List HostAction := stopRunning ++ [.stop]

theorem killRunning_runs : (script LinuxQueue.step anyAction fresh killRunning).isSome = true := by
  decide +kernel

theorem stop_kills_own_killRunning :
    ∃ es s, Run LinuxQueue.step anyAction fresh es s ∧ s.children.kills = [1] ∧
      (KillsOwn es ↔
        ∀ es₁ r es₂ s₁, es = es₁ ++ (.stop, r) :: es₂ →
          Run LinuxQueue.step anyAction fresh es₁ s₁ → s₁.queue.mIsRunning = true →
          hold es₁ ≠ .none) :=
  ⟨_, _, Run.of_script killRunning_runs, by decide +kernel,
    stop_kills_own_iff (Run.of_script killRunning_runs)⟩

/-- The queue is stopped right after it was started. -/
def stopAtOnce : List HostAction :=
  [.client (.addTask .rowid listing), .client .start, .stop]

theorem stopAtOnce_runs : (script LinuxQueue.step OneWorker fresh stopAtOnce).isSome = true := by
  decide +kernel

/-- A system in which `forkpty` fails. -/
def StartEnv.noFork : StartEnv := { StartEnv.ok with forkpty := none }

/-- The queue is stopped after `forkpty` failed, before the thread is done with the task. -/
def stopAfterNoFork : List HostAction :=
  [.client (.addTask .rowid listing), .client .start, .go 0, .init 0 .rowid,
    .start 0 StartEnv.noFork, .stop]

theorem stopAfterNoFork_runs :
    (script LinuxQueue.step OneWorker fresh stopAfterNoFork).isSome = true := by
  decide +kernel

/-- **`stop` calls `kill(0, SIGKILL)` and `kill(-1, SIGKILL)`.** -/
theorem stop_kills_strangers :
    (∃ es s, Run LinuxQueue.step OneWorker fresh es s ∧ es.length = 3 ∧
      s.children.kills = [0]) ∧
    ∃ es s, Run LinuxQueue.step OneWorker fresh es s ∧ es.length = 6 ∧
      s.children.kills = [-1] :=
  ⟨⟨_, _, Run.of_script stopAtOnce_runs, by decide +kernel, by decide +kernel⟩,
    ⟨_, _, Run.of_script stopAfterNoFork_runs, by decide +kernel, by decide +kernel⟩⟩

end LinuxQueue

end SimpleTaskQueue
