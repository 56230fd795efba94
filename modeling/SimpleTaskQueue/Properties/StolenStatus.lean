import SimpleTaskQueue.Model.Proc.LinuxServer
/-!
# SimpleTaskQueue.Properties.StolenStatus

**Do queues steal each other's exit statuses?** An object whose `m_pid` is that of its child waits
for this child only. With the value -1, which a failed `forkpty` leaves behind, a poll takes the
status of whatever child ended first; with the value 0 of a new object, that of a child that ended
before it left the process group. Nothing else goes wrong.
-/

namespace SimpleTaskQueue

open Processes Runs

namespace LinuxServer

variable {s t u : LinuxServer} {a : ServerAction} {o : ProcOutput Int}
  {es : List (ServerAction × ProcOutput Int)} {i n : Nat} {p q : LinuxProc} {k : Family}
  {child : Child} {w : Int}

/-- A status was collected by the object that created the child, and as long as that object is
about the child it reports the status. -/
def Faithful (s : LinuxServer) : Prop :=
  ∀ (n : Nat) (child : Child) w j, s.children[n]? = some child → child.fate = .collected w j →
    j = child.owner ∧
      ∀ p : LinuxProc, s.procs[j]? = some p → p.mPid = n + 1 →
        ∀ pick, (s.exitCode j p pick).1 = some w

/-- The object that a call polls. -/
def polls : ServerAction → Option Nat
  | .start i _ | .isRunning i _ | .exitCode i _ => some i
  | .new | .setsid _ | .terminate _ _ => none

/-- The step is no poll of an object whose `m_pid` is 0 or -1 while a child ended that `waitpid`
selects by this value. -/
def Safe (s : LinuxServer) (a : ServerAction) : Prop :=
  ∀ i p, polls a = some i → s.procs[i]? = some p → p.mPid ≤ 0 → ¬ s.children.AnyZombie p.mPid

/-- **The invariant.** `m_pid` is no pid or that of a child of the object; a child whose status was
not collected is the one that its object is about. -/
structure Kept (s : LinuxServer) : Prop where
  pid : ∀ (i : Nat) (p : LinuxProc), s.procs[i]? = some p → p.mPid ≤ 0 ∨
    ∃ (n : Nat) (child : Child), p.mPid = n + 1 ∧ s.children[n]? = some child ∧ child.owner = i
  held : ∀ (n : Nat) (child : Child), s.children[n]? = some child →
    (∀ w j, child.fate ≠ .collected w j) →
      ∃ p : LinuxProc, s.procs[child.owner]? = some p ∧ p.mPid = n + 1
  own : ∀ (n : Nat) (child : Child) w j, s.children[n]? = some child → child.fate = .collected w j →
    j = child.owner ∧
      ∀ p : LinuxProc, s.procs[j]? = some p → p.mPid = n + 1 → p.mExitCode = w
  word : ∀ (n : Nat) (child : Child) w, s.children[n]? = some child → child.fate = .zombie w →
    (wIfExited w || wIfSignaled w) = true

/-- No child of the object `i` waits for its status to be collected. -/
def Free (i : Nat) (k : Family) : Prop :=
  ∀ (n : Nat) (child : Child), k[n]? = some child → child.owner = i →
    ∃ w j, child.fate = .collected w j

theorem Free.ne_owner (hfree : Free i k) (hget : k[n]? = some child)
    (hfate : ∀ w j, child.fate ≠ .collected w j) : i ≠ child.owner := by
  rintro rfl
  obtain ⟨w, j, hcol⟩ := hfree n child hget rfl
  exact hfate w j hcol

/-! ### What happens to one object -/

/-- The object keeps its child and its exit code. -/
theorem Kept.set_proc (h : Kept s) (hp : s.procs[i]? = some p) (hpid : q.mPid = p.mPid)
    (hcode : q.mExitCode = p.mExitCode) : Kept ⟨s.procs.set i q, s.children⟩ := by
  refine ⟨fun j r hr => ?_, fun n child hget hfate => ?_, fun n child w j hget hfate => ?_, h.word⟩
  · rcases getElem?_set_some hr with ⟨rfl, rfl⟩ | ⟨-, hr⟩
    · rw [hpid]
      exact h.pid i p hp
    · exact h.pid j r hr
  · obtain ⟨r, hr, hrpid⟩ := h.held n child hget hfate
    by_cases hi : i = child.owner
    · rw [← hi] at hr ⊢
      obtain rfl := Option.some.inj (hr.symm.trans hp)
      exact ⟨q, getElem?_set_of_some hp, hpid.trans hrpid⟩
    · exact ⟨r, (List.getElem?_set_ne hi).trans hr, hrpid⟩
  · obtain ⟨hj, hown⟩ := h.own n child w j hget hfate
    refine ⟨hj, fun r hr hrpid => ?_⟩
    rcases getElem?_set_some hr with ⟨rfl, rfl⟩ | ⟨-, hr⟩
    · rw [hcode]
      exact hown p hp (hpid.symm.trans hrpid)
    · exact hown r hr hrpid

/-- The object collects the status of its child. -/
theorem Kept.collect (h : Kept s) (hp : s.procs[i]? = some p) (hpid : p.mPid = n + 1)
    (hget : s.children[n]? = some child) (howner : child.owner = i) (hqpid : q.mPid = p.mPid)
    (hcode : q.mExitCode = w) :
    Kept ⟨s.procs.set i q, s.children.set n { child with fate := .collected w i }⟩ := by
  have hnew : (s.children.set n { child with fate := .collected w i })[n]? =
      some { child with fate := .collected w i } := getElem?_set_of_some hget
  -- every child is there as before, but for the fate of this one
  have hchild : ∀ {m : Nat} {c : Child}, s.children[m]? = some c →
      ∃ c', (s.children.set n { child with fate := .collected w i })[m]? = some c' ∧
        c'.owner = c.owner := by
    intro m c hc
    by_cases hm : n = m
    · subst hm
      obtain rfl := Option.some.inj (hc.symm.trans hget)
      exact ⟨_, hnew, rfl⟩
    · exact ⟨c, (List.getElem?_set_ne hm).trans hc, rfl⟩
  refine ⟨fun j r hr => ?_, fun m c hc hfate => ?_, fun m c v j hc hfate => ?_,
    fun m c v hc hfate => ?_⟩
  · obtain ⟨r', hr', hrpid⟩ : ∃ r', s.procs[j]? = some r' ∧ r.mPid = r'.mPid := by
      rcases getElem?_set_some hr with ⟨rfl, rfl⟩ | ⟨-, hr⟩
      · exact ⟨p, hp, hqpid⟩
      · exact ⟨r, hr, rfl⟩
    rw [hrpid]
    refine (h.pid j r' hr').imp_right ?_
    intro hown
    obtain ⟨m, c, hm, hc, hj⟩ := hown
    obtain ⟨c', hc', hc'j⟩ := hchild hc
    exact ⟨m, c', hm, hc', hc'j.trans hj⟩
  · rcases getElem?_set_some hc with ⟨-, rfl⟩ | ⟨hne, hc⟩
    · exact absurd rfl (hfate w i)
    · obtain ⟨r, hr, hrpid⟩ := h.held m c hc hfate
      have hi : i ≠ c.owner := by
        rintro rfl
        obtain rfl := Option.some.inj (hr.symm.trans hp)
        omega
      exact ⟨r, (List.getElem?_set_ne hi).trans hr, hrpid⟩
  · rcases getElem?_set_some hc with ⟨rfl, rfl⟩ | ⟨hne, hc⟩
    · cases hfate
      refine ⟨howner.symm, fun r hr hrpid => ?_⟩
      rcases getElem?_set_some hr with ⟨-, rfl⟩ | ⟨hi, -⟩
      · exact hcode
      · exact absurd rfl hi
    · obtain ⟨hj, hown⟩ := h.own m c v j hc hfate
      refine ⟨hj, fun r hr hrpid => ?_⟩
      rcases getElem?_set_some hr with ⟨-, rfl⟩ | ⟨-, hr⟩
      · omega
      · exact hown r hr hrpid
  · rcases getElem?_set_some hc with ⟨-, rfl⟩ | ⟨-, hc⟩
    · cases hfate
    · exact h.word m c v hc hfate

/-- The object, no child of which waits, gives its child up. -/
theorem Kept.release (h : Kept s) (hfree : Free i s.children) (hpid : q.mPid = -1) :
    Kept ⟨s.procs.set i q, s.children⟩ := by
  refine ⟨fun j r hr => ?_, fun n child hget hfate => ?_, fun n child w j hget hfate => ?_, h.word⟩
  · rcases getElem?_set_some hr with ⟨rfl, rfl⟩ | ⟨-, hr⟩
    · exact .inl (by omega)
    · exact h.pid j r hr
  · obtain ⟨r, hr, hrpid⟩ := h.held n child hget hfate
    have hi := hfree.ne_owner hget hfate
    exact ⟨r, (List.getElem?_set_ne hi).trans hr, hrpid⟩
  · obtain ⟨hj, hown⟩ := h.own n child w j hget hfate
    refine ⟨hj, fun r hr hrpid => ?_⟩
    rcases getElem?_set_some hr with ⟨-, rfl⟩ | ⟨-, hr⟩
    · omega
    · exact hown r hr hrpid

/-- The object, no child of which waits, creates a new one. -/
theorem Kept.fork (h : Kept s) (hp : s.procs[i]? = some p) (hfree : Free i s.children)
    (hpid : q.mPid = (s.children.fork i).1) :
    Kept ⟨s.procs.set i q, (s.children.fork i).2⟩ := by
  have hqpid : q.mPid = s.children.length + 1 := hpid
  refine ⟨fun j r hr => ?_, fun n child hget hfate => ?_, fun n child w j hget hfate => ?_,
    fun n child w hget hfate => ?_⟩
  · rcases getElem?_set_some hr with ⟨rfl, rfl⟩ | ⟨-, hr⟩
    · exact .inr ⟨_, _, hqpid, Family.fork_new _ i, rfl⟩
    · refine (h.pid j r hr).imp_right ?_
      intro hown
      obtain ⟨n, child, hn, hget, hj⟩ := hown
      exact ⟨n, child, hn, Family.fork_old hget, hj⟩
  · rcases Family.fork_cases hget with hget | ⟨rfl, rfl⟩
    · obtain ⟨r, hr, hrpid⟩ := h.held n child hget hfate
      have hi := hfree.ne_owner hget hfate
      exact ⟨r, (List.getElem?_set_ne hi).trans hr, hrpid⟩
    · exact ⟨q, getElem?_set_of_some hp, hqpid⟩
  · rcases Family.fork_cases hget with hget | ⟨-, rfl⟩
    · obtain ⟨hj, hown⟩ := h.own n child w j hget hfate
      refine ⟨hj, fun r hr hrpid => ?_⟩
      have hlt := (List.getElem?_eq_some_iff.mp hget).1
      rcases getElem?_set_some hr with ⟨-, rfl⟩ | ⟨-, hr⟩
      · omega
      · exact hown r hr hrpid
    · cases hfate
  · rcases Family.fork_cases hget with hget | ⟨-, rfl⟩
    · exact h.word n child w hget hfate
    · cases hfate

/-- A child whose status was not collected changes. -/
theorem Kept.set_child (h : Kept s) {child' : Child} (hget : s.children[n]? = some child)
    (hfate : ∀ w j, child.fate ≠ .collected w j) (howner : child'.owner = child.owner)
    (hfate' : ∀ w j, child'.fate ≠ .collected w j)
    (hword : ∀ w, child'.fate = .zombie w → (wIfExited w || wIfSignaled w) = true) :
    Kept ⟨s.procs, s.children.set n child'⟩ := by
  refine ⟨fun j r hr => ?_, fun m c hc hcfate => ?_, fun m c w j hc hcfate => ?_,
    fun m c w hc hcfate => ?_⟩
  · refine (h.pid j r hr).imp_right ?_
    intro hown
    obtain ⟨m, c, hm, hc, hj⟩ := hown
    by_cases hmn : n = m
    · subst hmn
      obtain rfl := Option.some.inj (hc.symm.trans hget)
      exact ⟨n, child', hm, getElem?_set_of_some hget, howner.trans hj⟩
    · exact ⟨m, c, hm, (List.getElem?_set_ne hmn).trans hc, hj⟩
  · rcases getElem?_set_some hc with ⟨rfl, rfl⟩ | ⟨-, hc⟩
    · rw [howner]
      exact h.held n child hget hfate
    · exact h.held m c hc hcfate
  · rcases getElem?_set_some hc with ⟨-, rfl⟩ | ⟨-, hc⟩
    · exact absurd hcfate (hfate' w j)
    · exact h.own m c w j hc hcfate
  · rcases getElem?_set_some hc with ⟨-, rfl⟩ | ⟨-, hc⟩
    · exact hword w hcfate
    · exact h.word m c w hc hcfate

/-- A new object has no child. -/
theorem Kept.new (h : Kept s) : Kept { s with procs := s.procs ++ [LinuxProc.init] } := by
  have hcases : ∀ {j : Nat} {r : LinuxProc}, (s.procs ++ [LinuxProc.init])[j]? = some r →
      s.procs[j]? = some r ∨ r.mPid = 0 := by
    intro j r hr
    rw [List.getElem?_append] at hr
    split at hr
    · exact .inl hr
    · have hmem := List.mem_of_getElem? hr
      rw [List.mem_singleton] at hmem
      exact .inr (hmem ▸ rfl)
  refine ⟨fun j r hr => ?_, fun n child hget hfate => ?_, fun n child w j hget hfate => ?_, h.word⟩
  · rcases hcases hr with hr | hpid
    · exact h.pid j r hr
    · exact .inl (by omega)
  · obtain ⟨r, hr, hrpid⟩ := h.held n child hget hfate
    exact ⟨r, (List.getElem?_append_left (List.getElem?_eq_some_iff.mp hr).1).trans hr, hrpid⟩
  · obtain ⟨hj, hown⟩ := h.own n child w j hget hfate
    refine ⟨hj, fun r hr hrpid => ?_⟩
    rcases hcases hr with hr | hpid
    · exact hown r hr hrpid
    · omega

/-! ### The calls -/

/-- An object whose own child was collected has no child that waits. -/
theorem Kept.free (h : Kept s) (hp : s.procs[i]? = some p)
    (hdone : ∀ (n : Nat) (child : Child), p.mPid = n + 1 → s.children[n]? = some child →
      ∃ w j, child.fate = .collected w j) : Free i s.children := by
  intro n child hget howner
  by_contra hfate
  push Not at hfate
  obtain ⟨r, hr, hrpid⟩ := h.held n child hget hfate
  rw [howner] at hr
  obtain rfl := Option.some.inj (hr.symm.trans hp)
  obtain ⟨w, j, hcol⟩ := hdone n child hrpid hget
  exact hfate w j hcol

/-- A safe poll keeps the invariant; if it says that nothing runs, no child of the object waits. -/
theorem Kept.isRunning (h : Kept s) (hp : s.procs[i]? = some p)
    (hsafe : p.mPid ≤ 0 → ¬ s.children.AnyZombie p.mPid) {pick : Nat} {b : Bool}
    (hb : s.isRunning i p pick = (b, q, k)) :
    Kept ⟨s.procs.set i q, k⟩ ∧ (b = false → Free i k) := by
  rcases hwait : s.children.waitpid i p.mPid pick with ⟨ret, status, k'⟩
  have hw := Family.Waited.of_waitpid hwait
  simp only [LinuxServer.isRunning, hwait] at hb
  cases hw with
  | @collected n child w hget hfate hsel =>
      -- the child is the one the object is about
      obtain ⟨howner, hpid⟩ : child.owner = i ∧ p.mPid = n + 1 := by
        rcases h.pid i p hp with hle | ⟨m, c, hm, hc, howner⟩
        · exact absurd ⟨n, child, _, hget, hfate, hsel⟩ (hsafe hle)
        · rw [hm] at hsel
          obtain ⟨rfl, rfl⟩ := Family.eq_of_selects hsel hget hc
          exact ⟨howner, hm⟩
      have h₁ : (n : Int) + 1 ≠ -1 := by omega
      have h₂ : (n : Int) + 1 ≠ 0 := by omega
      simp only [LinuxProc.polled, h₁, h₂, if_false, h.word n child _ hget hfate, if_true] at hb
      cases hb
      have hkept : Kept ⟨s.procs.set i ({ p with mExitCode := status }.epollFin),
          s.children.set n { child with fate := .collected status i }⟩ :=
        h.collect hp hpid hget howner rfl rfl
      refine ⟨hkept, fun _ => hkept.free (getElem?_set_of_some hp) fun m c hm hc => ?_⟩
      have hmn : (m : Int) + 1 = n + 1 := hm.symm.trans hpid
      obtain rfl : m = n := by omega
      rw [getElem?_set_of_some hget] at hc
      exact ⟨status, i, by rw [← Option.some.inj hc]⟩
  | none hno hret =>
      by_cases hlive : s.children.anyLive p.mPid = true
      · rw [if_pos hlive] at hret
        subst hret
        simp only [LinuxProc.polled] at hb
        cases hb
        exact ⟨h.set_proc hp rfl rfl, by simp⟩
      · rw [if_neg hlive] at hret
        subst hret
        simp only [LinuxProc.polled, if_true] at hb
        cases hb
        refine ⟨h.set_proc hp rfl rfl, fun _ => h.free hp fun n child hn hget => ?_⟩
        have hsel : selects p.mPid n child = true := by rw [hn, selects_pid]
        cases hfate : child.fate with
        | live => exact absurd (Family.anyLive_iff.mpr ⟨n, child, hget, hfate, hsel⟩) hlive
        | zombie w => exact absurd ⟨n, child, w, hget, hfate, hsel⟩ hno
        | collected w j => exact ⟨w, j, rfl⟩

theorem Kept.exitCode (h : Kept s) (hp : s.procs[i]? = some p)
    (hsafe : p.mPid ≤ 0 → ¬ s.children.AnyZombie p.mPid) {pick : Nat} {out : Option Int}
    (hout : s.exitCode i p pick = (out, q, k)) : Kept ⟨s.procs.set i q, k⟩ := by
  rcases hrun : s.isRunning i p pick with ⟨b, q', k'⟩
  obtain ⟨hkept, -⟩ := h.isRunning hp hsafe hrun
  simp only [LinuxServer.exitCode, hrun] at hout
  cases b <;> cases hout <;> exact hkept

/-- What becomes of `m_pid` in `start`. -/
theorem startPolled_cases (p : LinuxProc) (running : Bool) (env : StartEnv) (pid : Int) :
    ((p.startPolled running env pid).forked = false ∧
      (p.startPolled running env pid).proc = p) ∨
    (running = false ∧ (p.startPolled running env pid).forked = false ∧
      (p.startPolled running env pid).proc.mPid = -1) ∨
    (running = false ∧ (p.startPolled running env pid).forked = true ∧
      (p.startPolled running env pid).proc.mPid = pid) := by
  unfold LinuxProc.startPolled
  cases running with
  | true => exact .inl ⟨rfl, rfl⟩
  | false =>
      rw [if_neg (by simp)]
      split
      · exact .inl ⟨rfl, rfl⟩
      cases env.forkpty with
      | none => exact .inr (.inl ⟨rfl, rfl, rfl⟩)
      | some fd =>
          refine .inr (.inr ⟨rfl, ?_⟩)
          dsimp only
          split
          · exact ⟨rfl, rfl⟩
          split
          · exact ⟨rfl, rfl⟩
          cases hepoll : env.epollCreate <;> cases hctl : env.epollCtlOk <;>
            simp [LinuxProc.epollInit, LinuxProc.epollFin, hepoll, hctl]

theorem Kept.start (h : Kept s) (hp : s.procs[i]? = some p)
    (hsafe : p.mPid ≤ 0 → ¬ s.children.AnyZombie p.mPid) {env : StartEnv} {rc : Nat}
    (hs : s.start i p env = (rc, q, k)) : Kept ⟨s.procs.set i q, k⟩ := by
  rcases hrun : s.isRunning i p env.pick.toNat with ⟨b, q₁, k₁⟩
  obtain ⟨hkept, hfree⟩ := h.isRunning hp hsafe hrun
  have hq₁ : (s.procs.set i q₁)[i]? = some q₁ := getElem?_set_of_some hp
  simp only [LinuxServer.start, hrun, Prod.mk.injEq] at hs
  obtain ⟨-, rfl, rfl⟩ := hs
  rcases startPolled_cases q₁ b env (k₁.fork i).1 with
    ⟨hfork, hq⟩ | ⟨hb, hfork, hq⟩ | ⟨hb, hfork, hq⟩
  · rw [hfork, hq]
    exact hkept
  · have hrelease := hkept.release (hfree hb) hq
    rw [List.set_set] at hrelease
    rw [hfork]
    exact hrelease
  · have hnew := hkept.fork hq₁ (hfree hb) hq
    rw [List.set_set] at hnew
    rw [hfork]
    exact hnew

/-- **Step lemma.** -/
theorem Kept.step (h : Kept s) (hs : LinuxServer.step s a = some (o, u)) (hsafe : Safe s a) :
    Kept u := by
  cases a with
  | new =>
      cases hs
      exact h.new
  | start i env =>
      obtain ⟨p, hp, ⟨⟩⟩ := Option.map_eq_some_iff.mp hs
      exact h.start hp (hsafe i p rfl hp) rfl
  | isRunning i pick =>
      obtain ⟨p, hp, ⟨⟩⟩ := Option.map_eq_some_iff.mp hs
      exact (h.isRunning hp (hsafe i p rfl hp) rfl).1
  | exitCode i pick =>
      obtain ⟨p, hp, ⟨⟩⟩ := Option.map_eq_some_iff.mp hs
      exact h.exitCode hp (hsafe i p rfl hp) rfl
  | setsid n =>
      obtain ⟨k, hk, ⟨⟩⟩ := Option.map_eq_some_iff.mp hs
      unfold Family.setsid at hk
      split at hk
      · next owner hget =>
        cases hk
        exact h.set_child hget (by simp) rfl (by simp) (by simp)
      · cases hk
  | terminate n t =>
      obtain ⟨k, hk, ⟨⟩⟩ := Option.map_eq_some_iff.mp hs
      unfold Family.terminate at hk
      split at hk
      · next owner inGroup hget =>
        cases hk
        refine h.set_child hget (by simp) rfl (by simp) ?_
        rintro w ⟨⟩
        exact wIf_status t
      · cases hk

theorem Kept.faithful (h : Kept s) : Faithful s := by
  intro n child w j hget hfate
  obtain ⟨hj, hown⟩ := h.own n child w j hget hfate
  refine ⟨hj, fun p hp hpid pick => ?_⟩
  -- nothing is waited for any more
  rcases hwait : s.children.waitpid j p.mPid pick with ⟨ret, status, k⟩
  have hw := Family.Waited.of_waitpid hwait
  rw [hpid] at hw
  cases hw with
  | @collected m c _ hc hcfate hsel =>
      obtain ⟨rfl, rfl⟩ := Family.eq_of_selects hsel hc hget
      rw [hfate] at hcfate
      cases hcfate
  | none hno hret =>
      have hlive : s.children.anyLive (n + 1) ≠ true := by
        intro hlive
        obtain ⟨m, c, hc, hcfate, hsel⟩ := Family.anyLive_iff.mp hlive
        obtain ⟨rfl, rfl⟩ := Family.eq_of_selects hsel hc hget
        rw [hfate] at hcfate
        cases hcfate
      rw [if_neg hlive] at hret
      subst hret
      simp only [LinuxServer.exitCode, LinuxServer.isRunning, hwait, LinuxProc.polled, if_true]
      exact congrArg some (hown p hp hpid)

theorem start_children (s : LinuxServer) (i : Nat) (p : LinuxProc) (env : StartEnv) :
    (s.start i p env).2.2 = (s.children.waitpid i p.mPid env.pick.toNat).2.2 ∨
      (s.start i p env).2.2 =
        ((s.children.waitpid i p.mPid env.pick.toNat).2.2.fork i).2 := by
  rcases hwait : s.children.waitpid i p.mPid env.pick.toNat with ⟨ret, status, k⟩
  simp only [LinuxServer.start, LinuxServer.isRunning, hwait]
  generalize (p.polled ret status).2.startPolled _ env _ = r
  cases r.forked with
  | false => exact .inl rfl
  | true => exact .inr rfl

theorem exitCode_children (s : LinuxServer) (i : Nat) (p : LinuxProc) (pick : Nat) :
    (s.exitCode i p pick).2.2 = (s.children.waitpid i p.mPid pick).2.2 := by
  rcases hwait : s.children.waitpid i p.mPid pick with ⟨ret, status, k⟩
  simp only [LinuxServer.exitCode, LinuxServer.isRunning, hwait]
  cases (p.polled ret status).1 <;> rfl

/-- What the poll in a call collects stays so up to its end. -/
theorem step_children (hs : LinuxServer.step s a = some (o, u)) (hpolls : polls a = some i)
    (hp : s.procs[i]? = some p) :
    ∃ pick, ∀ (n : Nat) (child : Child),
      (s.children.waitpid i p.mPid pick).2.2[n]? = some child → u.children[n]? = some child := by
  cases a with
  | start j env =>
      obtain rfl := Option.some.inj hpolls
      simp only [LinuxServer.step, hp, Option.map_some, Option.some.injEq, Prod.mk.injEq] at hs
      obtain ⟨-, rfl⟩ := hs
      refine ⟨env.pick.toNat, fun n child hget => ?_⟩
      rcases start_children s j p env with hk | hk
      · exact hk ▸ hget
      · exact hk ▸ (List.getElem?_append_left (List.getElem?_eq_some_iff.mp hget).1).trans hget
  | isRunning j pick =>
      obtain rfl := Option.some.inj hpolls
      simp only [LinuxServer.step, hp, Option.map_some, Option.some.injEq, Prod.mk.injEq] at hs
      obtain ⟨-, rfl⟩ := hs
      exact ⟨pick, fun n child hget => hget⟩
  | exitCode j pick =>
      obtain rfl := Option.some.inj hpolls
      simp only [LinuxServer.step, hp, Option.map_some, Option.some.injEq, Prod.mk.injEq] at hs
      obtain ⟨-, rfl⟩ := hs
      exact ⟨pick, fun n child hget => exitCode_children s j p pick ▸ hget⟩
  | new | setsid | terminate => cases hpolls

/-- A poll that is not safe takes the status of a child of another object. -/
theorem Kept.not_faithful (h : Kept s) (hs : LinuxServer.step s a = some (o, u))
    (hsafe : ¬ Safe s a) : ¬ Faithful u := by
  unfold Safe at hsafe
  push Not at hsafe
  obtain ⟨i, p, hpolls, hp, hle, hany⟩ := hsafe
  obtain ⟨pick, hu⟩ := step_children hs hpolls hp
  rcases hwait : s.children.waitpid i p.mPid pick with ⟨ret, status, k⟩
  rw [hwait] at hu
  have hw := Family.Waited.of_waitpid hwait
  cases hw with
  | none hno => exact absurd hany hno
  | @collected n child _ hget hfate hsel =>
      intro hfaithful
      obtain ⟨howner, -⟩ := hfaithful n _ status i (hu n _ (getElem?_set_of_some hget)) rfl
      obtain ⟨r, hr, hrpid⟩ := h.held n child hget (by simp [hfate])
      have hchild : child.owner = i := howner.symm
      rw [hchild] at hr
      obtain rfl := Option.some.inj (hr.symm.trans hp)
      omega

theorem kept_fresh : Kept fresh := by
  refine ⟨?_, ?_, ?_, ?_⟩ <;> simp [fresh]

/-- **A status is collected by the object that created the child, and reported by it**, in every
state of a history of calls and terminations, if and only if no step is a poll of an object whose
`m_pid` is -1 while any child waits for its status to be collected, or 0 while such a child is in
the process group of the server. -/
theorem faithful_always_iff (h : Run step anyAction fresh es s) :
    (∀ es₁ es₂ t, es = es₁ ++ es₂ → Run step anyAction fresh es₁ t → Faithful t) ↔
      ∀ es₁ a o es₂ t, es = es₁ ++ (a, o) :: es₂ → Run step anyAction fresh es₁ t → Safe t a :=
  h.always_iff kept_fresh (fun _ ht => ht.faithful)
    (fun _ _ _ _ _ _ ht _ hs hsafe => ht.step hs hsafe)
    (fun _ _ _ _ _ _ ht _ hs hsafe => ht.not_faithful hs hsafe)

/-- Two objects; the child of the first one passes 3 to `exit`. -/
def ownPoll : List ServerAction :=
  [.new, .new, .start 0 .ok, .setsid 0, .terminate 0 (.exited 3), .isRunning 0 0]

theorem ownPoll_runs : (script step anyAction fresh ownPoll).isSome :=
  rfl

theorem faithful_always_iff_ownPoll :
    ∃ es s, Run step anyAction fresh es s ∧ s.children = [⟨0, false, .collected 768 0⟩] ∧
      ((∀ es₁ es₂ t, es = es₁ ++ es₂ → Run step anyAction fresh es₁ t → Faithful t) ↔
        ∀ es₁ a o es₂ t, es = es₁ ++ (a, o) :: es₂ → Run step anyAction fresh es₁ t → Safe t a) :=
  ⟨_, _, Run.of_script ownPoll_runs, by decide +kernel,
    faithful_always_iff (Run.of_script ownPoll_runs)⟩

/-- `forkpty` fails for the second object. -/
def forkFails : List ServerAction :=
  [.new, .new, .start 0 .ok, .setsid 0, .start 1 { StartEnv.ok with forkpty := none },
    .terminate 0 (.exited 3), .isRunning 1 0]

/-- The child of the first object is killed at once, and the second object is new. -/
def killedAtOnce : List ServerAction :=
  [.new, .new, .start 0 .ok, .terminate 0 (.signaled sigKill false), .isRunning 1 0]

theorem forkFails_runs : (script step anyAction fresh forkFails).isSome :=
  rfl

theorem killedAtOnce_runs : (script step anyAction fresh killedAtOnce).isSome :=
  rfl

theorem not_faithful_of_collected (inGroup : Bool) (w : Int)
    (h : s.children = [⟨0, inGroup, .collected w 1⟩]) : ¬ Faithful s := by
  intro hfaithful
  obtain ⟨hj, -⟩ := hfaithful 0 _ w 1 (by rw [h]; rfl) rfl
  cases hj

/-- **The second object takes the status of the first one's child**, and the first one reports 0:
once with -1, after a failed `forkpty`, and once with 0. -/
theorem status_stolen :
    (∃ es s p, Run step anyAction fresh es s ∧ s.children = [⟨0, false, .collected 768 1⟩] ∧
      s.procs[0]? = some p ∧ (s.exitCode 0 p 0).1 = some 0 ∧ ¬ Faithful s) ∧
    ∃ es s p, Run step anyAction fresh es s ∧ s.children = [⟨0, true, .collected 9 1⟩] ∧
      s.procs[0]? = some p ∧ (s.exitCode 0 p 0).1 = some 0 ∧ ¬ Faithful s := by
  refine ⟨⟨_, _, ⟨1, 3, 0, 4⟩, Run.of_script forkFails_runs, ?_⟩, ⟨_, _, ⟨1, 3, 0, 4⟩,
    Run.of_script killedAtOnce_runs, ?_⟩⟩
  · exact ⟨by decide +kernel, by decide +kernel, by decide +kernel,
      not_faithful_of_collected false 768 (by decide +kernel)⟩
  · exact ⟨by decide +kernel, by decide +kernel, by decide +kernel,
      not_faithful_of_collected true 9 (by decide +kernel)⟩

end LinuxServer

end SimpleTaskQueue
