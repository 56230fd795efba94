import Mathlib.Data.List.Basic
/-!
# SimpleTaskQueue.Core.Processes

The **child processes** of one Unix process, as `fork`, `waitpid(pid, WNOHANG)` and `kill`
show them. A child lives, is a zombie holding its status word, or has been collected; its
status is delivered exactly once. The children are numbered in the order of their creation.
Every child leads a session of its own (`forkpty`), so none is in the process group of its
parent.

A pid is never given out twice. A system does so in the long run: whoever keeps the pid of a
child that was collected meets another process then. That is left out.
-/

namespace Processes

/-- A signal number. -/
abbrev Signal := { s : Nat // 1 ≤ s ∧ s ≤ 64 }

def sigKill : Signal := ⟨9, by decide⟩

/-- How a process ends. -/
inductive Termination
  /-- It passed `n` to `exit`. -/
  | exited (n : Int)
  | signaled (s : Signal) (core : Bool)
  deriving Repr, DecidableEq

/-- The status word of `waitpid`: the low byte of the exit code in bits 8 to 15, or the
signal in bits 0 to 6 with the core dump flag in bit 7. -/
def Termination.status : Termination → Int
  | exited n => n % 256 * 256
  | signaled s core => s.val + if core then 128 else 0

/-- `WIFEXITED`. -/
def wIfExited (w : Int) : Bool := w % 128 == 0

/-- `WIFSIGNALED`. -/
def wIfSignaled (w : Int) : Bool := w % 128 != 0 && w % 128 != 127

@[simp] theorem wIf_status (t : Termination) :
    (wIfExited t.status || wIfSignaled t.status) = true := by
  cases t with
  | exited n =>
      have h : n % 256 * 256 % 128 = 0 := by omega
      simp [wIfExited, Termination.status, h]
  | signaled s core =>
      obtain ⟨s, h₁, h₂⟩ := s
      have h : ((s : Int) + if core then 128 else 0) % 128 = s := by cases core <;> simp <;> omega
      have h₀ : ((s : Int) == 0) = false := by simp; omega
      have h₁₂₇ : ((s : Int) == 127) = false := by simp; omega
      simp only [Termination.status, wIfExited, wIfSignaled, h, h₀, bne, h₁₂₇]
      rfl

/-- The status word is the number passed to `exit` only for 0. -/
theorem status_exited_eq_iff (n : Int) : (Termination.exited n).status = n ↔ n = 0 := by
  show n % 256 * 256 = n ↔ n = 0
  omega

inductive ChildState
  | live
  | zombie (status : Int)
  | collected
  deriving Repr, DecidableEq

/-- The children created so far, the one with pid `i + 1` at position `i`, and the arguments
of the `kill` calls so far, newest first. -/
structure Children where
  table : List ChildState
  kills : List Int
  deriving Repr, DecidableEq

namespace Children

variable {k k' : Children} {pid pid' : Int} {s : ChildState}

/-- No child yet. -/
def none : Children := ⟨[], []⟩

/-- The state of a child (`none`: there is no such child). -/
def get (k : Children) (pid : Int) : Option ChildState :=
  if 0 < pid then k.table[(pid - 1).toNat]? else .none

def set (k : Children) (pid : Int) (s : ChildState) : Children :=
  { k with table := k.table.set (pid - 1).toNat s }

/-- Create a child: its pid, and the children then. -/
def fork (k : Children) : Int × Children :=
  (k.table.length + 1, { k with table := k.table ++ [.live] })

/-- A living child terminates. -/
def terminate (k : Children) (pid : Int) (t : Termination) : Option Children :=
  if k.get pid = some .live then some (k.set pid (.zombie t.status)) else .none

/-- Another part of the process collects a zombie. -/
def collect (k : Children) (pid : Int) : Option Children :=
  match k.get pid with
  | some (.zombie _) => some (k.set pid .collected)
  | _ => .none

/-- `kill`, as far as the caller is concerned. -/
def kill (k : Children) (pid : Int) : Children := { k with kills := pid :: k.kills }

def isZombie : ChildState → Bool
  | .zombie _ => true
  | _ => false

/-- The child `waitpid(-1)` delivers: `pick` if it is a zombie, else the first zombie. -/
def anyZombie (k : Children) (pick : Int) : Option Int :=
  match k.get pick with
  | some (.zombie _) => some pick
  | _ => (k.table.findIdx? isZombie).map fun i => (i : Int) + 1

/-- `waitpid(pid, &status, WNOHANG)`: the result, the status word and the children then. For
`pid = -1` the system chooses among the zombies. -/
def waitpid (k : Children) (pid pick : Int) : Int × Int × Children :=
  let target := if pid = -1 then (k.anyZombie pick).getD pid else pid
  match k.get target with
  | some (.zombie w) => (target, w, k.set target .collected)
  | some .live => (0, 0, k)
  | _ => if pid = -1 ∧ .live ∈ k.table then (0, 0, k) else (-1, 0, k)

theorem get_pos (h : k.get pid = some s) : 0 < pid := by
  unfold get at h
  split at h
  · assumption
  · cases h

theorem get_congr (h : k'.table = k.table) (pid : Int) : k'.get pid = k.get pid := by
  unfold get
  rw [h]

theorem get_set_self (h : k.get pid = some s) (s' : ChildState) :
    (k.set pid s').get pid = some s' := by
  have hpos := get_pos h
  unfold get at h ⊢
  rw [if_pos hpos] at h ⊢
  rw [set, List.getElem?_set_self', h]
  rfl

theorem get_set_ne (hpos : 0 < pid) (h : pid ≠ pid') (s' : ChildState) :
    (k.set pid s').get pid' = k.get pid' := by
  unfold get
  split
  · have hne : (pid - 1).toNat ≠ (pid' - 1).toNat := by omega
    rw [set, List.getElem?_set_ne hne]
  · rfl

theorem get_fork_new (k : Children) : k.fork.2.get k.fork.1 = some .live := by
  have hpos : (0 : Int) < k.table.length + 1 := by omega
  have hidx : ((k.table.length : Int) + 1 - 1).toNat = k.table.length := by omega
  simp only [get, fork, hpos, if_true, hidx, List.getElem?_concat_length]

theorem get_fork (h : k.get pid = some s) : k.fork.2.get pid = some s := by
  have hpos := get_pos h
  unfold get at h ⊢
  rw [if_pos hpos] at h ⊢
  obtain ⟨hlt, -⟩ := List.getElem?_eq_some_iff.mp h
  exact (List.getElem?_append_left hlt).trans h

/-- `waitpid` on one child. -/
theorem waitpid_zombie {w : Int} (h : k.get pid = some (.zombie w)) (pick : Int) :
    k.waitpid pid pick = (pid, w, k.set pid .collected) := by
  have hpid : pid ≠ -1 := by have := get_pos h; omega
  simp [waitpid, hpid, h]

theorem waitpid_live (h : k.get pid = some .live) (pick : Int) :
    k.waitpid pid pick = (0, 0, k) := by
  have hpid : pid ≠ -1 := by have := get_pos h; omega
  simp [waitpid, hpid, h]

theorem waitpid_collected (h : k.get pid = some .collected) (pick : Int) :
    k.waitpid pid pick = (-1, 0, k) := by
  have hpid : pid ≠ -1 := by have := get_pos h; omega
  simp [waitpid, hpid, h]

end Children

end Processes
