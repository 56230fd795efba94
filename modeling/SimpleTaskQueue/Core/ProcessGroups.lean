import SimpleTaskQueue.Core.Processes
/-!
# SimpleTaskQueue.Core.ProcessGroups

The children of a process whose parts act on their own: every child has an **owner**, the part
that created it, and a status word that was delivered knows its **collector**, the part that called
`waitpid`. A child is in the process group of its parent until it calls `setsid`, so `waitpid`
selects by all three of its arguments: a pid, 0 for the group, and -1 for any child.

Unlike in `SimpleTaskQueue.Core.Processes` nothing is forgotten when a status is collected; owner
and collector are for the reader only, no call looks at them. The child at position `n` has the
pid `n + 1`; as there, a pid is never given out twice.
-/

namespace Processes

inductive Fate
  | live
  | zombie (status : Int)
  | collected (status : Int) (collector : Nat)
  deriving Repr, DecidableEq

structure Child where
  owner : Nat
  inGroup : Bool
  fate : Fate
  deriving Repr, DecidableEq

/-- Does `waitpid` with this `pid` wait for the child at position `n`? -/
def selects (pid : Int) (n : Nat) (child : Child) : Bool :=
  if pid = -1 then true else if pid = 0 then child.inGroup else pid == (n : Int) + 1

@[simp] theorem selects_pid {n m : Nat} {child : Child} :
    selects ((n : Int) + 1) m child = true ↔ m = n := by
  have h₁ : (n : Int) + 1 ≠ -1 := by omega
  have h₂ : (n : Int) + 1 ≠ 0 := by omega
  rw [selects, if_neg h₁, if_neg h₂, beq_iff_eq]
  omega

abbrev Family := List Child

namespace Family

variable {k k' : Family} {pid : Int} {n m : Nat} {child : Child} {w : Int}

/-- The child at position `n` and its status word, if the word is waited for. -/
def ready (k : Family) (pid : Int) (n : Nat) : Option (Child × Int) :=
  match k[n]? with
  | some ⟨owner, inGroup, .zombie w⟩ =>
    if selects pid n ⟨owner, inGroup, .zombie w⟩ then some (⟨owner, inGroup, .zombie w⟩, w)
    else none
  | _ => none

/-- Is some selected child alive? -/
def anyLive (k : Family) (pid : Int) : Bool :=
  (List.range k.length).any fun n =>
    (k[n]?).any fun child => selects pid n child && child.fate == .live

/-- The system chooses among the children that are waited for: `pick`, or the first one. -/
def choose (k : Family) (pid : Int) (pick : Nat) : Nat :=
  if (k.ready pid pick).isSome then pick
  else ((List.range k.length).find? fun n => (k.ready pid n).isSome).getD pick

/-- `waitpid(pid, &status, WNOHANG)`, called by the part `caller`. -/
def waitpid (k : Family) (caller : Nat) (pid : Int) (pick : Nat) : Int × Int × Family :=
  let n := k.choose pid pick
  match k.ready pid n with
  | some (child, w) => (n + 1, w, k.set n { child with fate := .collected w caller })
  | none => if k.anyLive pid then (0, 0, k) else (-1, 0, k)

/-- A child is created: its pid, and the children then. -/
def fork (k : Family) (owner : Nat) : Int × Family := (k.length + 1, k ++ [⟨owner, true, .live⟩])

/-- The child leaves the group. -/
def setsid (k : Family) (n : Nat) : Option Family :=
  match k[n]? with
  | some ⟨owner, true, .live⟩ => some (k.set n ⟨owner, false, .live⟩)
  | _ => none

def terminate (k : Family) (n : Nat) (t : Termination) : Option Family :=
  match k[n]? with
  | some ⟨owner, inGroup, .live⟩ => some (k.set n ⟨owner, inGroup, .zombie t.status⟩)
  | _ => none

/-! ### The children behind a `fork` -/

theorem fork_old {i : Nat} (hget : k[n]? = some child) : (k.fork i).2[n]? = some child :=
  (List.getElem?_append_left (List.getElem?_eq_some_iff.mp hget).1).trans hget

theorem fork_new (k : Family) (i : Nat) : (k.fork i).2[k.length]? = some ⟨i, true, .live⟩ :=
  List.getElem?_concat_length

theorem fork_cases {i : Nat} (hget : (k.fork i).2[n]? = some child) :
    k[n]? = some child ∨ (n = k.length ∧ child = ⟨i, true, .live⟩) := by
  rw [fork, List.getElem?_append] at hget
  split at hget
  · exact .inl hget
  · have hlt := (List.getElem?_eq_some_iff.mp hget).1
    rw [List.length_singleton] at hlt
    have hn : n = k.length := by omega
    subst hn
    rw [Nat.sub_self] at hget
    exact .inr ⟨rfl, (Option.some.inj hget).symm⟩

/-! ### Which child `waitpid` waits for -/

/-- A pid selects one child. -/
theorem eq_of_selects {c : Child} (hsel : selects ((n : Int) + 1) m c = true) (hc : k[m]? = some c)
    (hget : k[n]? = some child) : m = n ∧ c = child := by
  rw [selects_pid] at hsel
  subst hsel
  exact ⟨rfl, Option.some.inj (hc.symm.trans hget)⟩

theorem ready_eq_some :
    k.ready pid n = some (child, w) ↔
      k[n]? = some child ∧ child.fate = .zombie w ∧ selects pid n child = true := by
  unfold ready
  split
  · next owner inGroup w' hget =>
    constructor
    · intro h
      split at h
      · next hsel =>
        cases h
        exact ⟨hget, rfl, hsel⟩
      · cases h
    · intro hready
      obtain ⟨hchild, hfate, hsel⟩ := hready
      obtain rfl := Option.some.inj (hget.symm.trans hchild)
      cases hfate
      rw [if_pos hsel]
  · next hno =>
    constructor
    · exact nofun
    · intro hready
      obtain ⟨hchild, hfate, -⟩ := hready
      obtain ⟨owner, inGroup, fate⟩ := child
      subst hfate
      exact absurd hchild (hno owner inGroup w)

/-- The system chooses a child that is waited for, if there is one. -/
theorem ready_choose (h : (k.ready pid n).isSome = true) (pick : Nat) :
    (k.ready pid (k.choose pid pick)).isSome = true := by
  unfold choose
  split
  · assumption
  · have hlt : n < k.length := by
      obtain ⟨⟨child, w⟩, hr⟩ := Option.isSome_iff_exists.mp h
      exact (List.getElem?_eq_some_iff.mp (ready_eq_some.mp hr).1).1
    cases hfind : (List.range k.length).find? fun n => (k.ready pid n).isSome with
    | none => exact absurd h (List.find?_eq_none.mp hfind n (List.mem_range.mpr hlt))
    | some m =>
        have hm := List.find?_some hfind
        exact hm

theorem anyLive_iff : k.anyLive pid = true ↔
    ∃ (n : Nat) (child : Child), k[n]? = some child ∧ child.fate = .live ∧
      selects pid n child = true := by
  rw [anyLive, List.any_eq_true]
  constructor
  · intro hany
    obtain ⟨n, -, hn⟩ := hany
    obtain ⟨child, hget, hchild⟩ := (Option.any_eq_true ..).mp hn
    exact ⟨n, child, hget, by simpa [and_comm] using hchild⟩
  · intro hlive
    obtain ⟨n, child, hget, hfate, hsel⟩ := hlive
    have hlt := (List.getElem?_eq_some_iff.mp hget).1
    exact ⟨n, List.mem_range.mpr hlt, by simp [hget, hfate, hsel]⟩

/-- Some child that is waited for has ended, and nobody has collected its status. -/
def AnyZombie (k : Family) (pid : Int) : Prop :=
  ∃ n child w, k[n]? = some child ∧ child.fate = .zombie w ∧ selects pid n child = true

/-- **What `waitpid` does**: it collects a zombie that is waited for; if there is none, nothing. -/
inductive Waited (k : Family) (caller : Nat) (pid : Int) : Int → Int → Family → Prop
  | collected {n : Nat} {child : Child} {w : Int} (hget : k[n]? = some child)
      (hfate : child.fate = .zombie w) (hsel : selects pid n child = true) :
      Waited k caller pid (n + 1) w (k.set n { child with fate := .collected w caller })
  | none {ret : Int} (hno : ¬ k.AnyZombie pid) (hret : ret = if k.anyLive pid then 0 else -1) :
      Waited k caller pid ret 0 k

theorem Waited.of_waitpid {caller pick : Nat} {ret status : Int}
    (h : k.waitpid caller pid pick = (ret, status, k')) : Waited k caller pid ret status k' := by
  simp only [waitpid] at h
  split at h
  · next child w hready =>
    obtain ⟨hget, hfate, hsel⟩ := ready_eq_some.mp hready
    cases h
    exact .collected hget hfate hsel
  · next hready =>
    have hno : ¬ k.AnyZombie pid := by
      rintro ⟨n, child, w, hget, hfate, hsel⟩
      have hsome := ready_choose (Option.isSome_iff_exists.mpr
        ⟨(child, w), ready_eq_some.mpr ⟨hget, hfate, hsel⟩⟩) pick
      rw [hready] at hsome
      cases hsome
    split at h <;> next hlive =>
      cases h
      exact .none hno (by simp [hlive])

end Family

end Processes
