import SimpleTaskQueue.Core.Runs
/-!
# SimpleTaskQueue.Core.Mutex

**Threads that acquire and release mutexes.** A system is a set of calls, each with the list of
mutex operations it performs; a thread that is idle may begin a call, and a thread that wants a
mutex waits until nobody holds it. A run is any interleaving.

Two threads are in deadlock if each holds a mutex the other one waits for. For calls that
never acquire after their first release (`TwoPhase`) a deadlock can only come about in one way:
a thread takes a mutex, and now waits for one whose holder waits for what it has (`Closes`).
`deadlock_free_iff` says so for whole runs.
-/

namespace Mutex

open Runs

variable {ι κ : Type}

inductive Op (ι : Type)
  | acquire (m : ι)
  | release (m : ι)
  deriving DecidableEq

/-- The operations a thread has still to perform in its call, and the mutexes it holds. -/
structure Thread (ι : Type) where
  rest : List (Op ι)
  held : List ι
  deriving DecidableEq

abbrev Threads (ι : Type) := List (Thread ι)

inductive Act (κ : Type)
  /-- The thread `i` begins a call. -/
  | call (i : Nat) (c : κ)
  /-- The thread `i` performs its next operation. -/
  | step (i : Nat)

/-- What the calls do, and which threads may make them. -/
structure System (ι κ : Type) where
  program : κ → List (Op ι)
  may : Nat → κ → Bool

/-- The thread waits for `m`: this is what it wants to acquire next. -/
def Thread.Waits (t : Thread ι) (m : ι) : Prop := ∃ rest, t.rest = .acquire m :: rest

/-- Two threads, each holding a mutex the other one waits for. -/
def Deadlock (s : Threads ι) : Prop :=
  ∃ (i j : Nat) (t t' : Thread ι) (m m' : ι), i ≠ j ∧ s[i]? = some t ∧ s[j]? = some t' ∧
    m ∈ t.held ∧ t.Waits m' ∧ m' ∈ t'.held ∧ t'.Waits m

/-- The next step of thread `i` takes a mutex, after which it waits for one whose holder waits
for a mutex that `i` has then. -/
def Closes (s : Threads ι) (i : Nat) : Prop :=
  ∃ (t : Thread ι) (m m' : ι) (rest : List (Op ι)) (j : Nat) (t' : Thread ι) (x : ι),
    s[i]? = some t ∧ t.rest = .acquire m :: .acquire m' :: rest ∧
    j ≠ i ∧ s[j]? = some t' ∧ m' ∈ t'.held ∧ x ∈ m :: t.held ∧ t'.Waits x

/-- No `acquire` after the first `release`. -/
def TwoPhase : List (Op ι) → Prop
  | [] => True
  | .acquire _ :: rest => TwoPhase rest
  | .release _ :: rest => ∀ op ∈ rest, ∃ m, op = .release m

theorem TwoPhase.tail {op : Op ι} {rest : List (Op ι)} (h : TwoPhase (op :: rest)) :
    TwoPhase rest := by
  cases op with
  | acquire m => exact h
  | release m =>
      cases rest with
      | nil => trivial
      | cons op rest =>
          obtain ⟨m', rfl⟩ := h op List.mem_cons_self
          exact fun op hop => h op (List.mem_cons_of_mem _ hop)

/-- Idle threads. -/
def idle (n : Nat) : Threads ι := List.replicate n ⟨[], []⟩

theorem not_deadlock_idle (n : Nat) : ¬ Deadlock (idle n : Threads ι) := by
  intro h
  obtain ⟨i, j, t, t', m, m', -, ht, -, hm, -⟩ := h
  obtain ⟨-, rfl⟩ := List.mem_replicate.mp (List.mem_of_getElem? ht)
  cases hm

variable [DecidableEq ι]

/-- The next operation of a thread; an `acquire` goes through only if nobody holds the mutex. -/
def advance (s : Threads ι) (t : Thread ι) : Option (Thread ι) :=
  match t.rest with
  | [] => none
  | .acquire m :: rest => if ∀ t' ∈ s, m ∉ t'.held then some ⟨rest, m :: t.held⟩ else none
  | .release m :: rest => some ⟨rest, t.held.erase m⟩

def System.step (S : System ι κ) : Machine (Threads ι) (Act κ) Unit
  | s, .call i c =>
    match s[i]? with
    | some t => if S.may i c ∧ t.rest = [] then some ((), s.set i ⟨S.program c, t.held⟩) else none
    | none => none
  | s, .step i =>
    match s[i]? with
    | some t => (advance s t).map fun t' => ((), s.set i t')
    | none => none

/-! ### Proper calls -/

/-- The mutexes held when the operations are done. -/
def leaves : List (Op ι) → List ι → List ι
  | [], held => held
  | .acquire m :: rest, held => leaves rest (m :: held)
  | .release m :: rest, held => leaves rest (held.erase m)

/-- The thread will not acquire after a release, and release everything. -/
def Thread.Proper (t : Thread ι) : Prop := TwoPhase t.rest ∧ leaves t.rest t.held = []

def System.Proper (S : System ι κ) : Prop := ∀ c, Thread.Proper ⟨S.program c, []⟩

variable {S : System ι κ} {s s' : Threads ι} {t t' : Thread ι} {i : Nat} {a : Act κ}

/-- What an operation does. -/
theorem advance_cases (h : advance s t = some t') :
    (∃ m, t.rest = .acquire m :: t'.rest ∧ t'.held = m :: t.held ∧ ∀ x ∈ s, m ∉ x.held) ∨
    (∃ m, t.rest = .release m :: t'.rest ∧ t'.held = t.held.erase m) := by
  unfold advance at h
  split at h
  · cases h
  · next m rest hrest =>
    split at h
    · next hfree =>
      cases h
      exact .inl ⟨m, hrest, rfl, hfree⟩
    · cases h
  · next m rest hrest =>
    cases h
    exact .inr ⟨m, hrest, rfl⟩

/-- What a step does: one thread changes. -/
theorem step_cases (h : S.step s a = some ((), s')) :
    (∃ i c t, a = .call i c ∧ s[i]? = some t ∧ S.may i c = true ∧ t.rest = [] ∧
      s' = s.set i ⟨S.program c, t.held⟩) ∨
    (∃ i t t', a = .step i ∧ s[i]? = some t ∧ advance s t = some t' ∧ s' = s.set i t') := by
  cases a with
  | call i c =>
      simp only [System.step] at h
      split at h
      · next t ht =>
        split at h
        · next hok =>
          simp only [Option.some.injEq, Prod.mk.injEq, true_and] at h
          exact .inl ⟨i, c, t, rfl, ht, hok.1, hok.2, h.symm⟩
        · cases h
      · cases h
  | step i =>
      simp only [System.step] at h
      split at h
      · next t ht =>
        simp only [Option.map_eq_some_iff, Prod.mk.injEq, true_and] at h
        obtain ⟨t', hadv, rfl⟩ := h
        exact .inr ⟨i, t, t', rfl, ht, hadv, rfl⟩
      · cases h

theorem Thread.Proper.advance (h : t.Proper) (hadv : Mutex.advance s t = some t') :
    t'.Proper := by
  rcases advance_cases hadv with ⟨m, hrest, hheld, -⟩ | ⟨m, hrest, hheld⟩
  · exact ⟨(hrest ▸ h.1).tail, by rw [hheld]; have := h.2; rwa [hrest] at this⟩
  · exact ⟨(hrest ▸ h.1).tail, by rw [hheld]; have := h.2; rwa [hrest] at this⟩

theorem Thread.Proper.held_of_idle (h : t.Proper) (hrest : t.rest = []) : t.held = [] := by
  have := h.2
  rwa [hrest] at this

/-- The invariant of a run: all threads are proper. -/
def Sound (s : Threads ι) : Prop := ∀ t ∈ s, t.Proper

theorem sound_step (hS : S.Proper) (hs : Sound s) (h : S.step s a = some ((), s')) :
    Sound s' := by
  rcases step_cases h with ⟨i, c, t, -, ht, -, hrest, rfl⟩ | ⟨i, t, t', -, ht, hadv, rfl⟩
  · intro x hx
    rcases List.mem_or_eq_of_mem_set hx with hx | rfl
    · exact hs x hx
    · rw [(hs t (List.mem_of_getElem? ht)).held_of_idle hrest]
      exact hS c
  · intro x hx
    rcases List.mem_or_eq_of_mem_set hx with hx | rfl
    · exact hs x hx
    · exact (hs t (List.mem_of_getElem? ht)).advance hadv

theorem sound_idle (n : Nat) : Sound (idle n : Threads ι) := by
  intro t ht
  obtain ⟨-, rfl⟩ := List.mem_replicate.mp ht
  exact ⟨trivial, rfl⟩

/-! ### How a deadlock comes about -/

/-- A step that closes a circle leads to a deadlock. -/
theorem deadlock_of_closes (hc : Closes s i) (h : S.step s (.step i) = some ((), s')) :
    Deadlock s' := by
  obtain ⟨t, m, m', rest, j, t', x, ht, hrest, hji, ht', hm', hx, hw⟩ := hc
  rcases step_cases h with ⟨_, _, _, he, -⟩ | ⟨_, t₀, t₁, he, ht₀, hadv, rfl⟩
  · cases he
  · cases he
    obtain rfl : t = t₀ := Option.some.inj (ht.symm.trans ht₀)
    rcases advance_cases hadv with ⟨m₀, hrest₀, hheld, -⟩ | ⟨m₀, hrest₀, -⟩
    · rw [hrest] at hrest₀
      obtain ⟨hm, hrest₁⟩ := List.cons.inj hrest₀
      obtain rfl := Op.acquire.inj hm
      refine ⟨i, j, t₁, t', x, m', hji.symm, ?_, ?_, hheld ▸ hx, ⟨rest, hrest₁.symm⟩, hm', hw⟩
      · exact getElem?_set_of_some ht
      · rw [List.getElem?_set_ne hji.symm]
        exact ht'
    · rw [hrest] at hrest₀
      cases hrest₀

/-- **Step lemma.** From a sound state without deadlock only a step that closes a circle leads
to one. -/
theorem closes_of_deadlock (hs : Sound s) (hno : ¬ Deadlock s)
    (h : S.step s a = some ((), s')) (hd : Deadlock s') : ∃ i, a = .step i ∧ Closes s i := by
  obtain ⟨i, j, t, t', m, m', hij, ht, ht', hm, hw, hm', hw'⟩ := hd
  -- the thread that moved is one of the two
  have hother : ∀ {k : Nat} {x : Thread ι}, s' = s.set k x → k ≠ i → k ≠ j → False := by
    intro k x hk hki hkj
    rw [hk, List.getElem?_set_ne hki] at ht
    rw [hk, List.getElem?_set_ne hkj] at ht'
    exact hno ⟨i, j, t, t', m, m', hij, ht, ht', hm, hw, hm', hw'⟩
  -- and it took a mutex; by symmetry this is about either of them
  have hmoved : ∀ {i j : Nat} {t t' : Thread ι} {m m' : ι} {t₀ : Thread ι}, i ≠ j →
      s[i]? = some t₀ → advance s t₀ = some t → s[j]? = some t' → m ∈ t.held → t.Waits m' →
      m' ∈ t'.held → t'.Waits m → Closes s i := by
    intro i j t t' m m' t₀ hij ht₀ hadv ht' hm hw hm' hw'
    obtain ⟨rest, hrest⟩ := hw
    rcases advance_cases hadv with ⟨x, hrest₀, hheld, -⟩ | ⟨x, hrest₀, -⟩
    · exact ⟨t₀, x, m', rest, j, t', m, ht₀, hrest ▸ hrest₀, hij.symm, ht', hm', hheld ▸ hm, hw'⟩
    · have htp := (hs t₀ (List.mem_of_getElem? ht₀)).1
      rw [hrest₀, hrest] at htp
      obtain ⟨y, hy⟩ := htp _ List.mem_cons_self
      cases hy
  rcases step_cases h with ⟨k, c, x, rfl, hx, -, hrest, rfl⟩ | ⟨k, x, x', rfl, hx, hadv, rfl⟩
  · -- a thread that begins a call holds nothing
    have hheld := (hs x (List.mem_of_getElem? hx)).held_of_idle hrest
    have hnew : (s.set k ⟨S.program c, x.held⟩)[k]? = some ⟨S.program c, x.held⟩ :=
      getElem?_set_of_some hx
    by_cases hki : k = i
    · subst hki
      rw [hnew] at ht
      cases ht
      simp [hheld] at hm
    · by_cases hkj : k = j
      · subst hkj
        rw [hnew] at ht'
        cases ht'
        simp [hheld] at hm'
      · exact (hother rfl hki hkj).elim
  · have hnew : (s.set k x')[k]? = some x' := getElem?_set_of_some hx
    refine ⟨k, rfl, ?_⟩
    by_cases hki : k = i
    · subst hki
      rw [hnew] at ht
      cases ht
      rw [List.getElem?_set_ne hij] at ht'
      exact hmoved hij hx hadv ht' hm hw hm' hw'
    · by_cases hkj : k = j
      · subst hkj
        rw [hnew] at ht'
        cases ht'
        rw [List.getElem?_set_ne hij.symm] at ht
        exact hmoved hij.symm hx hadv ht hm' hw' hm hw
      · exact (hother rfl hki hkj).elim

/-- **Run lemma.** As long as no step closes a circle, all threads stay proper and there is no
deadlock. -/
theorem sound_of_open (hS : S.Proper) {n : Nat} {es : List (Act κ × Unit)}
    (h : Run S.step anyAction (idle n) es s)
    (hopen : ∀ es₁ i es₂ s₁, es = es₁ ++ (.step i, ()) :: es₂ →
      Run S.step anyAction (idle n) es₁ s₁ → ¬ Closes s₁ i) : Sound s ∧ ¬ Deadlock s := by
  induction h with
  | nil => exact ⟨sound_idle n, not_deadlock_idle n⟩
  | @snoc es t u a _ hrun _ hstep ih =>
      obtain ⟨hsound, hno⟩ := ih fun es₁ i es₂ s₁ hes => hopen es₁ i (es₂ ++ [(a, ())]) s₁
        (by simp [hes])
      refine ⟨sound_step hS hsound hstep, fun hd => ?_⟩
      -- only the last step can have led to a deadlock, and it would have closed a circle
      obtain ⟨i, rfl, hc⟩ := closes_of_deadlock hsound hno hstep hd
      exact hopen es i [] t rfl hrun hc

/-- **Freedom from deadlock.** A run of proper calls stays free of deadlock exactly as long as
none of its steps closes a circle. -/
theorem deadlock_free_iff (hS : S.Proper) {n : Nat} {es : List (Act κ × Unit)}
    (h : Run S.step anyAction (idle n) es s) :
    (∀ es₁ es₂ s₁, es = es₁ ++ es₂ → Run S.step anyAction (idle n) es₁ s₁ → ¬ Deadlock s₁) ↔
      ∀ es₁ i es₂ s₁, es = es₁ ++ (.step i, ()) :: es₂ →
        Run S.step anyAction (idle n) es₁ s₁ → ¬ Closes s₁ i := by
  constructor
  · intro hfree es₁ i es₂ s₁ hes h₁ hc
    subst hes
    obtain ⟨v, w, hv, -, hstep, -⟩ := h.at_step
    obtain rfl := hv.det h₁
    refine hfree (es₁ ++ [(.step i, ())]) es₂ w (by simp) (.snoc hv trivial hstep) ?_
    exact deadlock_of_closes hc hstep
  · intro hopen es₁ es₂ s₁ hes h₁
    refine (sound_of_open hS h₁ fun es₃ i es₄ s₂ he => ?_).2
    exact hopen es₃ i (es₄ ++ es₂) s₂ (by simp [hes, he])

end Mutex
