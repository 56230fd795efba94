import Mathlib.Algebra.Ring.Nat
import Mathlib.Data.List.Induction
/-!
# SimpleTaskQueue.Core.Runs

Runs of a **deterministic machine with an environment**. A machine is a partial
step function `σ → α → Option (ο × σ)`: the *action* `α` says which party moves
and what the environment answers, the *output* `ο` is what the step lets an
observer see. All interleaving is in the choice of the actions, so a statement
about every `Run` is a statement about every interleaving.

`Run step ok s es t` records the whole history `es` (actions with their outputs)
and carries an admissibility predicate `ok` on the state *before* each step. A
property of the state goes by `Run.invariant`, one of the history by induction on
the run, whose last step comes off first; `Run.map` is the simulation rule.
-/

namespace Runs

variable {σ α ο σ' α' ο' : Type*}

/-- A deterministic machine: `none` when the action is not enabled. -/
abbrev Machine (σ α ο : Type*) := σ → α → Option (ο × σ)

/-- `Run step ok s es t`: from `s` the machine reaches `t` by the steps `es`,
each of which was admissible (`ok`) in the state it was taken from. -/
inductive Run (step : Machine σ α ο) (ok : σ → α → Prop) (s : σ) : List (α × ο) → σ → Prop
  | nil : Run step ok s [] s
  | snoc {es : List (α × ο)} {t u : σ} {a : α} {o : ο} :
      Run step ok s es t → ok t a → step t a = some (o, u) →
      Run step ok s (es ++ [(a, o)]) u

/-- No restriction on the actions of a run. -/
abbrev anyAction : σ → α → Prop := fun _ _ => True

namespace Run

variable {step : Machine σ α ο} {ok ok' : σ → α → Prop} {s t u : σ} {es es' : List (α × ο)}

/-- **Invariant rule.** What holds at the start and is kept by every admissible step holds
after every run. -/
theorem invariant {I : σ → Prop} (h : Run step ok s es t) (h0 : I s)
    (hstep : ∀ t a o u, I t → ok t a → step t a = some (o, u) → I u) : I t := by
  induction h with
  | nil => exact h0
  | snoc _ hok hs ih => exact hstep _ _ _ _ ih hok hs

/-- **Ranking rule.** Where an invariant holds, each step costs no more than the rank goes down by:
then so do all steps together. -/
theorem ranked {I : σ → Prop} (rank : σ → Nat) (cost : α × ο → Nat) (h : Run step ok s es t)
    (h0 : I s) (hstep : ∀ t a o u, I t → ok t a → step t a = some (o, u) →
      I u ∧ cost (a, o) + rank u ≤ rank t) :
    I t ∧ (es.map cost).sum + rank t ≤ rank s := by
  induction h with
  | nil => exact ⟨h0, by simp⟩
  | @snoc es t u a o _ hok hs ih =>
      obtain ⟨hI, hle⟩ := ih
      obtain ⟨hI', hcost⟩ := hstep t a o u hI hok hs
      refine ⟨hI', ?_⟩
      rw [List.map_append, List.sum_append, List.map_singleton, List.sum_singleton]
      omega

theorem mono (h : Run step ok s es t) (hok : ∀ t a, ok t a → ok' t a) : Run step ok' s es t := by
  induction h with
  | nil => exact .nil
  | snoc _ ha hs ih => exact .snoc ih (hok _ _ ha) hs

theorem append (h : Run step ok s es t) (h' : Run step ok t es' u) :
    Run step ok s (es ++ es') u := by
  induction h' with
  | nil => simpa using h
  | snoc _ ha hs ih =>
      rw [← List.append_assoc]
      exact .snoc ih ha hs

theorem single {a : α} {o : ο} (ha : ok s a) (hs : step s a = some (o, t)) :
    Run step ok s [(a, o)] t := by
  have hnil : Run step ok s [] s := .nil
  exact hnil.snoc ha hs

/-- A run goes on with a step whose outcome is given as a pair. -/
theorem snoc_pair {a : α} {r : ο × σ} (h : Run step ok s es t) (ha : ok t a)
    (hs : step t a = some r) : Run step ok s (es ++ [(a, r.1)]) r.2 :=
  .snoc h ha hs

/-- The last step of a run. -/
theorem snoc_inv {e : α × ο} (h : Run step ok s (es ++ [e]) u) :
    ∃ t, Run step ok s es t ∧ ok t e.1 ∧ step t e.1 = some (e.2, u) := by
  generalize hes : es ++ [e] = xs at h
  cases h with
  | nil => simp at hes
  | @snoc es₁ t _ a o h₁ ha hs =>
      obtain ⟨rfl, he⟩ := List.append_inj' hes rfl
      obtain rfl : e = (a, o) := by simpa using he
      exact ⟨t, h₁, ha, hs⟩

/-- A run can be cut between any two of its steps. -/
theorem split (h : Run step ok s (es ++ es') u) :
    ∃ t, Run step ok s es t ∧ Run step ok t es' u := by
  induction es' using List.reverseRecOn generalizing u with
  | nil => exact ⟨u, by simpa using h, .nil⟩
  | append_singleton es' e ih =>
      rw [← List.append_assoc] at h
      obtain ⟨v, hv, ha, hs⟩ := h.snoc_inv
      obtain ⟨t, ht, htv⟩ := ih hv
      exact ⟨t, ht, .snoc htv ha hs⟩

/-- The first step of a run. -/
theorem cons_inv {e : α × ο} (h : Run step ok s (e :: es) u) :
    ∃ t, ok s e.1 ∧ step s e.1 = some (e.2, t) ∧ Run step ok t es u := by
  rw [← List.singleton_append] at h
  obtain ⟨t, h₁, h₂⟩ := h.split
  rw [← List.nil_append [e]] at h₁
  obtain ⟨v, hv, ha, hs⟩ := h₁.snoc_inv
  generalize hnil : ([] : List (α × ο)) = xs at hv
  cases hv with
  | nil => exact ⟨t, ha, hs, h₂⟩
  | snoc _ _ _ => simp at hnil

/-- The step at a given position of a run, with the state it was taken from. -/
theorem at_step {es₁ es₂ : List (α × ο)} {e : α × ο}
    (h : Run step ok s (es₁ ++ e :: es₂) u) :
    ∃ t v, Run step ok s es₁ t ∧ ok t e.1 ∧ step t e.1 = some (e.2, v) ∧
      Run step ok v es₂ u := by
  obtain ⟨t, h₁, h₂⟩ := h.split
  obtain ⟨v, ha, hs, h₃⟩ := h₂.cons_inv
  exact ⟨t, v, h₁, ha, hs, h₃⟩

/-- The machine is deterministic: the history determines the state. -/
theorem det (h : Run step ok s es t) (h' : Run step ok' s es u) : t = u := by
  induction h generalizing u with
  | nil =>
      generalize hnil : ([] : List (α × ο)) = xs at h'
      cases h' with
      | nil => rfl
      | snoc _ _ _ => simp at hnil
  | snoc _ _ hs ih =>
      obtain ⟨v, hv, -, hs'⟩ := h'.snoc_inv
      obtain rfl := ih hv
      rw [hs] at hs'
      simpa using hs'

/-- The machine is deterministic: the actions determine the history. -/
theorem det_actions (h : Run step ok s es t) (h' : Run step ok' s es' u)
    (hacts : es.map Prod.fst = es'.map Prod.fst) : es = es' ∧ t = u := by
  induction h generalizing es' u with
  | nil =>
      obtain rfl : es' = [] := List.map_eq_nil_iff.mp hacts.symm
      have hnil : Run step ok' s [] s := .nil
      exact ⟨rfl, hnil.det h'⟩
  | @snoc es t v a o _ _ hs ih =>
      cases h' with
      | nil => simp at hacts
      | @snoc es₁ t₁ _ b p h₁ _ hs' =>
          rw [List.map_append, List.map_append] at hacts
          obtain ⟨hpre, hlast⟩ := List.append_inj' hacts rfl
          obtain ⟨rfl, rfl⟩ := ih h₁ hpre
          obtain rfl : a = b := by simpa using hlast
          obtain ⟨rfl, rfl⟩ : o = p ∧ v = u := by simpa using hs.symm.trans hs'
          exact ⟨rfl, rfl⟩

/-- A run all of whose steps happen to satisfy a further condition. -/
theorem restrict (h : Run step ok s es u)
    (hok : ∀ es₁ a o es₂ t, es = es₁ ++ (a, o) :: es₂ → Run step ok s es₁ t → ok' t a) :
    Run step (fun t a => ok t a ∧ ok' t a) s es u := by
  induction h with
  | nil => exact .nil
  | @snoc es t u a o h₁ ha hs ih =>
      refine .snoc (ih fun es₁ b p es₂ v he hv => ?_) ⟨ha, hok es a o [] t rfl h₁⟩ hs
      exact hok es₁ b p (es₂ ++ [(a, o)]) v (by simp [he]) hv

/-- A run all of whose actions have a property. -/
theorem of_forall {P : α → Prop} (h : Run step ok s es t) (hP : ∀ e ∈ es, P e.1) :
    Run step (fun _ a => P a) s es t := by
  have hboth : Run step (fun t a => ok t a ∧ P a) s es t :=
    h.restrict fun es₁ a o es₂ t he _ => hP (a, o) (by simp [he])
  exact hboth.mono fun _ _ ha => ha.2

/-- **Exactness rule.** A property `P` of a state and of the history that led to it holds at every
moment of a run if and only if every step meets `C`: an invariant `I` that is stronger than `P` is
kept by the steps that meet `C`, and a step that does not meet it leads out of `P`. -/
theorem recorded_iff {P I : List (α × ο) → σ → Prop} {C : σ → α → Prop} (h : Run step ok s es t)
    (h₀ : I [] s) (hP : ∀ es t, I es t → P es t)
    (hgood : ∀ es₁ a o es₂ t u, es = es₁ ++ (a, o) :: es₂ → Run step ok s es₁ t → I es₁ t →
      ok t a → step t a = some (o, u) → C t a → I (es₁ ++ [(a, o)]) u)
    (hbad : ∀ es₁ a o es₂ t u, es = es₁ ++ (a, o) :: es₂ → Run step ok s es₁ t → I es₁ t →
      ok t a → step t a = some (o, u) → ¬ C t a → ¬ P (es₁ ++ [(a, o)]) u) :
    (∀ es₁ es₂ t, es = es₁ ++ es₂ → Run step ok s es₁ t → P es₁ t) ↔
      ∀ es₁ a o es₂ t, es = es₁ ++ (a, o) :: es₂ → Run step ok s es₁ t → C t a := by
  have hinv : (∀ es₁ a o es₂ t, es = es₁ ++ (a, o) :: es₂ → Run step ok s es₁ t → I es₁ t →
      C t a) → ∀ es₁ es₂ t, es = es₁ ++ es₂ → Run step ok s es₁ t → I es₁ t := by
    intro hC es₁ es₂ t he ht
    induction ht generalizing es₂ with
    | nil => exact h₀
    | @snoc es₁ t u a o ht hok hs ih =>
        have he' : es = es₁ ++ (a, o) :: es₂ := by simp [he]
        have hI : I es₁ t := ih _ he'
        exact hgood _ _ _ _ _ _ he' ht hI hok hs (hC _ _ _ _ _ he' ht hI)
  constructor
  · intro hall
    have hC : ∀ es₁ a o es₂ t, es = es₁ ++ (a, o) :: es₂ → Run step ok s es₁ t → I es₁ t →
        C t a := by
      intro es₁ a o es₂ t he ht hI
      by_contra hno
      obtain ⟨v, u, hv, hok, hs, -⟩ := (he ▸ h).at_step
      obtain rfl := hv.det ht
      exact hbad _ _ _ _ _ _ he ht hI hok hs hno (hall _ es₂ u (by simp [he]) (ht.snoc hok hs))
    intro es₁ a o es₂ t he ht
    exact hC _ _ _ _ _ he ht (hinv hC _ _ _ he ht)
  · intro hC es₁ es₂ t he ht
    exact hP _ _ (hinv (fun _ _ _ _ _ he ht _ => hC _ _ _ _ _ he ht) _ _ _ he ht)

/-- The same for a property of the state alone. -/
theorem always_iff {P I : σ → Prop} {C : σ → α → Prop} (h : Run step ok s es t) (h₀ : I s)
    (hP : ∀ t, I t → P t)
    (hgood : ∀ es t a o u, Run step ok s es t → I t → ok t a → step t a = some (o, u) → C t a → I u)
    (hbad : ∀ es t a o u, Run step ok s es t → I t → ok t a → step t a = some (o, u) →
      ¬ C t a → ¬ P u) :
    (∀ es₁ es₂ t, es = es₁ ++ es₂ → Run step ok s es₁ t → P t) ↔
      ∀ es₁ a o es₂ t, es = es₁ ++ (a, o) :: es₂ → Run step ok s es₁ t → C t a :=
  h.recorded_iff (P := fun _ => P) (I := fun _ => I) h₀ (fun _ => hP)
    (fun _ _ _ _ _ _ _ ht hI hok hs => hgood _ _ _ _ _ ht hI hok hs)
    fun _ _ _ _ _ _ _ ht hI hok hs => hbad _ _ _ _ _ ht hI hok hs

/-- **Simulation rule.** A map of states, actions and outputs that turns every
admissible step into an admissible step turns runs into runs. -/
theorem map {step' : Machine σ' α' ο'} {ok' : σ' → α' → Prop} (f : σ → σ')
    (g : α × ο → List (α' × ο')) (h : Run step ok s es t)
    (hstep : ∀ es t a o u, Run step ok s es t → ok t a → step t a = some (o, u) →
      Run step' ok' (f t) (g (a, o)) (f u)) :
    Run step' ok' (f s) (es.flatMap g) (f t) := by
  induction h with
  | nil => exact .nil
  | @snoc es t u a o h₁ ha hs ih =>
      rw [List.flatMap_append]
      simpa using ih.append (hstep es t a o u h₁ ha hs)

/-- **Forward simulation.** A relation that every admissible step of the one machine takes along
some steps of the other turns runs into runs. -/
theorem simulate {step' : Machine σ' α' ο'} {ok' : σ' → α' → Prop} (R : σ → σ' → Prop)
    (g : α × ο → List (α' × ο')) {x : σ'} (h : Run step ok s es t) (h₀ : R s x)
    (hstep : ∀ es t a o u x, Run step ok s es t → R t x → ok t a → step t a = some (o, u) →
      ∃ y, R u y ∧ Run step' ok' x (g (a, o)) y) :
    ∃ y, R t y ∧ Run step' ok' x (es.flatMap g) y := by
  induction h with
  | nil => exact ⟨x, h₀, .nil⟩
  | @snoc es t u a o h₁ ha hs ih =>
      obtain ⟨y, hy, hrun⟩ := ih
      obtain ⟨z, hz, hnext⟩ := hstep es t a o u y h₁ hy ha hs
      refine ⟨z, hz, ?_⟩
      rw [List.flatMap_append]
      simpa using hrun.append hnext

end Run

/-- **Lock step.** Where the relation holds, two machines admit the same actions, and either both
make the step, with the same output, or neither does. -/
structure LockStep (step : Machine σ α ο) (ok : σ → α → Prop) (step' : Machine σ' α ο)
    (ok' : σ' → α → Prop) (R : σ → σ' → Prop) : Prop where
  admits : ∀ {s x a}, R s x → (ok s a ↔ ok' x a)
  same : ∀ {s x a}, R s x → ok s a →
    Option.Rel (fun p q => p.1 = q.1 ∧ R p.2 q.2) (step s a) (step' x a)

namespace LockStep

variable {step : Machine σ α ο} {step' : Machine σ' α ο} {ok : σ → α → Prop} {ok' : σ' → α → Prop}
  {R : σ → σ' → Prop} {s t : σ} {x : σ'} {es : List (α × ο)}

theorem symm (h : LockStep step ok step' ok' R) : LockStep step' ok' step ok fun x s => R s x where
  admits hR := (h.admits hR).symm
  same hR ha := by
    have hsame := h.same hR ((h.admits hR).mpr ha)
    revert hsame
    generalize step _ _ = p
    generalize step' _ _ = q
    rintro (⟨ho, hu⟩ | _)
    · exact .some ⟨ho.symm, hu⟩
    · exact .none

/-- A run of the one machine is a run of the other. -/
theorem run (h : LockStep step ok step' ok' R) (hR : R s x) (hrun : Run step ok s es t) :
    ∃ y, R t y ∧ Run step' ok' x es y := by
  induction hrun with
  | nil => exact ⟨x, hR, .nil⟩
  | @snoc es t u a o _ ha hs ih =>
      obtain ⟨y, hy, hrun'⟩ := ih
      have hsame := h.same hy ha
      rw [hs] at hsame
      generalize hs' : step' y a = r at hsame
      obtain ⟨ho, hz⟩ | _ := hsame
      next q =>
      obtain ⟨o', z⟩ := q
      obtain rfl : o = o' := ho
      exact ⟨z, hz, hrun'.snoc ((h.admits hy).mp ha) hs'⟩

end LockStep

/-- Where a step of the simulating run comes from, when no step is simulated by more than one. -/
theorem flatMap_at {α β : Type*} {g : α → List β} (hg : ∀ a, (g a).length ≤ 1) {es : List α}
    {es₁ es₂ : List β} {e : β} (h : es.flatMap g = es₁ ++ e :: es₂) :
    ∃ as a bs, es = as ++ a :: bs ∧ as.flatMap g = es₁ ∧ g a = [e] := by
  induction es generalizing es₁ with
  | nil => simp at h
  | cons a as ih =>
      rw [List.flatMap_cons] at h
      match hga : g a with
      | [] =>
          rw [hga, List.nil_append] at h
          obtain ⟨as₁, b, bs, rfl, h₁, hb⟩ := ih h
          refine ⟨a :: as₁, b, bs, rfl, ?_, hb⟩
          rw [List.flatMap_cons, hga, List.nil_append, h₁]
      | [x] =>
          rw [hga, List.singleton_append] at h
          cases es₁ with
          | nil =>
              obtain ⟨rfl, -⟩ := List.cons_eq_cons.mp h
              exact ⟨[], a, as, rfl, rfl, hga⟩
          | cons y es₁ =>
              rw [List.cons_append] at h
              obtain ⟨rfl, htail⟩ := List.cons_eq_cons.mp h
              obtain ⟨as₁, b, bs, rfl, h₁, hb⟩ := ih htail
              refine ⟨a :: as₁, b, bs, rfl, ?_, hb⟩
              rw [List.flatMap_cons, hga, h₁]
              rfl
      | x :: y :: zs =>
          have hlen := hg a
          rw [hga] at hlen
          simp at hlen

/-! ### Executing a list of actions -/

/-- Run the machine on a list of actions, checking admissibility on the way. -/
def exec (step : Machine σ α ο) (ok : σ → α → Bool) : σ → List α → Option (List (α × ο) × σ)
  | s, [] => some ([], s)
  | s, a :: as =>
    if ok s a then
      match step s a with
      | some (o, t) => (exec step ok t as).map fun r => ((a, o) :: r.1, r.2)
      | none => none
    else none

theorem Run.of_exec {step : Machine σ α ο} {ok : σ → α → Bool} {s t : σ} {as : List α}
    {es : List (α × ο)} (h : exec step ok s as = some (es, t)) :
    Run step (fun s a => ok s a = true) s es t := by
  induction as generalizing s es with
  | nil =>
      obtain ⟨rfl, rfl⟩ : [] = es ∧ s = t := by simpa [exec] using h
      exact .nil
  | cons a as ih =>
      rw [exec] at h
      split at h
      · next ha =>
        split at h
        · next o v hs =>
          simp only [Option.map_eq_some_iff, Prod.mk.injEq] at h
          obtain ⟨⟨es', t'⟩, hr, rfl, rfl⟩ := h
          have hone : Run step (fun s a => ok s a = true) s [(a, o)] v := .single ha hs
          exact hone.append (ih hr)
        · simp at h
      · simp at h

/-- Executing a list of actions performs these actions. -/
theorem exec_actions {step : Machine σ α ο} {ok : σ → α → Bool} {s t : σ} {as : List α}
    {es : List (α × ο)} (h : exec step ok s as = some (es, t)) : es.map Prod.fst = as := by
  induction as generalizing s es with
  | nil =>
      obtain ⟨rfl, rfl⟩ : [] = es ∧ s = t := by simpa [exec] using h
      rfl
  | cons a as ih =>
      rw [exec] at h
      split at h
      · split at h
        · simp only [Option.map_eq_some_iff, Prod.mk.injEq] at h
          obtain ⟨⟨es', t'⟩, hr, rfl, rfl⟩ := h
          exact congrArg (a :: ·) (ih hr)
        · simp at h
      · simp at h

section Script

variable {step : Machine σ α ο} {ok : σ → α → Prop} [∀ s a, Decidable (ok s a)] {s : σ}

/-- Executing a list of admissible actions. -/
abbrev script (step : Machine σ α ο) (ok : σ → α → Prop) [∀ s a, Decidable (ok s a)] (s : σ)
    (as : List α) : Option (List (α × ο) × σ) :=
  exec step (fun s a => decide (ok s a)) s as

/-- A script that goes through is a run. -/
theorem Run.of_script {as : List α} (h : (script step ok s as).isSome = true) :
    Run step ok s ((script step ok s as).get h).1 ((script step ok s as).get h).2 :=
  (Run.of_exec (Option.some_get h).symm).mono fun _ _ => of_decide_eq_true

/-- What holds of the actions of a script holds of the actions of its history. -/
theorem forall_script {as : List α} (h : (script step ok s as).isSome = true) {P : α → Prop}
    (hP : ∀ a ∈ as, P a) : ∀ e ∈ ((script step ok s as).get h).1, P e.1 := by
  intro e he
  refine hP _ ?_
  rw [← exec_actions (Option.some_get h).symm]
  exact List.mem_map_of_mem he

end Script

/-! ### Machines of several parties

A step of one party sets its place in the list of all. -/

section Parties

variable {β : Type*} {ps : List β} {i j : Nat} {p p' x : β}

theorem getElem?_set_of_some (hp : ps[i]? = some p) : (ps.set i p')[i]? = some p' := by
  rw [List.getElem?_set_self', hp]
  rfl

/-- Behind the step every party is the one that moved or as before. -/
theorem getElem?_set_some (hx : (ps.set i p')[j]? = some x) :
    i = j ∧ x = p' ∨ i ≠ j ∧ ps[j]? = some x := by
  by_cases hij : i = j
  · subst hij
    have hlt : i < (ps.set i p').length := (List.getElem?_eq_some_iff.mp hx).1
    rw [List.length_set] at hlt
    rw [List.getElem?_set_self hlt] at hx
    exact .inl ⟨rfl, (Option.some.inj hx).symm⟩
  · exact .inr ⟨hij, List.getElem?_set_ne hij ▸ hx⟩

/-- A measure of all parties changes as that of the one that moved. -/
theorem sum_map_set {f : β → Nat} (hp : ps[i]? = some p) :
    ((ps.set i p').map f).sum + f p = (ps.map f).sum + f p' := by
  induction ps generalizing i with
  | nil => simp at hp
  | cons x xs ih =>
      cases i with
      | zero =>
          obtain rfl : x = p := by simpa using hp
          simp only [List.set_cons_zero, List.map_cons, List.sum_cons]
          omega
      | succ i =>
          have hxs := ih (i := i) (by simpa using hp)
          simp only [List.set_cons_succ, List.map_cons, List.sum_cons]
          omega

/-- A party joins. -/
theorem getElem?_concat_some (hx : (ps ++ [p'])[j]? = some x) :
    j = ps.length ∧ x = p' ∨ j < ps.length ∧ ps[j]? = some x := by
  rcases Nat.lt_or_ge j ps.length with hlt | hge
  · rw [List.getElem?_append_left hlt] at hx
    exact .inr ⟨hlt, hx⟩
  · have hj := (List.getElem?_eq_some_iff.mp hx).1
    rw [List.length_append, List.length_singleton] at hj
    obtain rfl : j = ps.length := by omega
    rw [List.getElem?_concat_length] at hx
    exact .inl ⟨rfl, (Option.some.inj hx).symm⟩

end Parties

end Runs
