import Mathlib.Data.List.Nodup
import Mathlib.Data.List.Pairwise
import SimpleTaskQueue.Core.Runs
/-!
# SimpleTaskQueue.Core.Linearizable

**Concurrent calls on a server** that looks up what a call is about (`find`) before it carries the
call out (`act`). Calls are sent, and answered, at any time; between any two steps of one call
others make theirs, and the server takes steps of its own.

`seq` is the sequential server, on which nothing comes between `find` and `act`. A run in which
every call acts on what it would still find (`Current`) is **linearizable**: in the order in which
the calls acted, the sequential server gives the same results, and a call that was answered before
another was sent comes before it in that order (`Run.linearizable`). All this is said about what the
clients see of the run, its `history`.
-/

namespace Linearizable

open Runs

variable {σ α κ ο : Type*}

/-- A server whose calls take two steps. -/
structure Server (σ α κ ο : Type*) where
  find : σ → α → κ
  act : σ → κ → α → Option (ο × σ)

/-- The sequential server. -/
def Server.seq (S : Server σ α κ ο) : Machine σ α ο := fun s a => S.act s (S.find s a) a

/-- How far a call has got. -/
inductive Call (α κ ο : Type*)
  | sent (a : α)
  | found (a : α) (k : κ)
  | done (a : α) (o : ο)
  | answered (a : α) (o : ο)

namespace Call

def action : Call α κ ο → α
  | sent a | found a _ | done a _ | answered a _ => a

def result : Call α κ ο → Option ο
  | sent _ | found _ _ => none
  | done _ o | answered _ o => some o

/-- What the call has found and not yet acted on. -/
def key : Call α κ ο → Option κ
  | found _ k => some k
  | _ => none

end Call

/-- The server, and all calls so far. -/
structure State (σ α κ ο : Type*) where
  server : σ
  calls : List (Call α κ ο)

inductive Move (α : Type*)
  | send (a : α)
  | find (i : Nat)
  | act (i : Nat)
  | answer (i : Nat)
  /-- A step of the server's own. -/
  | own (a : α)
  deriving Repr, DecidableEq

inductive Event (α ο : Type*)
  | sent (i : Nat)
  | found (i : Nat)
  /-- The server made the step `a`, for the call `i` or of its own. -/
  | acted (i : Option Nat) (a : α) (o : ο)
  | answered (i : Nat) (o : ο)
  deriving Repr, DecidableEq

variable (S : Server σ α κ ο)

/-- **The machine.** -/
def step : Machine (State σ α κ ο) (Move α) (Event α ο)
  | s, .send a => some (.sent s.calls.length, { s with calls := s.calls ++ [.sent a] })
  | s, .find i =>
    match s.calls[i]? with
    | some (.sent a) =>
      some (.found i, { s with calls := s.calls.set i (.found a (S.find s.server a)) })
    | _ => none
  | s, .act i =>
    match s.calls[i]? with
    | some (.found a k) => (S.act s.server k a).map fun r =>
        (.acted (some i) a r.1, ⟨r.2, s.calls.set i (.done a r.1)⟩)
    | _ => none
  | s, .answer i =>
    match s.calls[i]? with
    | some (.done a o) => some (.answered i o, { s with calls := s.calls.set i (.answered a o) })
    | _ => none
  | s, .own a => (S.seq s.server a).map fun r => (.acted none a r.1, { s with server := r.2 })

/-- What the server does in a move, with what was found for it. -/
def acting (s : State σ α κ ο) : Move α → Option (α × κ)
  | .act i =>
    match s.calls[i]? with
    | some (.found a k) => some (a, k)
    | _ => none
  | .own a => some (a, S.find s.server a)
  | _ => none

/-- A discipline of what the server does. -/
def OnAct (C : σ → κ → α → Prop) (s : State σ α κ ο) (m : Move α) : Prop :=
  ∀ p ∈ acting S s m, C s.server p.2 p.1

instance (C : σ → κ → α → Prop) [∀ x k a, Decidable (C x k a)] (s : State σ α κ ο) (m : Move α) :
    Decidable (OnAct S C s m) :=
  inferInstanceAs (Decidable (∀ _ ∈ _, _))

/-- The call that acts would still find what it has found. -/
def Current (s : State σ α κ ο) : Move α → Prop
  | .act i => ∀ a k, s.calls[i]? = some (.found a k) → S.find s.server a = k
  | _ => True

variable {S}

/-- The call `i` is for `a`. -/
def Sent (es : List (Move α × Event α ο)) (i : Nat) (a : α) : Prop :=
  (Move.send a, Event.sent i) ∈ es

/-- The steps of the server, each with the call it was made for. -/
def acted (es : List (Move α × Event α ο)) : List (Option Nat × α × ο) :=
  es.filterMap fun e => match e.2 with
    | .acted i a o => some (i, a, o)
    | _ => none

/-- The answer to the call `i` came before the call `j` was sent. -/
def Precedes (es : List (Move α × Event α ο)) (i j : Nat) : Prop :=
  ∃ es₁ o es₂ a es₃, es = es₁ ++ (Move.answer i, Event.answered i o) :: es₂ ++
    (Move.send a, Event.sent j) :: es₃

/-- What the clients see of a step. -/
inductive Visible (α ο : Type*)
  | sent (i : Nat) (a : α)
  | answered (i : Nat) (o : ο)
  deriving Repr, DecidableEq

def visible : Move α × Event α ο → Option (Visible α ο)
  | (.send a, .sent i) => some (.sent i a)
  | (_, .answered i o) => some (.answered i o)
  | _ => none

/-- What the clients see. -/
def history (es : List (Move α × Event α ο)) : List (Visible α ο) := es.filterMap visible

/-- The call `i` was answered before the call `j` was sent. -/
def Before (h : List (Visible α ο)) (i j : Nat) : Prop :=
  ∃ h₁ o h₂ a h₃, h = h₁ ++ .answered i o :: h₂ ++ .sent j a :: h₃

variable {es es' : List (Move α × Event α ο)} {s t u : State σ α κ ο} {m : Move α} {e : Event α ο}
  {i j : Nat} {a : α} {o : ο} {c : Call α κ ο}

@[simp] theorem acted_append : acted (es ++ es') = acted es ++ acted es' :=
  List.filterMap_append

theorem Sent.append (h : Sent es i a) : Sent (es ++ es') i a := List.mem_append_left _ h

/-! ### The steps -/

/-- What a step can do. -/
inductive Step (S : Server σ α κ ο) (s : State σ α κ ο) :
    Move α → Event α ο → State σ α κ ο → Prop
  | send {a : α} :
      Step S s (.send a) (.sent s.calls.length) { s with calls := s.calls ++ [.sent a] }
  | find {i : Nat} {a : α} (hc : s.calls[i]? = some (.sent a)) : Step S s (.find i) (.found i)
      { s with calls := s.calls.set i (.found a (S.find s.server a)) }
  | act {i : Nat} {a : α} {k : κ} {o : ο} {x : σ} (hc : s.calls[i]? = some (.found a k))
      (ha : S.act s.server k a = some (o, x)) :
      Step S s (.act i) (.acted (some i) a o) ⟨x, s.calls.set i (.done a o)⟩
  | answer {i : Nat} {a : α} {o : ο} (hc : s.calls[i]? = some (.done a o)) :
      Step S s (.answer i) (.answered i o) { s with calls := s.calls.set i (.answered a o) }
  | own {a : α} {o : ο} {x : σ} (ha : S.seq s.server a = some (o, x)) :
      Step S s (.own a) (.acted none a o) { s with server := x }

theorem Step.of_step (h : step S s m = some (e, u)) : Step S s m e u := by
  cases m with
  | send a =>
      cases h
      exact .send
  | find i =>
      simp only [step] at h
      split at h
      · next hc =>
        cases h
        exact .find hc
      · cases h
  | act i =>
      simp only [step] at h
      split at h
      · next hc =>
        simp only [Option.map_eq_some_iff, Prod.mk.injEq] at h
        obtain ⟨⟨o, x⟩, ha, rfl, rfl⟩ := h
        exact .act hc ha
      · cases h
  | answer i =>
      simp only [step] at h
      split at h
      · next hc =>
        cases h
        exact .answer hc
      · cases h
  | own a =>
      simp only [step, Option.map_eq_some_iff, Prod.mk.injEq] at h
      obtain ⟨⟨o, x⟩, ha, rfl, rfl⟩ := h
      exact .own ha

/-- The server moves only when a call acts, or by itself. -/
theorem Step.server (h : Step S s m e u) :
    (∃ i a o k, e = .acted i a o ∧ acting S s m = some (a, k) ∧
      S.act s.server k a = some (o, u.server)) ∨
    (∀ i a o, e ≠ .acted i a o) ∧ u.server = s.server := by
  cases h with
  | send | find | answer => exact .inr ⟨by simp, rfl⟩
  | @act i a k o x hc ha => exact .inl ⟨_, a, o, k, rfl, by simp [acting, hc], ha⟩
  | own ha => exact .inl ⟨_, _, _, _, rfl, rfl, ha⟩

/-! ### What the history says about the calls -/

/-- The calls are those of the history, with the results they got when they acted. -/
structure Recorded (es : List (Move α × Event α ο)) (s : State σ α κ ο) : Prop where
  sent : ∀ i c, s.calls[i]? = some c → Sent es i c.action
  result : ∀ i c a o, s.calls[i]? = some c →
    ((some i, a, o) ∈ acted es ↔ c.action = a ∧ c.result = some o)
  known : ∀ i a o, (some i, a, o) ∈ acted es → i < s.calls.length
  once : ((acted es).filterMap Prod.fst).Nodup

/-- A step that leaves the results alone. -/
theorem Recorded.set (h : Recorded es s) {c' : Call α κ ο} (hc : s.calls[i]? = some c)
    (ha : c'.action = c.action) (hr : c'.result = c.result) (hes : acted es' = []) :
    Recorded (es ++ es') { s with calls := s.calls.set i c' } where
  sent := by
    intro j d hd
    rcases getElem?_set_some hd with ⟨rfl, rfl⟩ | ⟨-, hd⟩
    · exact ha ▸ (h.sent _ _ hc).append
    · exact (h.sent _ _ hd).append
  result := by
    intro j d b o hd
    rw [acted_append, hes, List.append_nil]
    rcases getElem?_set_some hd with ⟨rfl, rfl⟩ | ⟨-, hd⟩
    · rw [ha, hr]
      exact h.result _ _ b o hc
    · exact h.result _ _ b o hd
  known := by
    intro j b o hj
    rw [acted_append, hes, List.append_nil] at hj
    rw [List.length_set]
    exact h.known _ _ _ hj
  once := by
    rw [acted_append, hes, List.append_nil]
    exact h.once

/-- **Step lemma.** -/
theorem Recorded.step (h : Recorded es s) (hs : Step S s m e u) : Recorded (es ++ [(m, e)]) u := by
  cases hs with
  | @send a =>
      have hnew : acted (es ++ [(Move.send a, Event.sent s.calls.length)]) = acted es := by
        rw [acted_append]
        exact List.append_nil _
      refine ⟨fun i c hc => ?_, fun i c b o hc => ?_, fun i b o hi => ?_, hnew ▸ h.once⟩
      · rcases getElem?_concat_some hc with ⟨rfl, rfl⟩ | ⟨-, hc⟩
        · exact List.mem_append_right _ (List.mem_singleton.mpr rfl)
        · exact (h.sent _ _ hc).append
      · rw [hnew]
        rcases getElem?_concat_some hc with ⟨rfl, rfl⟩ | ⟨-, hc⟩
        · -- the new call has not acted yet
          refine iff_of_false (fun hi => ?_) (fun hr => by cases hr.2)
          exact absurd (h.known _ _ _ hi) (Nat.lt_irrefl _)
        · exact h.result _ _ b o hc
      · rw [hnew] at hi
        have hlt := h.known _ _ _ hi
        rw [List.length_append]
        omega
  | find hc => exact h.set hc rfl rfl rfl
  | answer hc => exact h.set hc rfl rfl rfl
  | @act i a k o x hc ha =>
      have hnew : acted (es ++ [(Move.act i, Event.acted (some i) a o)]) =
          acted es ++ [(some i, a, o)] := acted_append
      have hno : ∀ b o', (some i, b, o') ∉ acted es := by
        intro b o' hi
        cases ((h.result _ _ b o' hc).mp hi).2
      refine ⟨fun j d hd => ?_, fun j d b o' hd => ?_, fun j b o' hj => ?_, ?_⟩
      · rcases getElem?_set_some hd with ⟨rfl, rfl⟩ | ⟨-, hd⟩
        · exact (h.sent _ _ hc).append
        · exact (h.sent _ _ hd).append
      · rw [hnew, List.mem_append, List.mem_singleton]
        rcases getElem?_set_some hd with ⟨rfl, rfl⟩ | ⟨hij, hd⟩
        · simp only [hno, false_or, Prod.mk.injEq, true_and, Call.action, Call.result,
            Option.some.injEq, eq_comm]
        · rw [← h.result _ _ b o' hd, or_iff_left]
          intro heq
          exact hij (Option.some.inj (Prod.mk.inj heq).1).symm
      · rw [hnew, List.mem_append, List.mem_singleton] at hj
        rw [List.length_set]
        rcases hj with hj | hj
        · exact h.known _ _ _ hj
        · obtain rfl := Option.some.inj (Prod.mk.inj hj).1
          exact (List.getElem?_eq_some_iff.mp hc).1
      · rw [hnew, List.filterMap_append, List.nodup_append]
        refine ⟨h.once, List.nodup_singleton i, fun j hj j' hj' => ?_⟩
        obtain rfl : j' = i := List.mem_singleton.mp hj'
        obtain ⟨⟨l, b, o'⟩, hmem, hl⟩ := List.mem_filterMap.mp hj
        intro hji
        subst hji
        obtain rfl : l = some j := hl
        exact hno b o' hmem
  | @own a o x ha =>
      have hnew : acted (es ++ [(Move.own a, Event.acted none a o)]) =
          acted es ++ [(none, a, o)] := acted_append
      have hmem : ∀ i b o', (some i, b, o') ∈ acted es ++ [(none, a, o)] ↔
          (some i, b, o') ∈ acted es := by
        intro i b o'
        simp [List.mem_append]
      refine ⟨fun i c hc => (h.sent i c hc).append, fun i c b o' hc => ?_, fun i b o' hi => ?_, ?_⟩
      · rw [hnew, hmem]
        exact h.result i c b o' hc
      · rw [hnew, hmem] at hi
        exact h.known i b o' hi
      · rw [hnew, List.filterMap_append]
        simpa using h.once

variable {s₀ : σ} {ok : State σ α κ ο → Move α → Prop}

/-- **Run lemma.** -/
theorem run_recorded (h : Run (step S) ok ⟨s₀, []⟩ es t) : Recorded es t := by
  induction h with
  | nil => exact ⟨by simp, by simp, by simp [acted], List.nodup_nil⟩
  | snoc _ _ hs ih => exact ih.step (.of_step hs)

/-! ### Linearizability -/

/-- The sequential server makes the same steps. -/
theorem run_seq (h : Run (step S) (Current S) ⟨s₀, []⟩ es t) :
    Run S.seq anyAction s₀ ((acted es).map Prod.snd) t.server := by
  induction h with
  | nil => exact .nil
  | @snoc es s u m e _ hok hs ih =>
      rw [acted_append, List.map_append]
      cases Step.of_step hs with
      | send | find | answer => exact (List.append_nil _).symm ▸ ih
      | @act i a k o x hc ha =>
          -- what the call has found is what it would find now
          obtain rfl := hok a k hc
          exact ih.snoc trivial ha
      | own ha => exact ih.snoc trivial ha

/-- An answer was the result. -/
theorem answered_acted (h : Run (step S) ok ⟨s₀, []⟩ es t)
    (ha : (Move.answer i, Event.answered i o) ∈ es) :
    ∃ a, Sent es i a ∧ (some i, a, o) ∈ acted es := by
  obtain ⟨es₁, es₂, rfl⟩ := List.append_of_mem ha
  obtain ⟨s, u, h₁, -, hs, -⟩ := h.at_step
  have hrec := run_recorded h₁
  cases Step.of_step hs with
  | @answer _ a _ hc =>
      refine ⟨a, (hrec.sent _ _ hc).append, ?_⟩
      rw [acted_append]
      exact List.mem_append_left _ ((hrec.result _ _ a o hc).mpr ⟨rfl, rfl⟩)

/-- A call that is sent after an answer acts after the call that was answered. -/
theorem sublist_of_precedes (h : Run (step S) ok ⟨s₀, []⟩ es t) (hij : Precedes es i j)
    (hj : some j ∈ (acted es).map Prod.fst) :
    [some i, some j].Sublist ((acted es).map Prod.fst) := by
  obtain ⟨es₁, o, es₂, a, es₃, rfl⟩ := hij
  obtain ⟨s, u, h₁, -, hs, -⟩ := h.at_step
  have hrec := run_recorded h₁
  -- the call `j` has not acted when it is sent
  have hlast : some j ∈ (acted es₃).map Prod.fst := by
    obtain ⟨⟨l, b, o'⟩, hmem, rfl⟩ := List.mem_map.mp hj
    rw [acted_append, List.mem_append] at hmem
    rcases hmem with hmem | hmem
    · cases Step.of_step hs with
      | send => exact absurd (hrec.known _ _ _ hmem) (by omega)
    · exact List.mem_map.mpr ⟨_, hmem, rfl⟩
  obtain ⟨b, -, hmem⟩ := answered_acted h₁ (List.mem_append_right _ (List.mem_cons_self ..))
  have hfirst : some i ∈ (acted (es₁ ++ (Move.answer i, Event.answered i o) :: es₂)).map Prod.fst :=
    List.mem_map.mpr ⟨_, hmem, rfl⟩
  rw [acted_append, List.map_append]
  exact (List.singleton_sublist.mpr hfirst).append (List.singleton_sublist.mpr hlast)

/-- A call has one result. -/
theorem acted_unique {b : α} {p : ο} (h : Run (step S) ok ⟨s₀, []⟩ es t)
    (ha : (some i, a, o) ∈ acted es) (hb : (some i, b, p) ∈ acted es) : a = b ∧ o = p := by
  have hrec := run_recorded h
  obtain ⟨c, hc⟩ : ∃ c, t.calls[i]? = some c := ⟨_, List.getElem?_eq_getElem (hrec.known i a o ha)⟩
  obtain ⟨rfl, hr⟩ := (hrec.result i c a o hc).mp ha
  obtain ⟨rfl, hr'⟩ := (hrec.result i c b p hc).mp hb
  exact ⟨rfl, Option.some.inj (hr.symm.trans hr')⟩

/-- **Real time.** What relates each step of the server to all later ones relates two calls one way
or the other, and in the order in which they were made if they do not overlap. -/
theorem Run.real_time {R : α × ο → α × ο → Prop} {p : ο} (h : Run (step S) ok ⟨s₀, []⟩ es t)
    (hR : (acted es).Pairwise fun x y => R x.2 y.2)
    (hi : (Move.answer i, Event.answered i o) ∈ es) (hj : (Move.answer j, Event.answered j p) ∈ es)
    (hij : i ≠ j) : ∃ a b, Sent es i a ∧ Sent es j b ∧ (R (a, o) (b, p) ∨ R (b, p) (a, o)) ∧
      (Precedes es i j → R (a, o) (b, p)) := by
  obtain ⟨a, hsa, ha⟩ := answered_acted h hi
  obtain ⟨b, hsb, hb⟩ := answered_acted h hj
  refine ⟨a, b, hsa, hsb, ?_, fun hpre => ?_⟩
  · have hsymm : Std.Symm fun x y : Option Nat × α × ο => R x.2 y.2 ∨ R y.2 x.2 :=
      ⟨fun _ _ => Or.symm⟩
    have hone := (hR.imp fun hr => Or.inl hr : (acted es).Pairwise fun x y => R x.2 y.2 ∨ R y.2 x.2)
    refine hone.forall ha hb fun he => hij ?_
    exact Option.some.inj (Prod.mk.inj he).1
  · -- the two steps at the places of the calls are those of the calls
    obtain ⟨l, hl, hmap⟩ := List.sublist_map_iff.mp
      (sublist_of_precedes h hpre (List.mem_map.mpr ⟨_, hb, rfl⟩))
    obtain ⟨⟨_, a', o'⟩, l, rfl, rfl, hrest⟩ := List.map_eq_cons_iff.mp hmap.symm
    obtain ⟨⟨_, b', p'⟩, l, rfl, rfl, hnil⟩ := List.map_eq_cons_iff.mp hrest
    obtain rfl := List.map_eq_nil_iff.mp hnil
    have hmi : (some i, a', o') ∈ acted es := hl.subset (by simp)
    have hmj : (some j, b', p') ∈ acted es := hl.subset (by simp)
    obtain ⟨rfl, rfl⟩ := acted_unique h ha hmi
    obtain ⟨rfl, rfl⟩ := acted_unique h hb hmj
    exact hR.forall_sublist hl

/-! ### What the clients see -/

@[simp] theorem history_append : history (es ++ es') = history es ++ history es' :=
  List.filterMap_append

theorem eq_sent (h : visible (m, e) = some (.sent i a)) : m = .send a ∧ e = .sent i := by
  unfold visible at h
  split at h <;> simp_all

theorem eq_answered (h : visible (m, e) = some (.answered i o)) : e = .answered i o := by
  unfold visible at h
  split at h <;> simp_all

/-- Answers are given in answering. -/
theorem answering (h : Run (step S) ok ⟨s₀, []⟩ es t) (ha : (m, Event.answered i o) ∈ es) :
    m = .answer i := by
  obtain ⟨es₁, es₂, rfl⟩ := List.append_of_mem ha
  obtain ⟨s, u, -, -, hs, -⟩ := h.at_step
  cases Step.of_step hs with
  | answer => rfl

theorem answered_of_history (h : Run (step S) ok ⟨s₀, []⟩ es t)
    (ha : Visible.answered i o ∈ history es) : (Move.answer i, Event.answered i o) ∈ es := by
  obtain ⟨⟨m, e⟩, hmem, hv⟩ := List.mem_filterMap.mp ha
  obtain rfl := eq_answered hv
  exact answering h hmem ▸ hmem

theorem precedes_of_before (h : Run (step S) ok ⟨s₀, []⟩ es t) (hij : Before (history es) i j) :
    Precedes es i j := by
  obtain ⟨h₁, o, h₂, a, h₃, he⟩ := hij
  obtain ⟨es₁₂, es₃, rfl, h₁₂, hr₃⟩ := List.filterMap_eq_append_iff.mp he
  obtain ⟨es₁, es₂, rfl, -, hr₂⟩ := List.filterMap_eq_append_iff.mp h₁₂
  obtain ⟨l₂, ⟨m, e⟩, r₂, rfl, -, hans, -⟩ := List.filterMap_eq_cons_iff.mp hr₂
  obtain ⟨l₃, ⟨m', e'⟩, r₃, rfl, -, hsent, -⟩ := List.filterMap_eq_cons_iff.mp hr₃
  obtain rfl := eq_answered hans
  obtain ⟨rfl, rfl⟩ := eq_sent hsent
  obtain rfl := answering h (m := m) (i := i) (o := o) (by simp)
  exact ⟨es₁ ++ l₂, o, r₂ ++ l₃, a, r₃, by simp⟩

/-- **Linearizability** of what the clients see: the sequential server makes the steps `l`, each
for a call or of its own. -/
structure Linearization (S : Server σ α κ ο) (s₀ : σ) (h : List (Visible α ο))
    (l : List (Option Nat × α × ο)) (t : σ) : Prop where
  run : Run S.seq anyAction s₀ (l.map Prod.snd) t
  /-- No call acts twice. -/
  once : (l.filterMap Prod.fst).Nodup
  /-- A call acts as it was sent. -/
  sent : ∀ i a o, (some i, a, o) ∈ l → Visible.sent i a ∈ h
  /-- An answer is the result of its own call. -/
  answers : ∀ i o, Visible.answered i o ∈ h → ∃ a, (some i, a, o) ∈ l
  /-- Calls that do not overlap keep their order. -/
  order : ∀ i j, Before h i j → some j ∈ l.map Prod.fst →
    [some i, some j].Sublist (l.map Prod.fst)

theorem Run.linearizable (h : Run (step S) (Current S) ⟨s₀, []⟩ es t) :
    Linearization S s₀ (history es) (acted es) t.server where
  run := run_seq h
  once := (run_recorded h).once
  sent := by
    intro i a o hi
    have hrec := run_recorded h
    obtain ⟨c, hc⟩ : ∃ c, t.calls[i]? = some c :=
      ⟨_, List.getElem?_eq_getElem (hrec.known i a o hi)⟩
    obtain ⟨rfl, -⟩ := (hrec.result i c a o hc).mp hi
    exact List.mem_filterMap.mpr ⟨_, hrec.sent i _ hc, rfl⟩
  answers := by
    intro i o hi
    obtain ⟨a, -, ha⟩ := answered_acted h (answered_of_history h hi)
    exact ⟨a, ha⟩
  order := by
    intro i j hij
    exact sublist_of_precedes h (precedes_of_before h hij)

end Linearizable
