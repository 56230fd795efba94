import Mathlib.Data.Set.Insert
import SimpleTaskQueue.Core.Linearizable
import SimpleTaskQueue.Core.Mutex
/-!
# SimpleTaskQueue.Core.Locking

**Code under mutexes.** Every mutex guards data of its own. Any number of calls run at the same
time, each as a thread: a step acquires a mutex, releases one, or makes one access to the data of
one, and between any two steps of a call the others make theirs.

The rules (`Proper`): a call accesses only what it has locked, acquires nothing behind its first
release, and has released everything in the end. Where all calls keep them, the run is linearizable
(`run_linearizable`): the clients see the history of a server on which each call runs at once. A
call acts there when it has all it will ever lock. From then on nobody changes what it holds, so
that its result is settled, and nobody sees what it has not released.
-/

namespace Locking

open Runs
open Linearizable (Visible)

variable {ι : Type} {σ : ι → Type} {α β γ ο : Type}

/-! ### Code -/

/-- Code. An access reads the data of a mutex, on which the rest may depend, and changes it. -/
inductive Code (σ : ι → Type) (β : Type)
  | ret (b : β)
  | acquire (m : ι) (k : Code σ β)
  | release (m : ι) (k : Code σ β)
  | access (m : ι) (k : σ m → Code σ β) (u : σ m → σ m)

namespace Code

def bind : Code σ β → (β → Code σ γ) → Code σ γ
  | ret b, f => f b
  | acquire m k, f => .acquire m (k.bind f)
  | release m k, f => .release m (k.bind f)
  | access m k u, f => .access m (fun d => (k d).bind f) u

instance : Monad (Code σ) where
  pure := ret
  bind := bind

def lock (m : ι) : Code σ Unit := .acquire m (.ret ())

def unlock (m : ι) : Code σ Unit := .release m (.ret ())

/-- One access. -/
def on (m : ι) (f : StateM (σ m) β) : Code σ β :=
  .access m (fun d => .ret (f d).1) fun d => (f d).2

/-- Running the code alone. -/
def run [DecidableEq ι] : Code σ β → (∀ m, σ m) → β × ∀ m, σ m
  | ret b, A => (b, A)
  | acquire _ k, A | release _ k, A => k.run A
  | access m k u, A => (k (A m)).run (Function.update A m (u (A m)))

/-- The rules, for the rest of a call that holds `held` and may still acquire something if `grows`;
`Q` is asked of the end. -/
def Keeps (Q : β → Bool → Set ι → Prop) : Code σ β → Bool → Set ι → Prop
  | ret b, grows, held => Q b grows held
  | acquire m k, grows, held => grows = true ∧ m ∉ held ∧ k.Keeps Q true (insert m held)
  | release m k, _, held => m ∈ held ∧ k.Keeps Q false (held \ {m})
  | access m k _, grows, held => m ∈ held ∧ ∀ d, (k d).Keeps Q grows held

/-- The end: nothing is held. -/
def Done (_ : β) (_ : Bool) (held : Set ι) : Prop := held = ∅

/-- The call keeps to the rules. -/
def Proper (x : Code σ β) : Prop := x.Keeps Done true ∅

/-- On every path, `Q` holds of the operations on the mutexes, those in `ops` being made before. -/
def Locks (Q : β → List (Mutex.Op ι) → Prop) : Code σ β → List (Mutex.Op ι) → Prop
  | ret b, ops => Q b ops
  | acquire m k, ops => k.Locks Q (ops ++ [.acquire m])
  | release m k, ops => k.Locks Q (ops ++ [.release m])
  | access _ k _, ops => ∀ d, (k d).Locks Q ops

variable {x : Code σ β} {f : β → Code σ γ} {m : ι} {b : β} {grows : Bool} {held : Set ι}
  {A B C D : ∀ m, σ m}

@[simp] theorem pure_eq : (pure b : Code σ β) = .ret b := rfl

@[simp] theorem bind_eq : x >>= f = x.bind f := rfl

@[simp] theorem map_eq {f : β → γ} : f <$> x = x.bind fun b => .ret (f b) := rfl

/-- Code behind code. -/
@[simp] theorem keeps_bind {Q : γ → Bool → Set ι → Prop} : (x.bind f).Keeps Q grows held ↔
    x.Keeps (fun b grows held => (f b).Keeps Q grows held) grows held := by
  induction x generalizing grows held with
  | ret b => rfl
  | acquire m k ih => exact and_congr_right fun _ => and_congr_right fun _ => ih
  | release m k ih => exact and_congr_right fun _ => ih
  | access m k u ih => exact and_congr_right fun _ => forall_congr' fun d => ih d

@[simp] theorem locks_bind {Q : γ → List (Mutex.Op ι) → Prop} {ops : List (Mutex.Op ι)} :
    (x.bind f).Locks Q ops ↔ x.Locks (fun b ops => (f b).Locks Q ops) ops := by
  induction x generalizing ops with
  | ret b => rfl
  | acquire m k ih | release m k ih => exact ih
  | access m k u ih => exact forall_congr' fun d => ih d

theorem Keeps.mono {Q Q' : β → Bool → Set ι → Prop} (h : x.Keeps Q grows held)
    (hQ : ∀ b grows held, Q b grows held → Q' b grows held) : x.Keeps Q' grows held := by
  induction x generalizing grows held with
  | ret b => exact hQ _ _ _ h
  | acquire m k ih => exact ⟨h.1, h.2.1, ih h.2.2⟩
  | release m k ih => exact ⟨h.1, ih h.2⟩
  | access m k u ih => exact ⟨h.1, fun d => ih d (h.2 d)⟩

@[simp] theorem run_bind [DecidableEq ι] :
    (x.bind f).run A = (f (x.run A).1).run (x.run A).2 := by
  induction x generalizing A with
  | ret b => rfl
  | acquire m k ih | release m k ih => exact ih
  | access m k u ih => exact ih _

@[simp] theorem run_ret [DecidableEq ι] : (ret b : Code σ β).run A = (b, A) := rfl

@[simp] theorem run_lock [DecidableEq ι] : (lock m : Code σ Unit).run A = ((), A) := rfl

@[simp] theorem run_unlock [DecidableEq ι] : (unlock m : Code σ Unit).run A = ((), A) := rfl

@[simp] theorem run_on [DecidableEq ι] {g : StateM (σ m) β} :
    (on m g).run A = ((g (A m)).1, Function.update A m (g (A m)).2) := rfl

theorem Proper.map (h : x.Proper) (f : β → γ) : (f <$> x).Proper := keeps_bind.mpr h

/-! ### What is locked, and what is not -/

/-- The data of some mutexes are the same. -/
def Agree (held : Set ι) (A B : ∀ m, σ m) : Prop := ∀ m ∈ held, A m = B m

theorem Agree.symm (h : Agree held A B) : Agree held B A := fun m hm => (h m hm).symm

theorem Agree.trans (h : Agree held A B) (h' : Agree held B C) : Agree held A C :=
  fun m hm => (h m hm).trans (h' m hm)

theorem Agree.update [DecidableEq ι] (h : Agree held A B) (d : σ m) :
    Agree held (Function.update A m d) (Function.update B m d) := by
  intro m' hm'
  by_cases hm : m' = m
  · subst hm
    rw [Function.update_self, Function.update_self]
  · rw [Function.update_of_ne hm, Function.update_of_ne hm]
    exact h m' hm'

theorem agree_update [DecidableEq ι] (hm : m ∉ held) (d : σ m) :
    Agree held (Function.update A m d) A := by
  intro m' hm'
  have hne : m' ≠ m := fun he => hm (he ▸ hm')
  exact Function.update_of_ne hne d A

theorem exists_agree (held : Set ι) (A B : ∀ m, σ m) :
    ∃ C, Agree held C A ∧ Agree heldᶜ C B := by
  classical
  exact ⟨fun m => if m ∈ held then A m else B m, fun m hm => if_pos hm, fun m hm => if_neg hm⟩

/-- **Frame.** What a call does that acquires nothing any more depends on what it holds, and it
leaves the rest alone. -/
theorem Keeps.frame [DecidableEq ι] {Q : β → Bool → Set ι → Prop} (h : x.Keeps Q false held)
    (A : ∀ m, σ m) : ∃ b D, ∀ B, Agree held B A →
      ∃ C, x.run B = (b, C) ∧ Agree held C D ∧ Agree heldᶜ C B := by
  induction x generalizing held A with
  | ret b => exact ⟨b, A, fun B hB => ⟨B, rfl, hB, fun m _ => rfl⟩⟩
  | acquire m k => exact absurd h.1 Bool.false_ne_true
  | release m k ih =>
      obtain ⟨b, D, hrun⟩ := ih h.2 A
      refine ⟨b, Function.update D m (A m), fun B hB => ?_⟩
      obtain ⟨C, hC, hin, hout⟩ := hrun B fun m' hm' => hB m' hm'.1
      have hrest : ∀ m', m' ∉ held \ {m} → C m' = B m' := hout
      refine ⟨C, hC, fun m' hm' => ?_, fun m' hm' => hrest m' fun hin => hm' hin.1⟩
      by_cases hne : m' = m
      · subst hne
        rw [Function.update_self, hrest m' fun hin => hin.2 rfl]
        exact hB m' hm'
      · rw [Function.update_of_ne hne]
        exact hin m' ⟨hm', hne⟩
  | access m k u ih =>
      obtain ⟨b, D, hrun⟩ := ih (A m) (h.2 (A m)) (Function.update A m (u (A m)))
      refine ⟨b, D, fun B hB => ?_⟩
      obtain ⟨C, hC, hin, hout⟩ := hrun _ (hB.update (u (A m)))
      have hm : m ∉ heldᶜ := fun hm => hm h.1
      refine ⟨C, ?_, hin, hout.trans (agree_update hm _)⟩
      show (k (B m)).run (Function.update B m (u (B m))) = _
      rw [hB m h.1]
      exact hC

end Code

open Code

/-! ### The machine -/

/-- How far a call has got. -/
inductive Call (σ : ι → Type) (α ο : Type)
  | running (a : α) (x : Code σ ο)
  | answered (a : α) (o : ο)

/-- The data, the calls that hold the mutexes, and all calls so far. -/
structure State (σ : ι → Type) (α ο : Type) where
  data : ∀ m, σ m
  holder : ι → Option Nat
  calls : List (Call σ α ο)

inductive Move (α : Type)
  | send (a : α)
  /-- The next step of a call. -/
  | step (i : Nat)
  | answer (i : Nat)
  deriving Repr, DecidableEq

/-- Before the first call. -/
def init (A : ∀ m, σ m) : State σ α ο := ⟨A, fun _ => none, []⟩

/-- What the call `i` holds. -/
def State.held (s : State σ α ο) (i : Nat) : Set ι := {m | s.holder m = some i}

variable [DecidableEq ι]

/-- The call `i`, for `a`, makes the first step of its code. -/
def State.advance (s : State σ α ο) (i : Nat) (a : α) : Code σ ο → Option (State σ α ο)
  | .ret _ => none
  | .acquire m k =>
    if s.holder m = none then
      some ⟨s.data, Function.update s.holder m (some i), s.calls.set i (.running a k)⟩
    else none
  | .release m k =>
    if s.holder m = some i then
      some ⟨s.data, Function.update s.holder m none, s.calls.set i (.running a k)⟩
    else none
  | .access m k u =>
    some ⟨Function.update s.data m (u (s.data m)), s.holder,
      s.calls.set i (.running a (k (s.data m)))⟩

/-- **The machine.** -/
def step (code : α → Code σ ο) : Machine (State σ α ο) (Move α) (Option (Visible α ο))
  | s, .send a =>
    some (some (.sent s.calls.length a), { s with calls := s.calls ++ [.running a (code a)] })
  | s, .step i =>
    match s.calls[i]? with
    | some (.running a x) => (s.advance i a x).map fun u => (none, u)
    | _ => none
  | s, .answer i =>
    match s.calls[i]? with
    | some (.running a (.ret o)) =>
      some (some (.answered i o), { s with calls := s.calls.set i (.answered a o) })
    | _ => none

/-- What the clients see. -/
def history (es : List (Move α × Option (Visible α ο))) : List (Visible α ο) :=
  es.filterMap Prod.snd

/-- The server on which each call runs at once. -/
def server (code : α → Code σ ο) : Linearizable.Server (∀ m, σ m) α Unit ο :=
  ⟨fun _ _ => (), fun A _ a => some ((code a).run A)⟩

variable {code : α → Code σ ο} {s u : State σ α ο} {m : Move α} {v : Option (Visible α ο)}
  {i j : Nat} {a : α} {o : ο} {x : Code σ ο} {held : Set ι} {A B data data' : ∀ m, σ m}
  {c c' : Call σ α ο} {d d' : Linearizable.Call α Unit ο}

/-- What a step can do. -/
inductive Step (code : α → Code σ ο) (s : State σ α ο) :
    Move α → Option (Visible α ο) → State σ α ο → Prop
  | send {a : α} : Step code s (.send a) (some (.sent s.calls.length a))
      { s with calls := s.calls ++ [.running a (code a)] }
  | acquire {i : Nat} {a : α} {m : ι} {k : Code σ ο}
      (hc : s.calls[i]? = some (.running a (.acquire m k))) (hfree : s.holder m = none) :
      Step code s (.step i) none
        ⟨s.data, Function.update s.holder m (some i), s.calls.set i (.running a k)⟩
  | release {i : Nat} {a : α} {m : ι} {k : Code σ ο}
      (hc : s.calls[i]? = some (.running a (.release m k))) (hmine : s.holder m = some i) :
      Step code s (.step i) none
        ⟨s.data, Function.update s.holder m none, s.calls.set i (.running a k)⟩
  | access {i : Nat} {a : α} {m : ι} {k : σ m → Code σ ο} {u : σ m → σ m}
      (hc : s.calls[i]? = some (.running a (.access m k u))) :
      Step code s (.step i) none ⟨Function.update s.data m (u (s.data m)), s.holder,
        s.calls.set i (.running a (k (s.data m)))⟩
  | answer {i : Nat} {a : α} {o : ο} (hc : s.calls[i]? = some (.running a (.ret o))) :
      Step code s (.answer i) (some (.answered i o))
        { s with calls := s.calls.set i (.answered a o) }

theorem Step.of_step (h : step code s m = some (v, u)) : Step code s m v u := by
  cases m with
  | send a =>
      cases h
      exact .send
  | step i =>
      simp only [step] at h
      split at h
      · next a x hc =>
        obtain ⟨w, hw, he⟩ := Option.map_eq_some_iff.mp h
        obtain ⟨rfl, rfl⟩ := Prod.mk.inj he
        cases x with
        | ret o => cases hw
        | acquire m k =>
            obtain ⟨hfree, he⟩ := Option.ite_none_right_eq_some.mp hw
            cases he
            exact .acquire hc hfree
        | release m k =>
            obtain ⟨hmine, he⟩ := Option.ite_none_right_eq_some.mp hw
            cases he
            exact .release hc hmine
        | access m k u =>
            cases hw
            exact .access hc
      · cases h
  | answer i =>
      simp only [step] at h
      split at h
      · next hc =>
        cases h
        exact .answer hc
      · cases h

/-! ### The simulation -/

/-- Where a call stands that holds `held`, and where the server is that it is compared with, whose
data is `A`. -/
inductive Stands (code : α → Code σ ο) (A data : ∀ m, σ m) (held : Set ι) :
    Call σ α ο → Linearizable.Call α Unit ο → Prop
  /-- It may acquire more. It has done what it does on the data of the server, and has not acted
  there. -/
  | growing {a : α} {x : Code σ ο} (hkeeps : x.Keeps Done true held)
      (hrun : ∀ B C, Agree held B A → Agree held C data → Agree heldᶜ B C →
        (code a).run B = x.run C) : Stands code A data held (.running a x) (.found a ())
  /-- It acquires nothing any more. What it has still to do leads to the data of the server, and to
  the result it has there. -/
  | shrinking {a : α} {x : Code σ ο} {o : ο} (hkeeps : x.Keeps Done false held)
      (hrun : ∀ C, Agree held C data → ∃ D, x.run C = (o, D) ∧ Agree held D A ∧ Agree heldᶜ D C) :
      Stands code A data held (.running a x) (.done a o)
  | answered {a : α} {o : ο} (hheld : held = ∅) :
      Stands code A data held (.answered a o) (.answered a o)

/-- A call does not notice what happens to the data it does not hold. -/
theorem Stands.congr (h : Stands code A data held c d) (hA : Agree held B A)
    (hdata : Agree held data' data) : Stands code B data' held c d := by
  cases h with
  | growing hkeeps hrun =>
      exact .growing hkeeps fun B' C hB hC hout => hrun B' C (hB.trans hA) (hC.trans hdata) hout
  | shrinking hkeeps hrun =>
      refine .shrinking hkeeps ?_
      intro C hC
      obtain ⟨D, hD, hin, hout⟩ := hrun C (hC.trans hdata)
      exact ⟨D, hD, hin.trans hA.symm, hout⟩
  | answered hheld => exact .answered hheld

/-- **A call acts** on the server when it acquires nothing any more. -/
theorem Stands.act (hkeeps : x.Keeps Done false held)
    (hrun : ∀ B C, Agree held B A → Agree held C data → Agree heldᶜ B C →
      (code a).run B = x.run C) :
    Stands code ((code a).run A).2 data held (.running a x) (.done a ((code a).run A).1) ∧
      Agree heldᶜ ((code a).run A).2 A := by
  obtain ⟨b, D, hframe⟩ := hkeeps.frame data
  obtain ⟨C, hin, hout⟩ := exists_agree held data A
  obtain ⟨D', hD', hin', hout'⟩ := hframe C hin
  rw [hrun A C (fun _ _ => rfl) hin hout.symm, hD']
  refine ⟨.shrinking hkeeps fun C' hC' => ?_, hout'.trans hout⟩
  obtain ⟨D'', hD'', hin'', hout''⟩ := hframe C' hC'
  exact ⟨D'', hD'', hin''.trans hin'.symm, hout''⟩

/-- The data are those of the server but for what somebody holds, and every call stands where that
of the server does. -/
structure Simulates (code : α → Code σ ο) (s : State σ α ο)
    (x : Linearizable.State (∀ m, σ m) α Unit ο) : Prop where
  length : x.calls.length = s.calls.length
  stands : ∀ i c, s.calls[i]? = some c →
    ∃ d, x.calls[i]? = some d ∧ Stands code x.server s.data (s.held i) c d
  known : ∀ m i, s.holder m = some i → i < s.calls.length
  free : ∀ m, s.holder m = none → s.data m = x.server m

variable {x' y : Linearizable.State (∀ m, σ m) α Unit ο} {holder : ι → Option Nat}

/-- The call `i` moves, and leaves alone what others hold. -/
theorem Simulates.set (h : Simulates code s x') (hc : s.calls[i]? = some c)
    (hmine : Stands code B data {m | holder m = some i} c' d')
    (hothers : ∀ j m, i ≠ j → (holder m = some j ↔ s.holder m = some j))
    (hsame : ∀ j m, i ≠ j → s.holder m = some j → B m = x'.server m ∧ data m = s.data m)
    (hfree : ∀ m, holder m = none → data m = B m) :
    Simulates code ⟨data, holder, s.calls.set i c'⟩ ⟨B, x'.calls.set i d'⟩ where
  length := by rw [List.length_set, List.length_set, h.length]
  stands := by
    intro j e he
    obtain ⟨d, hd, -⟩ := h.stands i c hc
    rcases getElem?_set_some he with ⟨rfl, rfl⟩ | ⟨hij, he⟩
    · exact ⟨d', getElem?_set_of_some hd, hmine⟩
    · obtain ⟨d, hd, hst⟩ := h.stands j e he
      refine ⟨d, (List.getElem?_set_ne hij).trans hd, ?_⟩
      have hst' : Stands code B data (s.held j) e d :=
        hst.congr (fun m hm => (hsame j m hij hm).1) fun m hm => (hsame j m hij hm).2
      have hheld : s.held j = {m | holder m = some j} := Set.ext fun m => (hothers j m hij).symm
      rw [hheld] at hst'
      exact hst'
  known := by
    intro m j hm
    rw [List.length_set]
    by_cases hij : i = j
    · exact hij ▸ (List.getElem?_eq_some_iff.mp hc).1
    · exact h.known m j ((hothers j m hij).mp hm)
  free := hfree

/-- A step that the server does not notice. -/
theorem Simulates.silent (h : Simulates code s x') (hc : s.calls[i]? = some c)
    (hd : x'.calls[i]? = some d) (hmine : Stands code x'.server data {m | holder m = some i} c' d)
    (hothers : ∀ j m, i ≠ j → (holder m = some j ↔ s.holder m = some j))
    (hsame : ∀ j m, i ≠ j → s.holder m = some j → data m = s.data m)
    (hfree : ∀ m, holder m = none → data m = x'.server m) :
    Simulates code ⟨data, holder, s.calls.set i c'⟩ x' := by
  have hset := h.set hc hmine hothers (fun j m hij hm => ⟨rfl, hsame j m hij hm⟩) hfree
  obtain ⟨hi, hself⟩ := List.getElem?_eq_some_iff.mp hd
  rw [← hself, List.set_getElem_self] at hset
  exact hset

/-- A call under way keeps to the rules. -/
theorem Simulates.keeps (h : Simulates code s x') (hc : s.calls[i]? = some (.running a x)) :
    ∃ grows, x.Keeps Done grows (s.held i) := by
  obtain ⟨d, -, hst⟩ := h.stands i _ hc
  cases hst with
  | growing hkeeps => exact ⟨true, hkeeps⟩
  | shrinking hkeeps => exact ⟨false, hkeeps⟩

/-- The server runs on, and makes no step of its own. The clients see `h` of it. -/
def Serves (code : α → Code σ ο) (x : Linearizable.State (∀ m, σ m) α Unit ο)
    (h : List (Visible α ο)) (y : Linearizable.State (∀ m, σ m) α Unit ο) : Prop :=
  ∃ es, Run (Linearizable.step (server code)) (Linearizable.Current (server code)) x es y ∧
    Linearizable.history es = h ∧ ∀ p ∈ Linearizable.acted es, p.1.isSome = true

theorem Serves.trans {h h' : List (Visible α ο)} {z : Linearizable.State (∀ m, σ m) α Unit ο}
    (hxy : Serves code x' h y) (hyz : Serves code y h' z) : Serves code x' (h ++ h') z := by
  obtain ⟨es, hrun, rfl, hes⟩ := hxy
  obtain ⟨es', hrun', rfl, hes'⟩ := hyz
  refine ⟨es ++ es', hrun.append hrun', Linearizable.history_append, fun p hp => ?_⟩
  rw [Linearizable.acted_append] at hp
  exact (List.mem_append.mp hp).elim (hes p) (hes' p)

/-- A call that is to shrink has acted on the server. -/
theorem Simulates.acted (h : Simulates code s x') (hc : s.calls[i]? = some (.running a x))
    (hkeeps : x.Keeps Done false (s.held i)) :
    ∃ y o, Simulates code s y ∧ y.calls[i]? = some (.done a o) ∧ Serves code x' [] y := by
  obtain ⟨d, hd, hst⟩ := h.stands i _ hc
  cases hst with
  | @shrinking _ _ o => exact ⟨x', o, h, hd, [], .nil, rfl, by simp [Linearizable.acted]⟩
  | growing _ hrun =>
      obtain ⟨hnow, hout⟩ := Stands.act hkeeps hrun
      refine ⟨⟨((code a).run x'.server).2, x'.calls.set i (.done a ((code a).run x'.server).1)⟩, _,
        ?_, getElem?_set_of_some hd,
        [(.act i, .acted (some i) a ((code a).run x'.server).1)], .single (fun _ _ _ => rfl) ?_,
        rfl, by simp [Linearizable.acted]⟩
      · have hset := h.set hc hnow (fun j m _ => Iff.rfl)
          (fun j m hij hm => ⟨hout m fun hi => hij (Option.some.inj (hi.symm.trans hm)), rfl⟩)
          fun m hm => (h.free m hm).trans
            (hout m fun hi => Option.some_ne_none _ (hi.symm.trans hm)).symm
        obtain ⟨hi, hself⟩ := List.getElem?_eq_some_iff.mp hc
        rw [← hself, List.set_getElem_self] at hset
        exact hset
      · simp [Linearizable.step, hd, server]

/-- A new call. -/
theorem Simulates.send (hproper : (code a).Proper) (h : Simulates code s x') :
    Simulates code { s with calls := s.calls ++ [.running a (code a)] }
      ⟨x'.server, x'.calls ++ [.found a ()]⟩ where
  length := by rw [List.length_append, List.length_append, h.length]; rfl
  stands := by
    intro j c hc
    rcases getElem?_concat_some hc with ⟨rfl, rfl⟩ | ⟨hj, hc⟩
    · refine ⟨.found a (), h.length ▸ List.getElem?_concat_length, ?_⟩
      have hnone : s.held s.calls.length = ∅ :=
        Set.eq_empty_of_forall_notMem fun m hm => Nat.lt_irrefl _ (h.known m _ hm)
      have hst : Stands code x'.server s.data (s.held s.calls.length)
          (.running a (code a)) (.found a ()) := by
        rw [hnone]
        refine .growing hproper ?_
        intro B C _ _ hBC
        rw [show B = C from funext fun m => hBC m fun hm => hm]
      exact hst
    · obtain ⟨d, hd, hst⟩ := h.stands j c hc
      have hlt : j < x'.calls.length := h.length.symm ▸ hj
      exact ⟨d, (List.getElem?_append_left hlt).trans hd, hst⟩
  known := by
    intro m j hm
    rw [List.length_append]
    exact Nat.lt_add_right _ (h.known m j hm)
  free := h.free

/-- Of one mutex the holder changes, which is not the call `j`, before or after. -/
theorem holder_update {l l' : ι} {h : ι → Option Nat} {o : Option Nat} (hl : h l ≠ some j)
    (ho : o ≠ some j) : Function.update h l o l' = some j ↔ h l' = some j := by
  by_cases he : l' = l
  · subst he
    rw [Function.update_self]
    exact iff_of_false ho hl
  · rw [Function.update_of_ne he]

/-- The call `i` acquires a mutex. -/
theorem Simulates.acquire {l : ι} {k : Code σ ο} (h : Simulates code s x')
    (hc : s.calls[i]? = some (.running a (.acquire l k))) (hfree : s.holder l = none) :
    Simulates code
      ⟨s.data, Function.update s.holder l (some i), s.calls.set i (.running a k)⟩ x' := by
  obtain ⟨d, hd, hst⟩ := h.stands i _ hc
  have hheld : {m | Function.update s.holder l (some i) m = some i} = insert l (s.held i) := by
    ext l'
    by_cases hl : l' = l
    · simp [hl]
    · simp [hl, State.held, Function.update_of_ne]
  refine h.silent hc hd ?_ ?_ (fun _ _ _ _ => rfl) ?_
  · rw [hheld]
    cases hst with
    | shrinking hkeeps => exact absurd hkeeps.1 Bool.false_ne_true
    | growing hkeeps hrun =>
        refine .growing hkeeps.2.2 ?_
        intro B C hB hC hout
        refine hrun B C (fun m hm => hB m (.inr hm)) (fun m hm => hC m (.inr hm)) ?_
        intro m hm
        by_cases hm' : m = l
        · -- nobody held it: its data are those of the server
          subst hm'
          exact (hB m (.inl rfl)).trans ((h.free m hfree).symm.trans (hC m (.inl rfl)).symm)
        · exact hout m fun hin => hin.elim hm' hm
  · intro j l' hij
    exact holder_update (by simp [hfree]) (by simpa using hij)
  · intro l' hl'
    by_cases hl : l' = l
    · simp [hl] at hl'
    · rw [Function.update_of_ne hl] at hl'
      exact h.free l' hl'

/-- The call `i` accesses what it holds. -/
theorem Simulates.access {l : ι} {k : σ l → Code σ ο} {f : σ l → σ l} (h : Simulates code s x')
    (hc : s.calls[i]? = some (.running a (.access l k f))) :
    Simulates code ⟨Function.update s.data l (f (s.data l)), s.holder,
      s.calls.set i (.running a (k (s.data l)))⟩ x' := by
  obtain ⟨d, hd, hst⟩ := h.stands i _ hc
  obtain ⟨_, hl, -⟩ := h.keeps hc
  have hrest : ∀ {l'}, s.holder l' ≠ some i →
      Function.update s.data l (f (s.data l)) l' = s.data l' := by
    intro l' hl'
    have hne : l' ≠ l := by
      rintro rfl
      exact hl' hl
    exact Function.update_of_ne hne _ _
  -- where the access was made, it was made on the data of now
  have hback : ∀ {C}, Agree (s.held i) C (Function.update s.data l (f (s.data l))) →
      Agree (s.held i) (Function.update C l (s.data l)) s.data ∧
        Agree (s.held i)ᶜ (Function.update C l (s.data l)) C ∧
        (k (s.data l)).run C =
          (Code.access l k f).run (Function.update C l (s.data l)) := by
    intro C hC
    have hself : C l = f (s.data l) := (hC l hl).trans (Function.update_self ..)
    have hin : l ∉ (s.held i)ᶜ := fun hout => hout hl
    refine ⟨fun l' hl' => ?_, agree_update hin _, ?_⟩
    · by_cases he : l' = l
      · subst he
        exact Function.update_self ..
      · rw [Function.update_of_ne he, hC l' hl', Function.update_of_ne he]
    · rw [Code.run, Function.update_self, Function.update_idem, ← hself, Function.update_eq_self]
  refine h.silent hc hd ?_ (fun _ _ _ => Iff.rfl) (fun j l' hij hj => hrest ?_)
    fun l' hl' => (hrest ?_).trans (h.free l' hl')
  · cases hst with
    | growing hkeeps hrun =>
        refine .growing (hkeeps.2 _) ?_
        intro B C hB hC hout
        obtain ⟨hin, hsame, hrun'⟩ := hback hC
        exact (hrun B _ hB hin (hout.trans hsame.symm)).trans hrun'.symm
    | shrinking hkeeps hrun =>
        refine .shrinking (hkeeps.2 _) ?_
        intro C hC
        obtain ⟨hin, hsame, hrun'⟩ := hback hC
        obtain ⟨D, hD, hA, hout⟩ := hrun _ hin
        exact ⟨D, hrun'.trans hD, hA, hout.trans hsame⟩
  · exact fun hi => hij (Option.some.inj (hi.symm.trans hj))
  · exact fun hi => Option.some_ne_none _ (hi.symm.trans hl')

/-- The call `i` releases a mutex, when it has acted on the server. -/
theorem Simulates.release {l : ι} {k : Code σ ο} (h : Simulates code s x')
    (hc : s.calls[i]? = some (.running a (.release l k))) (hd : x'.calls[i]? = some (.done a o))
    (hmine : s.holder l = some i) :
    Simulates code ⟨s.data, Function.update s.holder l none, s.calls.set i (.running a k)⟩ x' := by
  have hheld : {m | Function.update s.holder l none m = some i} = s.held i \ {l} := by
    ext l'
    by_cases hl : l' = l
    · simp [hl]
    · simp [hl, State.held, Function.update_of_ne]
  obtain ⟨d, hd', hst⟩ := h.stands i _ hc
  obtain rfl := Option.some.inj (hd'.symm.trans hd)
  cases hst with
  | shrinking hkeeps hrun =>
  obtain ⟨b, E, hframe⟩ := hkeeps.2.frame s.data
  obtain ⟨D, hD, hA, -⟩ := hrun s.data fun _ _ => rfl
  obtain ⟨D', hD', hin, hout⟩ := hframe s.data fun _ _ => rfl
  obtain ⟨rfl, rfl⟩ := Prod.mk.inj (hD.symm.trans hD')
  refine h.silent hc hd ?_ ?_ (fun _ _ _ _ => rfl) ?_
  · rw [hheld]
    refine .shrinking hkeeps.2 ?_
    intro C hC
    obtain ⟨D', hD', hin', hout'⟩ := hframe C hC
    exact ⟨D', hD', fun m hm => (hin' m hm).trans ((hin m hm).symm.trans (hA m hm.1)), hout'⟩
  · intro j l' hij
    exact holder_update (by simp [hmine, hij]) (by simp)
  · intro l' hl'
    by_cases hl : l' = l
    · -- what it does from here on leaves the mutex alone
      subst hl
      exact (hout l' fun hin => hin.2 rfl).symm.trans (hA l' hmine)
    · rw [Function.update_of_ne hl] at hl'
      exact h.free l' hl'

/-- **Step lemma.** -/
theorem Simulates.step (hproper : ∀ a, (code a).Proper) (h : Simulates code s x')
    (hs : Step code s m v u) : ∃ y, Simulates code u y ∧ Serves code x' v.toList y := by
  cases hs with
  | @send a =>
      refine ⟨_, h.send (hproper a), [(.send a, .sent x'.calls.length),
        (.find x'.calls.length, .found x'.calls.length)], ?_, by rw [h.length]; rfl,
        by simp [Linearizable.acted]⟩
      have hone : Run (Linearizable.step (server code)) (Linearizable.Current (server code)) x'
          [(.send a, .sent x'.calls.length)] ⟨x'.server, x'.calls ++ [.sent a]⟩ :=
        .single trivial rfl
      refine hone.snoc trivial ?_
      simp [Linearizable.step, server]
  | acquire hc hfree => exact ⟨x', h.acquire hc hfree, [], .nil, rfl, by simp [Linearizable.acted]⟩
  | access hc => exact ⟨x', h.access hc, [], .nil, rfl, by simp [Linearizable.acted]⟩
  | release hc hmine =>
      obtain ⟨_, hkeeps⟩ := h.keeps hc
      obtain ⟨y, o, hy, hd, hserves⟩ := h.acted hc hkeeps
      exact ⟨y, hy.release hc hd hmine, hserves⟩
  | @answer i a o hc =>
      obtain ⟨_, hkeeps⟩ := h.keeps hc
      obtain ⟨y, o', hy, hd, hserves⟩ := h.acted hc hkeeps
      obtain ⟨d, hd', hst⟩ := hy.stands i _ hc
      obtain rfl := Option.some.inj (hd'.symm.trans hd)
      cases hst with
      | shrinking hend hrun =>
      obtain ⟨D, hD, -⟩ := hrun s.data fun _ _ => rfl
      obtain rfl : o = o' := congrArg Prod.fst hD
      have hanswer : Serves code y [.answered i o] ⟨y.server, y.calls.set i (.answered a o)⟩ := by
        have hok : Linearizable.Current (server code) y (.answer i) := trivial
        refine ⟨[(.answer i, .answered i o)], .single hok ?_, rfl, by simp [Linearizable.acted]⟩
        simp [Linearizable.step, hd]
      exact ⟨_, hy.set hc (.answered hend) (fun _ _ _ => Iff.rfl) (fun _ _ _ _ => ⟨rfl, rfl⟩)
        hy.free, hserves.trans hanswer⟩

variable {es : List (Move α × Option (Visible α ο))} {t : State σ α ο}
  {ok : State σ α ο → Move α → Prop}

/-- **Run lemma.** -/
theorem run_simulates (hproper : ∀ a, (code a).Proper) (h : Run (step code) ok (init A) es t) :
    ∃ y, Simulates code t y ∧ Serves code ⟨A, []⟩ (history es) y := by
  induction h with
  | nil =>
      exact ⟨⟨A, []⟩, ⟨rfl, by simp [init], by simp [init], fun _ _ => rfl⟩, [], .nil, rfl,
        by simp [Linearizable.acted]⟩
  | @snoc es _ _ m v _ _ hs ih =>
      obtain ⟨x, hx, hserves⟩ := ih
      obtain ⟨y, hy, hserves'⟩ := hx.step hproper (.of_step hs)
      have hhist : history (es ++ [(m, v)]) = history es ++ v.toList := by
        rw [history, List.filterMap_append]
        cases v <;> rfl
      exact ⟨y, hy, hhist ▸ hserves.trans hserves'⟩

/-- **Two-phase locking.** Where all code keeps to the rules, every run is linearizable, and the
data are those of the server where nobody holds them. -/
theorem run_linearizable (hproper : ∀ a, (code a).Proper)
    (h : Run (step code) ok (init A) es t) :
    ∃ l B, Linearizable.Linearization (server code) A (history es) l B ∧
      (∀ p ∈ l, p.1.isSome = true) ∧ ∀ m, t.holder m = none → t.data m = B m := by
  obtain ⟨y, hy, es', hrun, hes, hown⟩ := run_simulates hproper h
  exact ⟨_, y.server, hes ▸ Linearizable.Run.linearizable hrun, hown, hy.free⟩

end Locking
