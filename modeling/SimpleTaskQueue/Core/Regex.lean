import Mathlib.Computability.Language
import Mathlib.Logic.Function.Iterate
/-!
# SimpleTaskQueue.Core.Regex

**Regular expressions** of the ECMAScript kind without references and lookahead, over an arbitrary
alphabet. An expression is tried at a place of the text and gives all places where it may end, in
the order in which backtracking comes to them; the whole text is matched if it may end at the end of
the text.

An expression without `^` and `$` means a language (`lang`), wherever it is tried (`mem_ends`);
between these two it matches the texts of its language (`matchesAll_anchored`).
-/

inductive Regex (α : Type)
  /-- A symbol of a class. -/
  | sym (p : α → Bool)
  /-- `^` and `$`. -/
  | bol
  | eol
  | seq (r r' : Regex α)
  | alt (r r' : Regex α)
  /-- `r?`. -/
  | opt (r : Regex α)
  /-- `r{n}`. -/
  | rep (n : Nat) (r : Regex α)

namespace Regex

variable {α : Type}

/-- A place in a text: whether it is the first one, and what comes behind it. -/
structure Place (α : Type) where
  first : Bool
  rest : List α

/-- Where a match that begins at a place may end. -/
def ends : Regex α → Place α → List (Place α)
  | sym p, x =>
    match x.rest with
    | [] => []
    | c :: s => if p c then [⟨false, s⟩] else []
  | bol, x => if x.first then [x] else []
  | eol, x => if x.rest.isEmpty then [x] else []
  | seq r r', x => (ends r x).flatMap (ends r')
  | alt r r', x => ends r x ++ ends r' x
  | opt r, x => ends r x ++ [x]
  | rep n r, x => (fun xs => xs.flatMap (ends r))^[n] [x]

/-- Does the expression match the whole text? -/
def matchesAll (r : Regex α) (s : List α) : Bool := (ends r ⟨true, s⟩).any fun x => x.rest.isEmpty

/-! ### The language of an expression -/

/-- The expression has neither `^` nor `$`. -/
def Plain : Regex α → Prop
  | sym _ => True
  | bol | eol => False
  | seq r r' | alt r r' => r.Plain ∧ r'.Plain
  | opt r | rep _ r => r.Plain

/-- The texts that an expression matches; `^` and `$` match the empty one. -/
def lang : Regex α → Language α
  | sym p => {w | ∃ c, p c = true ∧ w = [c]}
  | bol | eol => 1
  | seq r r' => r.lang * r'.lang
  | alt r r' => r.lang + r'.lang
  | opt r => r.lang + 1
  | rep n r => r.lang ^ n

section Lang

variable {p : α → Bool} {r r' : Regex α} {c : α} {w : List α}

theorem mem_sym : w ∈ (sym p).lang ↔ ∃ c, p c = true ∧ w = [c] := .rfl

theorem mem_seq : w ∈ (seq r r').lang ↔ ∃ u ∈ r.lang, ∃ v ∈ r'.lang, u ++ v = w :=
  Language.mem_mul

@[simp] theorem nil_notMem_sym : [] ∉ (sym p).lang := by
  simp [mem_sym]

@[simp] theorem cons_mem_sym : c :: w ∈ (sym p).lang ↔ p c = true ∧ w = [] := by
  simp [mem_sym]

@[simp] theorem nil_notMem_seq_sym : [] ∉ (seq (sym p) r).lang := by
  simp [mem_seq]

@[simp] theorem cons_mem_seq_sym :
    c :: w ∈ (seq (sym p) r).lang ↔ p c = true ∧ w ∈ r.lang := by
  rw [mem_seq]
  constructor
  · intro hsplit
    obtain ⟨_, ⟨d, hd, rfl⟩, v, hv, heq⟩ := hsplit
    cases heq
    exact ⟨hd, hv⟩
  · intro hcons
    obtain ⟨hc, hw⟩ := hcons
    exact ⟨[c], ⟨c, hc, rfl⟩, w, hw, rfl⟩

@[simp] theorem mem_alt : w ∈ (alt r r').lang ↔ w ∈ r.lang ∨ w ∈ r'.lang := .rfl

@[simp] theorem mem_opt : w ∈ (opt r).lang ↔ w ∈ r.lang ∨ w = [] := .rfl

@[simp] theorem mem_seq_opt :
    w ∈ (seq (opt r) r').lang ↔ w ∈ (seq r r').lang ∨ w ∈ r'.lang := by
  simp only [lang, add_mul, one_mul, Language.mem_add]

/-- One repetition more, in front. -/
theorem mem_seq_rep_succ {q : Regex α} {n : Nat} :
    w ∈ (seq (rep (n + 1) (seq r q)) r').lang ↔
      ∃ v ∈ r.lang, ∃ x ∈ q.lang, ∃ u ∈ (seq (rep n (seq r q)) r').lang, v ++ (x ++ u) = w := by
  simp only [lang, pow_succ', mul_assoc]
  constructor
  · intro hw
    obtain ⟨v, hv, _, htail, heq⟩ := Language.mem_mul.mp hw
    obtain ⟨x, hx, u, hu, rfl⟩ := Language.mem_mul.mp htail
    exact ⟨v, hv, x, hx, u, hu, heq⟩
  · intro hw
    obtain ⟨v, hv, x, hx, u, hu, rfl⟩ := hw
    exact Language.append_mem_mul hv (Language.append_mem_mul hx hu)

/-- One word of `r` more than `n`, with separators between them. -/
theorem mem_separated {q : Regex α} {sep : List α} (hsep : ∀ v, v ∈ q.lang ↔ v = sep) {n : Nat} :
    w ∈ (seq (rep n (seq r q)) r).lang ↔
      ∃ ws : List (List α), ws.length = n + 1 ∧ (∀ v ∈ ws, v ∈ r.lang) ∧
        w = sep.intercalate ws := by
  induction n generalizing w with
  | zero =>
      have hone : w ∈ (seq (rep 0 (seq r q)) r).lang ↔ w ∈ r.lang := by simp [lang]
      rw [hone]
      constructor
      · intro hw
        exact ⟨[w], rfl, by simpa using hw, List.intercalate_singleton.symm⟩
      · intro hwords
        obtain ⟨ws, hlen, hws, rfl⟩ := hwords
        obtain ⟨v, rfl⟩ := List.length_eq_one_iff.mp hlen
        rw [List.intercalate_singleton]
        exact hws v List.mem_cons_self
  | succ n ih =>
      have hcons : ∀ (v : List α) {ws : List (List α)}, ws.length = n + 1 →
          sep.intercalate (v :: ws) = v ++ (sep ++ sep.intercalate ws) := by
        intro v ws hlen
        rw [List.intercalate_cons_of_ne_nil (List.ne_nil_of_length_eq_add_one hlen),
          List.append_assoc]
      simp only [mem_seq_rep_succ, hsep, ih]
      constructor
      · intro hwords
        obtain ⟨v, hv, _, rfl, _, ⟨ws, hlen, hws, rfl⟩, rfl⟩ := hwords
        refine ⟨v :: ws, by rw [List.length_cons, hlen], ?_, (hcons v hlen).symm⟩
        exact List.forall_mem_cons.mpr ⟨hv, hws⟩
      · intro hwords
        obtain ⟨ws, hlen, hws, rfl⟩ := hwords
        obtain ⟨v, ws, rfl⟩ := List.exists_cons_of_length_eq_add_one hlen
        obtain ⟨hv, hws⟩ := List.forall_mem_cons.mp hws
        have hlen : ws.length = n + 1 := Nat.succ.inj hlen
        exact ⟨v, hv, sep, rfl, _, ⟨ws, hlen, hws, rfl⟩, (hcons v hlen).symm⟩

end Lang

/-- Behind the word `w` from one place to another. -/
def Place.Reads (x : Place α) (w : List α) (y : Place α) : Prop :=
  x.rest = w ++ y.rest ∧ y.first = (x.first && w.isEmpty)

theorem reads_nil {x y : Place α} : x.Reads [] y ↔ y = x := by
  obtain ⟨b, s⟩ := x
  obtain ⟨b', s'⟩ := y
  simp [Place.Reads, and_comm, eq_comm]

theorem reads_append {x z : Place α} {w w' : List α} :
    x.Reads (w ++ w') z ↔ ∃ y, x.Reads w y ∧ y.Reads w' z := by
  constructor
  · intro hread
    obtain ⟨hrest, hfirst⟩ := hread
    refine ⟨⟨x.first && w.isEmpty, w' ++ z.rest⟩, ⟨by simpa using hrest, rfl⟩, rfl, ?_⟩
    rw [hfirst]
    cases w <;> simp
  · intro hreads
    obtain ⟨y, ⟨hrest, hfirst⟩, hrest', hfirst'⟩ := hreads
    constructor
    · rw [hrest, hrest', List.append_assoc]
    · rw [hfirst', hfirst]
      cases w <;> simp

/-- One expression behind the other. -/
theorem flatMap_reads {f g : Place α → List (Place α)} {l m : Language α}
    (hf : ∀ x y, y ∈ f x ↔ ∃ w ∈ l, x.Reads w y) (hg : ∀ x y, y ∈ g x ↔ ∃ w ∈ m, x.Reads w y)
    (x z : Place α) : z ∈ (f x).flatMap g ↔ ∃ w ∈ l * m, x.Reads w z := by
  simp only [List.mem_flatMap, hf, hg]
  constructor
  · intro hends
    obtain ⟨y, ⟨w, hw, hread⟩, w', hw', hread'⟩ := hends
    exact ⟨w ++ w', Language.append_mem_mul hw hw', reads_append.mpr ⟨y, hread, hread'⟩⟩
  · intro hword
    obtain ⟨_, hmem, hread⟩ := hword
    obtain ⟨w, hw, w', hw', rfl⟩ := Language.mem_mul.mp hmem
    obtain ⟨y, hread, hread'⟩ := reads_append.mp hread
    exact ⟨y, ⟨w, hw, hread⟩, w', hw', hread'⟩

theorem ends_rep_succ (n : Nat) (r : Regex α) (x : Place α) :
    ends (rep (n + 1) r) x = (ends (rep n r) x).flatMap (ends r) := by
  rw [ends, ends, Function.iterate_succ_apply']

/-- **Wherever a plain expression is tried** it may read the words of its language. -/
theorem mem_ends {r : Regex α} (h : r.Plain) (x y : Place α) :
    y ∈ ends r x ↔ ∃ w ∈ r.lang, x.Reads w y := by
  induction r generalizing x y with
  | sym p =>
      obtain ⟨b, s⟩ := x
      obtain ⟨b', s'⟩ := y
      constructor
      · intro hy
        rw [ends] at hy
        split at hy
        · cases hy
        · next c s₀ hs =>
          split at hy
          · next hc =>
            obtain rfl := hs
            cases List.mem_singleton.mp hy
            exact ⟨[c], ⟨c, hc, rfl⟩, rfl, by simp⟩
          · cases hy
      · intro hword
        obtain ⟨_, ⟨c, hc, rfl⟩, hrest, hfirst⟩ := hword
        obtain rfl : s = c :: s' := hrest
        obtain rfl : b' = false := by simpa using hfirst
        simp [ends, hc]
  | bol | eol => exact h.elim
  | seq r r' ih ih' =>
      obtain ⟨hr, hr'⟩ := h
      exact flatMap_reads (ih hr) (ih' hr') x y
  | alt r r' ih ih' =>
      obtain ⟨hr, hr'⟩ := h
      simp only [ends, lang, List.mem_append, ih hr, ih' hr', Language.mem_add, or_and_right,
        exists_or]
  | opt r ih =>
      simp only [ends, lang, List.mem_append, List.mem_singleton, ih h, Language.mem_add,
        Language.mem_one, or_and_right, exists_or, exists_eq_left, reads_nil]
  | rep n r ih =>
      induction n generalizing x y with
      | zero => simp [ends, lang, reads_nil]
      | succ n ihn =>
          rw [ends_rep_succ, lang, pow_succ]
          exact flatMap_reads (ihn h) (ih h) x y

theorem matchesAll_assoc (q r r' r'' : Regex α) (s : List α) :
    (seq q (seq r (seq r' r''))).matchesAll s = (seq q (seq (seq r r') r'')).matchesAll s := by
  simp only [matchesAll, ends, List.flatMap_assoc]

/-- **A plain expression between `^` and `$`** matches the texts of its language. -/
theorem matchesAll_anchored {r : Regex α} (h : r.Plain) (s : List α) :
    (seq bol (seq r eol)).matchesAll s = true ↔ s ∈ r.lang := by
  have hends : ∀ y, y ∈ ends (seq bol (seq r eol)) ⟨true, s⟩ ↔
      y ∈ ends r ⟨true, s⟩ ∧ y.rest.isEmpty = true := by
    intro y
    simp only [ends, if_true, List.flatMap_cons, List.flatMap_nil, List.append_nil,
      List.mem_flatMap]
    constructor
    · intro hy
      obtain ⟨z, hz, hy⟩ := hy
      split at hy
      · next hnil =>
        obtain rfl := List.mem_singleton.mp hy
        exact ⟨hz, hnil⟩
      · cases hy
    · intro hy
      obtain ⟨hy, hnil⟩ := hy
      exact ⟨y, hy, by simp [hnil]⟩
  rw [matchesAll, List.any_eq_true]
  constructor
  · intro hy
    obtain ⟨y, hy, hnil⟩ := hy
    obtain ⟨w, hw, hrest, -⟩ := (mem_ends h _ _).mp ((hends y).mp hy).1
    rw [List.isEmpty_iff.mp hnil, List.append_nil] at hrest
    obtain rfl : s = w := hrest
    exact hw
  · intro hs
    have hy : (⟨s.isEmpty, []⟩ : Place α) ∈ ends r ⟨true, s⟩ :=
      (mem_ends h _ _).mpr ⟨s, hs, by simp, by simp⟩
    exact ⟨_, (hends _).mpr ⟨hy, rfl⟩, rfl⟩

end Regex
