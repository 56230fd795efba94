import Mathlib.Data.List.Induction
/-!
# SimpleTaskQueue.Core.Delimited

Texts **cut at a delimiter**, over an arbitrary alphabet. `find` is the leftmost
occurrence of `d`, `split` the loop that repeatedly cuts off the text before it,
and `d.intercalate` (core) glues pieces back together.

Gluing after cutting is always the identity (`intercalate_split`). Cutting after
gluing is the identity exactly on the lists `Clean` describes
(`split_intercalate_iff`): the delimiter may not be found inside a piece, nor
across the border between a piece and the delimiter that follows it. The second
condition is vacuous for a delimiter without self-overlap; in general it excludes
the pieces that end with a proper prefix `p` of `d = p ++ r` whose rest `r` is
again a prefix of `d` (`find_append_self_iff`).
-/

namespace Delimited

variable {α : Type*} [DecidableEq α] {d s t x : List α} {i : Nat}

/-- The position of the leftmost occurrence of `d`. -/
def find (d : List α) : List α → Option Nat
  | [] => if d = [] then some 0 else none
  | c :: s => if d <+: c :: s then some 0 else (find d s).map (· + 1)

/-- `n` rounds of the cutting loop. -/
def splitLoop (d : List α) : Nat → List α → List (List α)
  | 0, s => [s]
  | n + 1, s =>
    match find d s with
    | some i => s.take i :: splitLoop d n (s.drop (i + d.length))
    | none => [s]

/-- Cut `s` at the delimiter. Every round removes at least one symbol, so `s.length`
rounds are enough (`split_eq`). -/
def split (d s : List α) : List (List α) := splitLoop d s.length s

/-! ### The leftmost occurrence -/

theorem find_at_start (h : d <+: s) : find d s = some 0 := by
  cases s with
  | nil => simp [find, List.prefix_nil.mp h]
  | cons c s => rw [find, if_pos h]

theorem find_cons_step {c : α} (h : ¬ d <+: c :: s) :
    find d (c :: s) = (find d s).map (· + 1) := by
  rw [find, if_neg h]

/-- An occurrence that was found is one. -/
theorem find_prefix_drop : ∀ {s : List α} {i : Nat}, find d s = some i → d <+: s.drop i
  | [], i, h => by
      simp only [find] at h
      split at h
      · next hd => simp [hd]
      · simp at h
  | c :: s, i, h => by
      by_cases hp : d <+: c :: s
      · rw [find_at_start hp] at h
        obtain rfl : 0 = i := by simpa using h
        simpa using hp
      · rw [find_cons_step hp, Option.map_eq_some_iff] at h
        obtain ⟨j, hj, rfl⟩ := h
        simpa using find_prefix_drop hj

theorem find_split (h : find d s = some i) : s = s.take i ++ d ++ s.drop (i + d.length) := by
  obtain ⟨r, hr⟩ := find_prefix_drop h
  have hdrop : s.drop (i + d.length) = r := by rw [← List.drop_drop, ← hr]; simp
  rw [hdrop, List.append_assoc, hr, List.take_append_drop]

theorem find_le (h : find d s = some i) : i + d.length ≤ s.length := by
  have hlen := congrArg List.length (find_split h)
  have htake := List.length_take_le i s
  obtain ⟨r, hr⟩ := find_prefix_drop h
  have := congrArg List.length hr
  simp only [List.length_append, List.length_drop] at this
  by_cases hi : i ≤ s.length
  · omega
  · -- past the end only the empty delimiter is a prefix, and it is found at 0
    exfalso
    have hd : d = [] := by
      have : s.drop i = [] := List.drop_eq_nil_of_le (by omega)
      rw [this] at hr
      exact (List.append_eq_nil_iff.mp hr).1
    rw [hd, find_at_start List.nil_prefix] at h
    obtain rfl : 0 = i := by simpa using h
    omega

/-- Nothing occurs before the position found. -/
theorem find_min : ∀ {s : List α} {i j : Nat}, d <+: s.drop j → find d s = some i → i ≤ j
  | [], i, j, hj, h => by
      have hd : d = [] := by simpa using hj
      rw [hd, find_at_start List.nil_prefix] at h
      simp at h; omega
  | c :: s, i, 0, hj, h => by
      rw [find_at_start (by simpa using hj)] at h
      simp at h; omega
  | c :: s, i, j + 1, hj, h => by
      by_cases hp : d <+: c :: s
      · rw [find_at_start hp] at h
        simp at h; omega
      · rw [find_cons_step hp, Option.map_eq_some_iff] at h
        obtain ⟨k, hk, rfl⟩ := h
        have := find_min (j := j) (by simpa using hj) hk
        omega

theorem find_ne_none_at : ∀ {s : List α} {j : Nat}, d <+: s.drop j → find d s ≠ none
  | [], j, hj => by
      have hd : d = [] := by simpa using hj
      simp [hd, find]
  | c :: s, 0, hj => by simp [find_at_start (show d <+: c :: s by simpa using hj)]
  | c :: s, j + 1, hj => by
      by_cases hp : d <+: c :: s
      · simp [find_at_start hp]
      · rw [find_cons_step hp]
        have := find_ne_none_at (s := s) (j := j) (by simpa using hj)
        simpa using this

omit [DecidableEq α] in
theorem prefix_drop_of_infix (h : d <:+: s) : ∃ j, j ≤ s.length - d.length ∧ d <+: s.drop j := by
  obtain ⟨a, b, rfl⟩ := h
  refine ⟨a.length, by simp only [List.length_append]; omega, ?_⟩
  rw [List.append_assoc, List.drop_left]
  exact List.prefix_append d b

theorem find_eq_none_iff : find d s = none ↔ ¬ d <:+: s := by
  constructor
  · intro h hin
    obtain ⟨j, -, hj⟩ := prefix_drop_of_infix hin
    exact find_ne_none_at hj h
  · intro h
    cases hf : find d s with
    | none => rfl
    | some i => exact absurd ⟨s.take i, s.drop (i + d.length), (find_split hf).symm⟩ h

/-- The leftmost occurrence is still leftmost in a longer text. -/
theorem find_append_of_some (h : find d s = some i) (t : List α) : find d (s ++ t) = some i := by
  have hpre : d <+: (s ++ t).drop i := by
    have hle := find_le h
    rw [List.drop_append_of_le_length (by omega)]
    exact (find_prefix_drop h).trans (List.prefix_append _ _)
  cases hf : find d (s ++ t) with
  | none => exact absurd hf (find_ne_none_at hpre)
  | some j =>
      have hji : j ≤ i := find_min hpre hf
      have hle := find_le h
      have hij : i ≤ j := by
        -- an occurrence at `j ≤ i` lies inside `s`
        refine find_min (j := j) ?_ h
        have hj := find_prefix_drop hf
        rw [List.drop_append_of_le_length (by omega)] at hj
        refine List.prefix_of_prefix_length_le hj (List.prefix_append _ t) ?_
        rw [List.length_drop]; omega
      rw [Nat.le_antisymm hji hij]

/-! ### Cutting -/

theorem splitLoop_ne_nil (n : Nat) (s : List α) : splitLoop d n s ≠ [] := by
  cases n with
  | zero => simp [splitLoop]
  | succ n => rw [splitLoop]; split <;> simp

/-- More rounds than symbols change nothing. -/
theorem splitLoop_enough (hd : d ≠ []) : ∀ {n m : Nat} {s : List α}, s.length ≤ n → s.length ≤ m →
    splitLoop d n s = splitLoop d m s := by
  have hpos : 0 < d.length := List.length_pos_iff.mpr hd
  have hnil : find d ([] : List α) = none := by simp [find, hd]
  intro n
  induction n with
  | zero =>
      intro m s hn _
      obtain rfl : s = [] := List.length_eq_zero_iff.mp (by omega)
      cases m with
      | zero => rfl
      | succ m => simp [splitLoop, hnil]
  | succ n ih =>
      intro m s hn hm
      cases m with
      | zero =>
          obtain rfl : s = [] := List.length_eq_zero_iff.mp (by omega)
          simp [splitLoop, hnil]
      | succ m =>
          rw [splitLoop, splitLoop]
          cases hf : find d s with
          | none => rfl
          | some i =>
              have hle := find_le hf
              have hlen : (s.drop (i + d.length)).length < s.length := by
                rw [List.length_drop]; omega
              simp only
              rw [ih (m := m) (by omega) (by omega)]

/-- **The loop equation**: the cutting loop runs until the delimiter is not found. -/
theorem split_eq (hd : d ≠ []) (s : List α) :
    split d s = match find d s with
      | some i => s.take i :: split d (s.drop (i + d.length))
      | none => [s] := by
  have hpos : 0 < d.length := List.length_pos_iff.mpr hd
  rw [split, splitLoop_enough hd (Nat.le_refl _) (Nat.le_succ s.length), splitLoop]
  cases hf : find d s with
  | none => rfl
  | some i =>
      have hle := find_le hf
      simp only
      rw [split, splitLoop_enough hd (by rw [List.length_drop]; omega) (Nat.le_refl _)]

theorem split_ne_nil (d s : List α) : split d s ≠ [] := splitLoop_ne_nil _ s

theorem split_of_none (hd : d ≠ []) (h : find d s = none) : split d s = [s] := by
  rw [split_eq hd, h]

theorem split_of_some (hd : d ≠ []) (h : find d s = some i) :
    split d s = s.take i :: split d (s.drop (i + d.length)) := by
  rw [split_eq hd, h]

/-- **Gluing after cutting** loses no symbol. -/
theorem intercalate_split (hd : d ≠ []) (s : List α) : d.intercalate (split d s) = s := by
  induction hn : s.length using Nat.strongRecOn generalizing s with
  | _ n ih =>
    cases hf : find d s with
    | none => rw [split_of_none hd hf, List.intercalate_singleton]
    | some i =>
        have hle := find_le hf
        have hpos : 0 < d.length := List.length_pos_iff.mpr hd
        have hrest : d.intercalate (split d (s.drop (i + d.length))) = s.drop (i + d.length) :=
          ih _ (by rw [List.length_drop]; omega) _ rfl
        rw [split_of_some hd hf, List.intercalate_cons_of_ne_nil (split_ne_nil _ _), hrest,
          ← find_split hf]

/-! ### Lists of pieces that survive gluing and cutting -/

/-- The lists on which cutting inverts gluing: the last piece does not contain the
delimiter, and in every other piece, followed by the delimiter, the delimiter is found
first at the end of the piece. -/
def Clean (d : List α) : List (List α) → Prop
  | [] => False
  | [x] => find d x = none
  | x :: y :: l => find d (x ++ d) = some x.length ∧ Clean d (y :: l)

instance decidableClean (d : List α) : (l : List (List α)) → Decidable (Clean d l)
  | [] => inferInstanceAs (Decidable False)
  | [x] => inferInstanceAs (Decidable (find d x = none))
  | _ :: y :: l =>
    haveI := decidableClean d (y :: l)
    inferInstanceAs (Decidable (_ ∧ _))

theorem find_append_self_ne_none (x : List α) : find d (x ++ d) ≠ none :=
  find_ne_none_at (j := x.length) (by simp)

/-- **Cutting after gluing** is the identity exactly on the clean lists. -/
theorem split_intercalate_iff (hd : d ≠ []) (l : List (List α)) :
    split d (d.intercalate l) = l ↔ Clean d l := by
  induction l with
  | nil => simpa [Clean] using split_ne_nil d []
  | cons x l ih =>
      cases l with
      | nil =>
          rw [List.intercalate_singleton, Clean]
          cases hf : find d x with
          | none => simp [split_of_none hd hf]
          | some i => simp [split_of_some hd hf, split_ne_nil]
      | cons y l =>
          rw [List.intercalate_cons_cons, Clean, ← ih]
          obtain ⟨i, hi⟩ := Option.ne_none_iff_exists'.mp (find_append_self_ne_none (d := d) x)
          have hle : i ≤ x.length := find_min (j := x.length) (by simp) hi
          rw [split_of_some hd (find_append_of_some hi _)]
          constructor
          · intro h
            -- the first piece cut off is `x` only if the delimiter was found at its end
            obtain ⟨hx, hl⟩ := List.cons.inj h
            have hix : i = x.length := by
              have := congrArg List.length hx
              simp only [List.length_take, List.length_append] at this
              omega
            subst hix
            refine ⟨hi, ?_⟩
            rw [← List.length_append, List.drop_left] at hl
            exact hl
          · intro h
            obtain ⟨hx, hl⟩ := h
            obtain rfl : i = x.length := by simpa [hi] using hx
            rw [← List.length_append, List.drop_left, List.append_assoc, List.take_left, hl]

/-- The delimiter is found first at the end of `x` when it does not occur in `x` and `x`
does not end with a prefix of `d` that the delimiter's own beginning completes to `d`. -/
theorem find_append_self_iff (hd : d ≠ []) :
    find d (x ++ d) = some x.length ↔
      ¬ d <:+: x ∧ ∀ p r, d = p ++ r → p ≠ [] → r ≠ [] → r <+: d → ¬ p <:+ x := by
  have hpos : 0 < d.length := List.length_pos_iff.mpr hd
  have hend : d <+: (x ++ d).drop x.length := by simp
  constructor
  · intro h
    refine ⟨?_, ?_⟩
    · intro hin
      -- an occurrence inside `x` would be found before its end
      obtain ⟨j, hj, hpre⟩ := prefix_drop_of_infix hin
      have hlen : d.length ≤ x.length := hin.length_le
      have hpre' : d <+: (x ++ d).drop j := by
        rw [List.drop_append_of_le_length (by omega)]
        exact hpre.trans (List.prefix_append _ _)
      have := find_min hpre' h
      omega
    · intro p r hdp hp hr hrd hsuf
      -- so would the one that starts with the `p` at the end of `x`
      obtain ⟨a, rfl⟩ := hsuf
      have hpre : d <+: ((a ++ p) ++ d).drop a.length := by
        rw [List.append_assoc, List.drop_left]
        nth_rewrite 1 [hdp]
        exact (List.prefix_append_right_inj p).mpr hrd
      have := find_min hpre h
      have hp' : 0 < p.length := List.length_pos_iff.mpr hp
      rw [List.length_append] at this
      omega
  · intro h
    obtain ⟨hin, hover⟩ := h
    obtain ⟨i, hi⟩ := Option.ne_none_iff_exists'.mp (find_append_self_ne_none (d := d) x)
    have hle : i ≤ x.length := find_min hend hi
    rcases Nat.eq_or_lt_of_le hle with rfl | hlt
    · exact hi
    · exfalso
      have hpre := find_prefix_drop hi
      rw [List.drop_append_of_le_length (by omega)] at hpre
      -- the occurrence starts inside `x`; does it also end there?
      by_cases hlen : d.length ≤ (x.drop i).length
      · refine hin ?_
        have : d <+: x.drop i := List.prefix_of_prefix_length_le hpre (List.prefix_append _ _) hlen
        exact this.isInfix.trans (List.drop_suffix i x).isInfix
      · obtain ⟨r, hr⟩ := List.prefix_of_prefix_length_le (List.prefix_append (x.drop i) d) hpre
          (by omega)
        refine hover (x.drop i) r hr.symm ?_ ?_ ?_ (List.drop_suffix i x)
        · intro h0
          have := congrArg List.length h0
          rw [List.length_drop, List.length_nil] at this
          omega
        · intro hr0
          subst hr0
          rw [List.append_nil] at hr
          exact hlen (Nat.le_of_eq (congrArg List.length hr.symm))
        · rw [← hr, List.prefix_append_right_inj] at hpre
          rwa [← hr]

end Delimited
