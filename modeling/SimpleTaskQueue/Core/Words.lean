import Mathlib.Data.List.Basic
/-!
# SimpleTaskQueue.Core.Words

The **words** of a text over an arbitrary alphabet: its maximal runs without the separator. What
that means is said twice, by a relation that reads the text from the front (`IsWords`) and by the
pieces of `List.splitOn` that are not empty (`words`); the two agree (`isWords_iff`). Further
separators next to a separator or at an end of the text change no word (`words_padded`).
-/

namespace Words

variable {α : Type*} {c : α} {s s' x y : List α} {ws : List (List α)}

/-- The words of a text, in order. -/
inductive IsWords (c : α) : List α → List (List α) → Prop
  | nil : IsWords c [] []
  | sep {s : List α} {ws : List (List α)} (h : IsWords c s ws) : IsWords c (c :: s) ws
  /-- The last word reaches to the end of the text. -/
  | last {x : List α} (hx : x ≠ []) (hc : c ∉ x) : IsWords c x [x]
  /-- Every other word reaches to a separator. -/
  | word {x s : List α} {ws : List (List α)} (hx : x ≠ []) (hc : c ∉ x) (h : IsWords c s ws) :
      IsWords c (x ++ c :: s) (x :: ws)

/-- `s'` has all of `s`, and more separators before, between or behind its words. -/
inductive Padded (c : α) (s : List α) : List α → Prop
  | refl : Padded c s s
  | before {s' : List α} (h : Padded c s s') : Padded c s (c :: s')
  | between {x y : List α} (h : Padded c s (x ++ c :: y)) : Padded c s (x ++ c :: c :: y)
  | behind {s' : List α} (h : Padded c s s') : Padded c s (s' ++ [c])

theorem IsWords.ne_nil (h : IsWords c s ws) : [] ∉ ws := by
  induction h with
  | nil => exact List.not_mem_nil
  | sep _ ih => exact ih
  | last hx hc => simpa using hx
  | word hx hc _ ih => simpa using ⟨hx, ih⟩

theorem IsWords.sep_notMem (h : IsWords c s ws) : ∀ x ∈ ws, c ∉ x := by
  induction h with
  | nil => exact List.forall_mem_nil _
  | sep _ ih => exact ih
  | last _ hc => exact List.forall_mem_singleton.mpr hc
  | word _ hc _ ih => exact List.forall_mem_cons.mpr ⟨hc, ih⟩

variable [DecidableEq α]

def words (c : α) (s : List α) : List (List α) := (s.splitOn c).filter (· ≠ [])

@[simp] theorem words_nil : words c [] = [] := by simp [words, List.splitOn_nil]

theorem words_of_notMem (hx : x ≠ []) (hc : c ∉ x) : words c x = [x] := by
  simp [words, List.splitOn_eq_singleton hc, hx]

/-- A text is cut at any of its separators. -/
theorem words_append_sep (x y : List α) : words c (x ++ c :: y) = words c x ++ words c y := by
  rw [words, List.splitOn_append_cons_self, List.filter_append, words, words]

@[simp] theorem words_sep (s : List α) : words c (c :: s) = words c s := by
  have h := words_append_sep (c := c) [] s
  rwa [words_nil, List.nil_append, List.nil_append] at h

theorem isWords_words (c : α) (s : List α) : IsWords c s (words c s) := by
  induction hn : s.length using Nat.strongRecOn generalizing s with
  | ind n ih =>
      by_cases hc : c ∈ s
      · -- cut at the first separator
        obtain ⟨x, y, rfl, hx⟩ := List.eq_append_cons_of_mem hc
        have hlt : y.length < n := by
          rw [← hn, List.length_append, List.length_cons]
          omega
        rw [words_append_sep]
        by_cases hnil : x = []
        · subst hnil
          rw [words_nil]
          exact .sep (ih _ hlt y rfl)
        · rw [words_of_notMem hnil hx]
          exact .word hnil hx (ih _ hlt y rfl)
      · by_cases hnil : s = []
        · subst hnil
          rw [words_nil]
          exact .nil
        · rw [words_of_notMem hnil hc]
          exact .last hnil hc

theorem IsWords.eq_words (h : IsWords c s ws) : ws = words c s := by
  induction h with
  | nil => rw [words_nil]
  | sep _ ih => rw [words_sep, ih]
  | last hx hc => rw [words_of_notMem hx hc]
  | word hx hc _ ih => rw [words_append_sep, words_of_notMem hx hc, ih, List.singleton_append]

theorem isWords_iff : IsWords c s ws ↔ ws = words c s := by
  refine ⟨IsWords.eq_words, ?_⟩
  rintro rfl
  exact isWords_words c s

theorem words_padded (h : Padded c s s') : words c s' = words c s := by
  induction h with
  | refl => rfl
  | before _ ih => rw [words_sep, ih]
  | between _ ih => rw [← ih, words_append_sep, words_append_sep, words_sep]
  | behind _ ih => rw [words_append_sep, words_nil, List.append_nil, ih]

end Words
