import SimpleTaskQueue.Core.Delimited
import SimpleTaskQueue.Model.Proc.Task
/-!
# SimpleTaskQueue.Model.Dao.SQLiteQueue.Args

`SQLiteQueue::splitString` and `concatString`: the argument list is stored as one text,
with `__,__` between the arguments.

Decoding and encoding again gives the text back (`concatString_splitString`). Encoding and
decoding gives the list back exactly on the `Lossless` lists. The delimiter overlaps itself,
so besides the empty list and the arguments that contain it, the ones that end with `__,`
or `__,_` (and are followed by another argument) are lost too (`lossless_iff`).
-/

namespace SimpleTaskQueue

open Delimited

/-- The delimiter of both functions. -/
def delimiter : Str := "__,__".toList

/-- `SQLiteQueue::splitString`. -/
def splitString (s : Str) : List Str := split delimiter s

/-- `SQLiteQueue::concatString`. -/
def concatString (args : List Str) : Str := delimiter.intercalate args

theorem delimiter_ne_nil : delimiter ≠ [] := by decide

/-- Decoding loses nothing: the stored text can be written again unchanged. -/
@[simp] theorem concatString_splitString (s : Str) : concatString (splitString s) = s :=
  intercalate_split delimiter_ne_nil s

/-- The argument lists that come back unchanged from the table. -/
def Lossless (args : List Str) : Prop :=
  args ≠ [] ∧ (∀ a ∈ args, ¬ delimiter <:+: a) ∧
    ∀ a ∈ args.dropLast, ¬ "__,".toList <:+ a ∧ ¬ "__,_".toList <:+ a

instance (args : List Str) : Decidable (Lossless args) := inferInstanceAs (Decidable (_ ∧ _))

/-- The proper prefixes of the delimiter whose rest is a prefix of it again. -/
theorem delimiter_overlap {p r : Str} (h : delimiter = p ++ r) (hp : p ≠ []) (hr : r ≠ []) :
    r <+: delimiter ↔ p = "__,".toList ∨ p = "__,_".toList := by
  have hsplit : (p, r) ∈ (List.range 6).map fun i => (delimiter.take i, delimiter.drop i) := by
    refine List.mem_map.mpr ⟨p.length, ?_, by rw [h]; simp⟩
    have := congrArg List.length h
    simp only [List.length_append] at this
    have hlen : delimiter.length = 5 := by decide
    exact List.mem_range.mpr (by omega)
  have hall : ∀ q ∈ (List.range 6).map fun i => (delimiter.take i, delimiter.drop i),
      q.1 ≠ [] → q.2 ≠ [] →
        (q.2 <+: delimiter ↔ q.1 = "__,".toList ∨ q.1 = "__,_".toList) := by decide
  exact hall (p, r) hsplit hp hr

theorem find_append_delimiter {a : Str} :
    find delimiter (a ++ delimiter) = some a.length ↔
      ¬ delimiter <:+: a ∧ ¬ "__,".toList <:+ a ∧ ¬ "__,_".toList <:+ a := by
  rw [find_append_self_iff delimiter_ne_nil]
  refine and_congr_right fun _ => ⟨fun h => ⟨?_, ?_⟩, ?_⟩
  · exact h "__,".toList "__".toList (by decide) (by decide) (by decide) (by decide)
  · exact h "__,_".toList "_".toList (by decide) (by decide) (by decide) (by decide)
  · intro h p r hpr hp hr hpre
    obtain ⟨h₁, h₂⟩ := h
    rcases (delimiter_overlap hpr hp hr).mp hpre with rfl | rfl
    · exact h₁
    · exact h₂

theorem clean_iff_lossless (args : List Str) : Clean delimiter args ↔ Lossless args := by
  induction args with
  | nil => simp [Clean, Lossless]
  | cons a l ih =>
      cases l with
      | nil => simp [Clean, Lossless, find_eq_none_iff]
      | cons b l =>
          rw [Clean, ih, find_append_delimiter]
          simp only [Lossless, List.dropLast_cons_cons, List.mem_cons, forall_eq_or_imp, ne_eq,
            reduceCtorEq, not_false_eq_true, true_and]
          tauto

/-- **The domain of the codec.** -/
theorem lossless_iff (args : List Str) :
    splitString (concatString args) = args ↔ Lossless args :=
  (split_intercalate_iff delimiter_ne_nil args).trans (clean_iff_lossless args)

theorem nulFree_concatString {args : List Str} (h : ∀ a ∈ args, NulFree a) :
    NulFree (concatString args) := by
  induction args with
  | nil => simp [concatString, NulFree]
  | cons a l ih =>
      have ha : NulFree a := h a List.mem_cons_self
      have hl : NulFree (concatString l) := ih fun b hb => h b (List.mem_cons_of_mem _ hb)
      cases l with
      | nil => simpa [concatString] using ha
      | cons b l =>
          have hd : NulFree delimiter := by decide
          unfold NulFree concatString at *
          rw [List.intercalate_cons_cons]
          simp [ha, hl, hd]

end SimpleTaskQueue
