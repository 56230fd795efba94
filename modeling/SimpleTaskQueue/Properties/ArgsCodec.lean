import SimpleTaskQueue.Model.Dao.SQLiteQueue.Args
/-!
# SimpleTaskQueue.Properties.ArgsCodec

**The domain of the args codec.** The loops of `splitString` and `concatString` are spelled out
here, with the string that is cut and the vector that grows: the first one ends on every text
(`Splits.total`), in the result that the model gives, and the second one joins with the delimiter.
-/

namespace SimpleTaskQueue

open Delimited

variable {s : Str} {out r : List Str}

/-- The loop of `splitString` on `s` and `out`, down to its end. -/
inductive Splits : Str → List Str → List Str → Prop
  /-- `s.find(delimiter)` is a position: the token goes to `out`, and `s` is cut behind it. -/
  | round {s : Str} {out r : List Str} {pos : Nat} (h : find delimiter s = some pos)
      (hrest : Splits (s.drop (pos + delimiter.length)) (out ++ [s.take pos]) r) : Splits s out r
  /-- It is `npos`: the rest goes to `out`. -/
  | done {s : Str} {out : List Str} (h : find delimiter s = none) : Splits s out (out ++ [s])

/-- Every round makes the text shorter, so the loop ends. -/
theorem Splits.total (s : Str) (out : List Str) : Splits s out (out ++ splitString s) := by
  induction hn : s.length using Nat.strong_induction_on generalizing s out with
  | _ n ih =>
      cases h : find delimiter s with
      | none =>
          rw [splitString, split_of_none delimiter_ne_nil h]
          exact .done h
      | some pos =>
          have hle := find_le h
          have hlen : delimiter.length = 5 := by decide
          have hshort : (s.drop (pos + delimiter.length)).length < n := by
            rw [List.length_drop]
            omega
          have hrest := ih _ hshort (s.drop (pos + delimiter.length)) (out ++ [s.take pos]) rfl
          rw [List.append_assoc, List.singleton_append] at hrest
          rw [splitString, split_of_some delimiter_ne_nil h]
          exact .round h hrest

/-- It has one result. -/
theorem Splits.unique {r' : List Str} (h : Splits s out r) (h' : Splits s out r') : r = r' := by
  induction h with
  | round h _ ih =>
      cases h' with
      | round h' hrest =>
          obtain rfl := Option.some.inj (h.symm.trans h')
          exact ih hrest
      | done h' =>
          rw [h] at h'
          cases h'
  | done h =>
      cases h' with
      | round h' =>
          rw [h] at h'
          cases h'
      | done => rfl

theorem splits_iff : Splits s [] r ↔ r = splitString s :=
  ⟨fun h => h.unique (Splits.total s []), fun h => h ▸ Splits.total s []⟩

/-- The loop of `concatString`, over all arguments but the last. -/
def concatLoop (args : List Str) (out : Str) : Str :=
  args.foldl (fun out a => out ++ (a ++ delimiter)) out

theorem concatLoop_append (args : List Str) (a out : Str) :
    concatLoop args out ++ a = out ++ concatString (args ++ [a]) := by
  induction args generalizing out with
  | nil => simp [concatLoop, concatString]
  | cons b args ih =>
      have hcons : concatString (b :: (args ++ [a])) =
          b ++ delimiter ++ concatString (args ++ [a]) :=
        List.intercalate_cons_of_ne_nil (by simp)
      rw [concatLoop, List.foldl_cons, ← concatLoop, ih, List.cons_append, hcons,
        List.append_assoc]

theorem concatString_eq_loop {args : List Str} (h : args ≠ []) :
    concatString args = concatLoop args.dropLast [] ++ args.getLast h := by
  rw [concatLoop_append, List.dropLast_concat_getLast, List.nil_append]

/-- **The domain on which the codec is lossless.** The loop of `splitString` ends with every text,
and `concatString` gives the text back. A list comes back from its text unless it is empty, or one
of its elements contains the delimiter, or one that is not the last ends with `__,` or `__,_`, where
the delimiter behind it would be found too early. -/
theorem codec_domain :
    (∀ s, (∀ r, Splits s [] r ↔ r = splitString s) ∧ concatString (splitString s) = s) ∧
    ∀ args, splitString (concatString args) = args ↔
      args ≠ [] ∧ (∀ a ∈ args, ¬ "__,__".toList <:+: a) ∧
        ∀ a ∈ args.dropLast, ¬ "__,".toList <:+ a ∧ ¬ "__,_".toList <:+ a :=
  ⟨fun s => ⟨fun _ => splits_iff, concatString_splitString s⟩, lossless_iff⟩

/-- The last element may end with what the others may not. -/
example : splitString (concatString ["a__,".toList, "b".toList]) = ["a".toList, ",__b".toList] ∧
    splitString (concatString ["b".toList, "a__,".toList]) = ["b".toList, "a__,".toList] := by
  decide

end SimpleTaskQueue
