import SimpleTaskQueue.Model.Utils
/-!
# SimpleTaskQueue.Properties.Address

**Which addresses does `verifyIP` accept?** Four decimal numbers up to 255, each in one to three
digits, with a dot between any two.
-/

namespace SimpleTaskQueue

open Regex

variable {w s : Str}

/-- A decimal number up to 255, in one to three digits. -/
def IsOctet (w : Str) : Prop :=
  1 ≤ w.length ∧ w.length ≤ 3 ∧ w.all Char.isDigit = true ∧ Nat.ofDigitChars 10 w 0 ≤ 255

instance (w : Str) : Decidable (IsOctet w) :=
  inferInstanceAs (Decidable (1 ≤ w.length ∧ w.length ≤ 3 ∧ w.all Char.isDigit = true ∧ _))

theorem char_le_iff {c d : Char} : c ≤ d ↔ c.toNat ≤ d.toNat := by
  rw [Char.le_def, UInt32.le_iff_toNat_le]
  rfl

/-- The number of a digit. -/
def digit (c : Char) : Nat := c.toNat - 48

theorem isDigit_iff {c : Char} : c.isDigit = true ↔ 48 ≤ c.toNat ∧ c.toNat ≤ 57 :=
  Char.isDigit_iff_toNat

/-- By the number of characters: the cases of the expression are ranges of the digits. -/
theorem mem_octetRegex : w ∈ octetRegex.lang ↔ IsOctet w := by
  match w with
  | [] => simp [octetRegex, symbol, range, IsOctet]
  | [x] =>
      have hregex : [x] ∈ octetRegex.lang ↔ 48 ≤ x.toNat ∧ x.toNat ≤ 57 := by
        simp [octetRegex, symbol, range, char_le_iff]
      have hoctet : IsOctet [x] ↔ x.isDigit = true ∧ digit x ≤ 255 := by
        simp [IsOctet, Nat.ofDigitChars_cons, digit]
      rw [hregex, hoctet, isDigit_iff, digit]
      omega
  | [x, y] =>
      have hregex : [x, y] ∈ octetRegex.lang ↔
          (48 ≤ x.toNat ∧ x.toNat ≤ 57) ∧ 48 ≤ y.toNat ∧ y.toNat ≤ 57 := by
        simp [octetRegex, symbol, range, char_le_iff]
        omega
      have hoctet : IsOctet [x, y] ↔
          x.isDigit = true ∧ y.isDigit = true ∧ 10 * digit x + digit y ≤ 255 := by
        simp [IsOctet, Nat.ofDigitChars_cons, digit, and_assoc]
      rw [hregex, hoctet, isDigit_iff, isDigit_iff, digit, digit]
      omega
  | [x, y, z] =>
      have hregex : [x, y, z] ∈ octetRegex.lang ↔
          x.toNat = 50 ∧ y.toNat = 53 ∧ 48 ≤ z.toNat ∧ z.toNat ≤ 53 ∨
          x.toNat = 50 ∧ (48 ≤ y.toNat ∧ y.toNat ≤ 52) ∧ 48 ≤ z.toNat ∧ z.toNat ≤ 57 ∨
          (48 ≤ x.toNat ∧ x.toNat ≤ 49) ∧ (48 ≤ y.toNat ∧ y.toNat ≤ 57) ∧
            48 ≤ z.toNat ∧ z.toNat ≤ 57 := by
        simp [octetRegex, symbol, range, char_le_iff, ← Char.toNat_inj]
      have hoctet : IsOctet [x, y, z] ↔ x.isDigit = true ∧ y.isDigit = true ∧ z.isDigit = true ∧
          10 * (10 * digit x + digit y) + digit z ≤ 255 := by
        simp [IsOctet, Nat.ofDigitChars_cons, digit, and_assoc]
      rw [hregex, hoctet, isDigit_iff, isDigit_iff, isDigit_iff, digit, digit, digit]
      omega
  | _ :: _ :: _ :: _ :: _ => simp [octetRegex, symbol, range, IsOctet]

/-- A dot. -/
theorem mem_symbol {c : Char} : w ∈ (symbol c).lang ↔ w = [c] := by
  rw [symbol, mem_sym]
  simp

theorem verifyIP_eq_zero :
    verifyIP s = 0 ↔ s ∈ (seq (rep 3 (seq octetRegex (symbol '.'))) octetRegex).lang := by
  have hplain : (seq (rep 3 (seq octetRegex (symbol '.'))) octetRegex).Plain := by
    simp [octetRegex, symbol, range, Plain]
  rw [← matchesAll_anchored hplain, ← matchesAll_assoc, verifyIP, ipRegex]
  split <;> simp_all

theorem verifyIP_separated :
    verifyIP s = 0 ↔ ∃ groups : List Str, groups.length = 4 ∧
      (∀ g ∈ groups, g ∈ octetRegex.lang) ∧ s = ['.'].intercalate groups := by
  rw [verifyIP_eq_zero, mem_separated fun _ => mem_symbol]

/-- **`verifyIP` accepts the dotted quads**: four groups with single dots between them, each a
decimal number up to 255 in one to three digits. -/
theorem verifyIP_accepts_iff (s : Str) :
    verifyIP s = 0 ↔ ∃ groups : List Str, groups.length = 4 ∧ (∀ g ∈ groups, IsOctet g) ∧
      s = ['.'].intercalate groups := by
  rw [verifyIP_separated]
  simp only [mem_octetRegex]

/-- The four groups one by one. -/
theorem verifyIP_eq_zero_iff :
    verifyIP s = 0 ↔ ∃ a b c d, IsOctet a ∧ IsOctet b ∧ IsOctet c ∧ IsOctet d ∧
      s = a ++ '.' :: (b ++ '.' :: (c ++ '.' :: d)) := by
  simp only [verifyIP_separated, mem_octetRegex]
  constructor
  · intro hgroups
    obtain ⟨groups, hlen, hoctets, rfl⟩ := hgroups
    obtain ⟨a, b, c, d, rfl⟩ := List.length_eq_four.mp hlen
    simp only [List.forall_mem_cons] at hoctets
    obtain ⟨ha, hb, hc, hd, -⟩ := hoctets
    exact ⟨a, b, c, d, ha, hb, hc, hd, by simp [List.intercalate]⟩
  · intro haddress
    obtain ⟨a, b, c, d, ha, hb, hc, hd, rfl⟩ := haddress
    refine ⟨[a, b, c, d], rfl, ?_, by simp [List.intercalate]⟩
    simp only [List.forall_mem_cons]
    exact ⟨ha, hb, hc, hd, by simp⟩

end SimpleTaskQueue
