import Mathlib.Data.List.Basic
import Quire.Text.Decimal

/-!
# Decimal numbers, read again

What `decimal` writes has digits only, and no zero in front of others. Read again it is the same
number (`readNat?_decimal`).
-/

namespace Quire.Text

variable {n : Nat} {c : Char}

theorem isDigit_of_mem_decimal (h : c ∈ decimal n) : c.isDigit :=
  Nat.isDigit_of_mem_toDigits (by omega) (by omega) h

theorem decimal_ne_nil (n : Nat) : decimal n ≠ [] := Nat.toDigits_ne_nil

theorem decimal_of_lt (h : n < 10) : decimal n = [n.digitChar] := Nat.toDigits_of_lt_base h

theorem decimal_of_le (h : 10 ≤ n) : decimal n = decimal (n / 10) ++ [(n % 10).digitChar] :=
  Nat.toDigits_of_base_le (by omega) h

theorem head?_decimal (h : n ≠ 0) : (decimal n).head? ≠ some '0' := by
  induction n using Nat.strongRecOn with
  | ind n ih =>
    by_cases hn : n < 10
    · rw [decimal_of_lt hn, List.head?_singleton, ne_eq, Option.some.injEq,
        Nat.digitChar_eq_zero]
      exact h
    · rw [decimal_of_le (by omega), List.head?_append_of_ne_nil _ (decimal_ne_nil _)]
      exact ih (n / 10) (by omega) (by omega)

theorem digitValue?_digitChar (h : n < 10) : digitValue? n.digitChar = some n := by
  have hlow : '0' ≤ n.digitChar ∧ n.digitChar ≤ '9' := by
    simp only [Char.le_def, UInt32.le_iff_toNat_le]
    have := Nat.toNat_digitChar_of_lt_ten h
    change 48 ≤ n.digitChar.toNat ∧ n.digitChar.toNat ≤ 57
    omega
  rw [digitValue?, if_pos hlow, Nat.toNat_digitChar_of_lt_ten h]
  exact congrArg some (by change 48 + n - 48 = n; omega)

theorem readDigits_append (base m : Nat) (t u : Text) :
    readDigits base m (t ++ u) = (readDigits base m t).bind fun n => readDigits base n u := by
  induction t generalizing m with
  | nil => rfl
  | cons c t ih =>
    rw [List.cons_append, readDigits, readDigits]
    split
    · split
      · exact ih _
      · rfl
    · rfl

theorem readDigits_digitChar (m : Nat) (h : n < 10) :
    readDigits 10 m [n.digitChar] = some (10 * m + n) := by
  rw [readDigits, digitValue?_digitChar h]
  dsimp only
  rw [if_pos h, readDigits]

theorem readDigits_decimal (n : Nat) : readDigits 10 0 (decimal n) = some n := by
  induction n using Nat.strongRecOn with
  | ind n ih =>
    by_cases hn : n < 10
    · rw [decimal_of_lt hn, readDigits_digitChar 0 hn]
      exact congrArg some (by omega)
    · rw [decimal_of_le (by omega), readDigits_append, ih (n / 10) (by omega), Option.bind_some,
        readDigits_digitChar _ (by omega)]
      exact congrArg some (by omega)

theorem readNat?_decimal (n : Nat) : readNat? 10 (decimal n) = some n := by
  rw [readNat?, List.isEmpty_eq_false_iff.2 (decimal_ne_nil n)]
  exact readDigits_decimal n

theorem int64?_toInt (i : Int64) : int64? i.toInt = some i := by
  rw [int64?, if_pos ⟨Int64.le_iff_toInt_le.1 (Int64.minValue_le i),
    Int64.le_iff_toInt_le.1 (Int64.le_maxValue i)⟩, Int64.ofInt_toInt]

end Quire.Text
