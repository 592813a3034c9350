import Quire.Text.Basic

/-!
# Decimal numbers

`decimal` writes a natural number in base ten and `signedDecimal` an integer, with a hyphen before
a negative one. `readInt64?` reads a signed 64-bit integer: digits after an optional sign.
-/

namespace Quire.Text

/-- A number in base ten. -/
def decimal (n : Nat) : Text := Nat.toDigits 10 n

theorem decimal_inj {m n : Nat} : decimal m = decimal n ↔ m = n := by
  refine ⟨fun h => ?_, congrArg decimal⟩
  have := congrArg (Nat.ofDigitChars 10 · 0) h
  simpa [decimal] using this

/-- An integer in base ten. -/
def signedDecimal : Int → Text
  | .ofNat n => decimal n
  | .negSucc n => '-' :: decimal (n + 1)

/-- The value of a digit in bases up to sixteen. -/
def digitValue? (c : Char) : Option Nat :=
  if '0' ≤ c ∧ c ≤ '9' then some (c.toNat - '0'.toNat)
  else if 'a' ≤ c ∧ c ≤ 'f' then some (c.toNat - 'a'.toNat + 10)
  else if 'A' ≤ c ∧ c ≤ 'F' then some (c.toNat - 'A'.toNat + 10)
  else none

/-- The number written by digits of a base, after the digits whose number is `n`. -/
def readDigits (base n : Nat) : Text → Option Nat
  | [] => some n
  | c :: t =>
    match digitValue? c with
    | some d => if d < base then readDigits base (base * n + d) t else none
    | none => none

/-- The number written by one or more digits of a base. -/
def readNat? (base : Nat) (t : Text) : Option Nat :=
  if t.isEmpty then none else readDigits base 0 t

/-- An integer as a signed 64-bit word, if it is in range. -/
def int64? (i : Int) : Option Int64 :=
  if Int64.minValue.toInt ≤ i ∧ i ≤ Int64.maxValue.toInt then some (Int64.ofInt i) else none

/-- The signed 64-bit integer written by an optional sign and one or more decimal digits. -/
def readInt64? : Text → Option Int64
  | '-' :: t => (readNat? 10 t).bind fun n => int64? (-(n : Int))
  | '+' :: t => (readNat? 10 t).bind fun n => int64? n
  | t => (readNat? 10 t).bind fun n => int64? n

end Quire.Text
