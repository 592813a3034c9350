import Quire.Text.Decimal
import Quire.Text.Reader
import Quire.Toml.Value

/-!
# Numbers, dates and times in TOML

Integers are decimal, or hexadecimal, octal or binary behind `0x`, `0o` and `0b`; single
underscores may stand between digits, and the number must fit in 64 bits (`integer`). Floats
(`float`) and dates and times (`dateTime`) are checked, but no value is made of them.
-/

namespace Quire.Toml

open Reader

/-- A decimal digit. -/
def isDigit (c : Char) : Bool := '0' ≤ c && c ≤ '9'

/-- Further digits of a class, each of which may have an underscore before it; an underscore that
no digit follows is an error. -/
def moreDigits (p : Char → Bool) : Reader Text := do
  let digits ← many (do
    let _ ← opt (literal ['_'])
    char p)
  fun t =>
    match t with
    | '_' :: _ => none
    | _ => some (digits, t)

/-- Digits of a class, with underscores between them left out. -/
def digits (p : Char → Bool) : Reader Text := do
  let first ← char p
  let others ← moreDigits p
  return first :: others

/-- Decimal digits without a leading zero, or zero. -/
def plainDigits : Reader Text := (do literal ['0']; pure ['0']) <|> digits isDigit

/-- A sign, if there is one: whether it is a hyphen. -/
def sign : Reader Bool := do
  let s ← opt (char fun c => c == '+' || c == '-')
  return s == some '-'

/-- A signed decimal integer. -/
def decimalInteger : Reader Int := do
  let negative ← sign
  let ds ← plainDigits
  let n : Nat ← (Text.readNat? 10 ds : Option Nat)
  return if negative then -n else n

/-- An integer in another base behind its letter. -/
def basedInteger (base : Nat) (letter : Char) : Reader Int := do
  literal ['0', letter]
  let ds ← digits fun c => (Text.digitValue? c).any (· < base)
  let n : Nat ← (Text.readNat? base ds : Option Nat)
  return n

/-- An integer in 64 bits. -/
def integer : Reader Int64 := fun t =>
  let number : Reader Int :=
    match t with
    | '0' :: 'x' :: _ => basedInteger 16 'x'
    | '0' :: 'o' :: _ => basedInteger 8 'o'
    | '0' :: 'b' :: _ => basedInteger 2 'b'
    | _ => decimalInteger
  match number t with
  | some (i, rest) => (Text.int64? i).map fun n => (n, rest)
  | none => none

/-! ### Floats -/

/-- The exponent of a float. -/
def exponent : Reader Int := do
  let _ ← char fun c => c == 'e' || c == 'E'
  let negative ← sign
  let ds ← digits isDigit
  let n : Nat ← (Text.readNat? 10 ds : Option Nat)
  return if negative then -n else n

/-- The digits behind the point of a float. -/
def fraction : Reader Text := do
  literal ['.']
  digits isDigit

/-- Whether `m * 10 ^ e` is too large for a double: at least the middle between the largest one
and the next power of two. -/
def isTooLarge (m : Nat) (e : Int) : Bool :=
  let magnitude := (Nat.toDigits 10 m).length + e
  if m = 0 || magnitude < 300 then false
  else if 320 < magnitude then true
  else
    let limit := Nat.pow 2 1024 - Nat.pow 2 970
    if 0 ≤ e then limit ≤ m * Nat.pow 10 e.toNat else limit * Nat.pow 10 (-e).toNat ≤ m

/-- A decimal float, which may not be too large for a double; a negative one may. -/
def decimalFloat : Reader Unit := do
  let negative ← sign
  let whole ← plainDigits
  let frac ← opt fraction
  let exp ← if frac.isNone then (do return some (← exponent)) else opt exponent
  let m : Nat ← (Text.readNat? 10 (whole ++ frac.getD []) : Option Nat)
  if !negative && isTooLarge m (exp.getD 0 - ((frac.getD []).length : Int)) then failure

/-- Infinity or not a number. -/
def specialFloat : Reader Unit := do
  let _ ← sign
  literal "inf".toList <|> literal "nan".toList

/-- A float. -/
def float : Reader Unit := decimalFloat <|> specialFloat

/-! ### Dates and times -/

/-- A number of `count` digits between two bounds. -/
def field (count low high : Nat) : Reader Nat := fun t =>
  if (t.take count).length = count && (t.take count).all isDigit then
    match Text.readNat? 10 (t.take count) with
    | some n => if low ≤ n && n ≤ high then some (n, t.drop count) else none
    | none => none
  else none

/-- The number of days of a month. -/
def daysIn (year month : Nat) : Nat :=
  if month = 2 then
    if year % 4 = 0 && (year % 100 != 0 || year % 400 = 0) then 29 else 28
  else if [4, 6, 9, 11].contains month then 30
  else 31

/-- A date. -/
def date : Reader Unit := do
  let year ← field 4 0 9999
  literal ['-']
  let month ← field 2 1 12
  literal ['-']
  let _ ← field 2 1 (daysIn year month)

/-- A time of day. -/
def time : Reader Unit := do
  let _ ← field 2 0 23
  literal [':']
  let _ ← field 2 0 59
  literal [':']
  let _ ← field 2 0 60
  let _ ← opt (do literal ['.']; run1 isDigit)

/-- The offset of a time from universal time. -/
def offset : Reader Unit :=
  (do let _ ← char fun c => c == 'Z' || c == 'z') <|> do
    let _ ← char fun c => c == '+' || c == '-'
    let _ ← field 2 0 23
    literal [':']
    let _ ← field 2 0 59

/-- A date, a time, or the two together, with an offset or without. -/
def dateTime : Reader Unit :=
  (do
    date
    let _ ← opt (do
      let _ ← char fun c => c == 'T' || c == 't' || c == ' '
      time
      let _ ← opt offset)) <|> time

/-! ### Any of them -/

/-- A number, a date or a time. -/
def number : Reader Value :=
  (do dateTime; return .other) <|> (do float; return .other) <|>
    (do return .scalar (.integer (← integer)))

end Quire.Toml
