import Quire.Text.Decimal
import Quire.Text.Reader

/-!
# PDF values

A PDF file is read as a text with one character for each of its bytes. `value` reads a value of its
syntax: numbers, names, strings, arrays, dictionaries, and references to objects.
-/

namespace Quire.Pdf

open Reader

/-- The number and the generation of an object. -/
structure ObjectId where
  number : Nat
  generation : Nat
  deriving DecidableEq, Repr

/-- A value. -/
inductive Value
  | null
  | boolean (b : Bool)
  | integer (n : Int)
  | real
  | name (t : Text)
  | string (t : Text)
  | array (items : List Value)
  | dictionary (entries : List (Text × Value))
  | reference (id : ObjectId)
  deriving Repr

/-- Names with their values. -/
abbrev Dictionary := List (Text × Value)

/-- Sets the value of a name. -/
def Dictionary.set (name : Text) (v : Value) : Dictionary → Dictionary
  | [] => [(name, v)]
  | e :: es => if e.1 = name then (name, v) :: es else e :: set name v es

/-- The value of a name. -/
def Dictionary.get? (d : Dictionary) (name : String) : Option Value := d.lookup name.toList

namespace Value

/-- A name. -/
def name? : Value → Option Text
  | name t => some t
  | _ => none

/-- An integer. -/
def integer? : Value → Option Int
  | integer n => some n
  | _ => none

/-- An array. -/
def array? : Value → Option (List Value)
  | array items => some items
  | _ => none

/-- A dictionary. -/
def dictionary? : Value → Option Dictionary
  | dictionary entries => some entries
  | _ => none

/-- A reference. -/
def reference? : Value → Option ObjectId
  | reference id => some id
  | _ => none

end Value

/-! ### Characters -/

/-- White space, the character NUL included. -/
def isSpace (c : Char) : Bool := [' ', '\t', '\n', '\r', '\x00', '\x0c'].contains c

/-- A character that ends a name or a number. -/
def isDelimiter (c : Char) : Bool :=
  ['(', ')', '<', '>', '[', ']', '\x7b', '\x7d', '/', '%'].contains c

/-- A decimal digit. -/
def isDigit (c : Char) : Bool := '0' ≤ c && c ≤ '9'

/-- The end of a line. -/
def lineEnd : Reader Unit := literal ['\r', '\n'] <|> literal ['\n'] <|> literal ['\r']

/-- A comment with the end of its line. -/
def comment : Reader Unit := do
  literal ['%']
  let _ ← run fun c => c != '\r' && c != '\n'
  lineEnd

/-- White space and comments. -/
def space : Reader Unit := do
  let _ ← many ((do let _ ← run1 isSpace) <|> comment)

/-! ### Scalars -/

/-- A natural number. -/
def natural : Reader Nat := do
  let ds ← run1 isDigit
  (Text.readNat? 10 ds : Option Nat)

/-- An integer in 64 bits. -/
def integer : Reader Int := do
  let s ← opt (char fun c => c == '+' || c == '-')
  let n ← natural
  let i : Int := if s = some '-' then -n else n
  let _ ← (Text.int64? i : Option Int64)
  return i

/-- A number with a point. -/
def real : Reader Unit := do
  let _ ← opt (char fun c => c == '+' || c == '-')
  let whole ← run isDigit
  literal ['.']
  let frac ← run isDigit
  if whole.isEmpty && frac.isEmpty then failure

/-- The character whose code is written with two hexadecimal digits. -/
def hexPair : Reader Char
  | a :: b :: t => (Text.readNat? 16 [a, b]).map fun n => (Char.ofNat n, t)
  | _ => none

/-- A name behind its slash, where `#` and two digits stand for a character. -/
def name : Reader Text := do
  literal ['/']
  many ((do literal ['#']; hexPair) <|> char fun c => c != '#' && !isSpace c && !isDelimiter c)

/-! ### Strings -/

/-- An octal digit. -/
def isOctal (c : Char) : Bool := '0' ≤ c && c ≤ '7'

/-- What an escape stands for, read behind its backslash: a character, or nothing at the end of a
line. -/
def escape : Reader Text
  | 'n' :: t => some (['\n'], t)
  | 'r' :: t => some (['\r'], t)
  | 't' :: t => some (['\t'], t)
  | 'b' :: t => some (['\x08'], t)
  | 'f' :: t => some (['\x0c'], t)
  | '\r' :: '\n' :: t => some ([], t)
  | '\r' :: t => some ([], t)
  | '\n' :: t => some ([], t)
  | t =>
    match (t.take 3).takeWhile isOctal, t with
    | [], c :: t => some ([c], t)
    | [], [] => none
    | digits, t =>
      (Text.readNat? 8 digits).map fun n => ([Char.ofNat (n % 256)], t.drop digits.length)

/-- How deep parentheses may be nested in a string. -/
def maxNesting : Nat := 100

/-- At most `fuel` characters and escapes of a string within `depth` parentheses, and the
parenthesis that closes the string. -/
def stringRest : (fuel depth : Nat) → Reader Text
  | 0, _, _ => none
  | _ + 1, _, [] => none
  | fuel + 1, depth, c :: t =>
    if c = ')' then
      match depth with
      | 0 => some ([], t)
      | depth + 1 => prepend [c] (stringRest fuel depth t)
    else if c = '(' then
      if depth < maxNesting then prepend [c] (stringRest fuel (depth + 1) t) else none
    else if c = '\\' then
      match escape t with
      | some (x, t) => prepend x (stringRest fuel depth t)
      | none => none
    else prepend [c] (stringRest fuel depth t)

/-- A string between parentheses. -/
def literalString : Reader Text := do
  literal ['(']
  fun t => stringRest (t.length + 1) 0 t

/-- The characters whose codes are written with two digits each; a last digit alone is followed by
a zero. -/
def ofHexPairs : Text → Text
  | a :: b :: t => Char.ofNat ((Text.readNat? 16 [a, b]).getD 0) :: ofHexPairs t
  | [a] => [Char.ofNat ((Text.readNat? 16 [a, '0']).getD 0)]
  | [] => []

/-- A string of hexadecimal digits, among which white space does not count. -/
def hexString : Reader Text := do
  literal ['<']
  let digits ← run fun c => isSpace c || (Text.digitValue? c).isSome
  literal ['>']
  return ofHexPairs (digits.filter (!isSpace ·))

/-! ### Values -/

/-- The number of an object. -/
def objectId : Reader ObjectId := do
  let n ← natural
  space
  let g ← natural
  space
  if n < 0x100000000 && g < 0x10000 then return ⟨n, g⟩ else failure

/-- A reference to an object. -/
def reference : Reader ObjectId := do
  let id ← objectId
  literal ['R']
  return id

/-- Items between brackets. -/
def array (item : Reader Value) : Reader (List Value) := do
  literal ['[']
  space
  let items ← many (do
    let v ← item
    space
    return v)
  literal [']']
  return items

/-- Names with their values between double angle brackets. -/
def dictionary (item : Reader Value) : Reader Dictionary := do
  literal ['<', '<']
  space
  let entries ← many (do
    let k ← name
    space
    let v ← item
    space
    return (k, v))
  literal ['>', '>']
  return entries.foldl (fun d e => d.set e.1 e.2) []

/-- A value that is neither a reference nor made of others. -/
def scalar : Reader Value :=
  (do literal "null".toList; return .null) <|>
  (do literal "true".toList; return .boolean true) <|>
  (do literal "false".toList; return .boolean false) <|>
  (do real; return .real) <|>
  (do return .integer (← integer)) <|>
  (do return .name (← name)) <|>
  (do return .string (← literalString)) <|>
  (do return .string (← hexString))

/-- A value with arrays and dictionaries nested at most `depth` deep. -/
def valueWithin : (depth : Nat) → Reader Value
  | 0 => (do return .reference (← reference)) <|> scalar
  | depth + 1 =>
    (do return .reference (← reference)) <|>
    scalar <|>
    (do return .array (← array (valueWithin depth))) <|>
    (do return .dictionary (← dictionary (valueWithin depth)))

/-- How deep arrays and dictionaries may be nested. -/
def maxDepth : Nat := 200

/-- A value. -/
def value : Reader Value := valueWithin maxDepth

end Quire.Pdf
