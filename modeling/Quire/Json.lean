import Quire.Text.Decimal

/-!
# JSON

`Json.print` writes a value over several lines, with two spaces for each level; empty lists and
objects stay on one line. The fields of an object keep their order.
-/

namespace Quire

/-- A JSON value whose numbers are natural. -/
inductive Json
  | null
  | number (n : Nat)
  | text (t : Text)
  | list (items : List Json)
  | object (fields : List (String × Json))
  deriving Repr

namespace Json

/-- A character between quotes. -/
def escapeChar (c : Char) : Text :=
  match c with
  | '"' => ['\\', '"']
  | '\\' => ['\\', '\\']
  | '\x08' => ['\\', 'b']
  | '\x0c' => ['\\', 'f']
  | '\n' => ['\\', 'n']
  | '\r' => ['\\', 'r']
  | '\t' => ['\\', 't']
  | _ =>
    if c.toNat < 0x20 then
      let digits := Nat.toDigits 16 c.toNat
      ['\\', 'u'] ++ List.replicate (4 - digits.length) '0' ++ digits
    else [c]

/-- A text between quotes. -/
def quoted (t : Text) : Text := '"' :: t.flatMap escapeChar ++ ['"']

/-- A new line at a level. -/
def newLine (level : Nat) : Text := '\n' :: List.replicate (2 * level) ' '

/-- Items between brackets, each on a line of its own, within a level. -/
def enclosed (open_ close : Char) (level : Nat) : List Text → Text
  | [] => [open_, close]
  | items =>
    open_ :: newLine (level + 1) ++ Text.joinWith (',' :: newLine (level + 1)) items ++
      newLine level ++ [close]

mutual

/-- A value as it is written at a level. -/
def printAt (level : Nat) : Json → Text
  | null => "null".toList
  | number n => Text.decimal n
  | text t => quoted t
  | list items => enclosed '[' ']' level (printItems (level + 1) items)
  | object fields => enclosed '\x7b' '\x7d' level (printFields (level + 1) fields)

/-- The items of a list as they are written at a level. -/
def printItems (level : Nat) : List Json → List Text
  | [] => []
  | item :: items => printAt level item :: printItems level items

/-- The fields of an object as they are written at a level. -/
def printFields (level : Nat) : List (String × Json) → List Text
  | [] => []
  | (name, value) :: fields =>
    (quoted name.toList ++ [':', ' '] ++ printAt level value) :: printFields level fields

end

/-- A value as it is written. -/
def print (j : Json) : Text := printAt 0 j

end Json

end Quire
