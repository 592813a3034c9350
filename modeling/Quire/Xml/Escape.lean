import Quire.Text.Decimal

/-!
# References in XML

Characters with a meaning in markup are written as references (`escape`). `decode?` puts the
characters back for which references stand, by name or by number, and fails if one is unknown or
not finished.
-/

namespace Quire.Xml

/-- A character as it is written in text and in attributes. -/
def escapeChar (c : Char) : Text :=
  match c with
  | '&' => "&amp;".toList
  | '<' => "&lt;".toList
  | '>' => "&gt;".toList
  | '"' => "&quot;".toList
  | '\'' => "&apos;".toList
  | _ => [c]

/-- A text as it is written in text and in attributes. -/
def escape (t : Text) : Text := t.flatMap escapeChar

/-- The character of a code point other than zero. -/
def charOf? (n : Nat) : Option Char :=
  if n != 0 && n.isValidChar then some (Char.ofNat n) else none

/-- The character for which a reference stands, by what is between `&` and `;`. -/
def reference? : Text → Option Char
  | ['a', 'm', 'p'] => some '&'
  | ['l', 't'] => some '<'
  | ['g', 't'] => some '>'
  | ['q', 'u', 'o', 't'] => some '"'
  | ['a', 'p', 'o', 's'] => some '\''
  | '#' :: 'x' :: digits => (Text.readNat? 16 digits).bind charOf?
  | '#' :: digits => (Text.readNat? 10 digits).bind charOf?
  | _ => none

/-- Goes through a text: `done` is what has been decoded, and `name` what has been read of a
reference, both reversed. -/
def decodeFrom (done : Text) : (name : Option Text) → Text → Option Text
  | none, [] => some done.reverse
  | some _, [] => none
  | none, c :: t => if c = '&' then decodeFrom done (some []) t else decodeFrom (c :: done) none t
  | some name, c :: t =>
    if c = ';' then (reference? name.reverse).bind fun x => decodeFrom (x :: done) none t
    else decodeFrom done (some (c :: name)) t

/-- A text with its references replaced by what they stand for. -/
def decode? (t : Text) : Option Text := decodeFrom [] none t

/-- A text in which every end of a line is a line feed. -/
def normalizeLines : Text → Text
  | [] => []
  | '\r' :: '\n' :: t => '\n' :: normalizeLines t
  | '\r' :: t => '\n' :: normalizeLines t
  | c :: t => c :: normalizeLines t

end Quire.Xml
