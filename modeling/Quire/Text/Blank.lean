import Quire.Text.Basic

/-!
# White space

`isBlank` is the Unicode property White_Space. On it rest `trim`, `words` (the maximal pieces
without white space), and `collapse` (every run of white space becomes one space, and the ends
are trimmed).
-/

namespace Quire

/-- The characters with the Unicode property White_Space. -/
def isBlank (c : Char) : Bool :=
  let n := c.toNat
  (0x09 ≤ n && n ≤ 0x0D) || n == 0x20 || n == 0x85 || n == 0xA0 || n == 0x1680 ||
    (0x2000 ≤ n && n ≤ 0x200A) || n == 0x2028 || n == 0x2029 || n == 0x202F || n == 0x205F ||
    n == 0x3000

namespace Text

/-- A text without the white space at its start. -/
def trimStart (t : Text) : Text := t.dropWhile isBlank

/-- A text without the white space at its end. -/
def trimEnd (t : Text) : Text := (t.reverse.dropWhile isBlank).reverse

/-- A text without the white space at its ends. -/
def trim (t : Text) : Text := trimEnd (trimStart t)

/-- The pieces of a text between its white space characters, empty ones included. -/
def pieces (t : Text) : List Text := t.splitOnP isBlank

/-- The maximal pieces of a text without white space. -/
def words (t : Text) : List Text := (pieces t).filter (!·.isEmpty)

/-- Puts a character in front of a text whose white space is squeezed, white space as one space
that is not repeated. -/
def squeezeStep (c : Char) (rest : Text) : Text :=
  if isBlank c then
    match rest with
    | ' ' :: _ => rest
    | _ => ' ' :: rest
  else c :: rest

/-- A text with every run of white space replaced by one space. -/
def squeeze (t : Text) : Text := t.foldr squeezeStep []

/-- A text with every run of white space replaced by one space, and trimmed. -/
def collapse (t : Text) : Text := trim (squeeze t)

end Text

end Quire
