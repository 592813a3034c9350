import Quire.Text.Printable

/-!
# Quoted texts

`quoted` puts a text between double quotes in the form in which error messages show a name: quotes
and backslashes are escaped, and characters that do not print are written as `\n`, `\r`, `\t`,
`\0` or `\u` with the code point in hexadecimal between braces.
-/

namespace Quire.Text

/-- A character as it stands between quotes. -/
def escapeQuoted (c : Char) : Text :=
  match c with
  | '\x00' => ['\\', '0']
  | '\t' => ['\\', 't']
  | '\r' => ['\\', 'r']
  | '\n' => ['\\', 'n']
  | '\\' => ['\\', '\\']
  | '"' => ['\\', '"']
  | _ => if isPrintable c then [c] else ['\\', 'u', '\x7b'] ++ Nat.toDigits 16 c.toNat ++ ['\x7d']

/-- A text between double quotes. -/
def quoted (t : Text) : Text := '"' :: t.flatMap escapeQuoted ++ ['"']

end Quire.Text
