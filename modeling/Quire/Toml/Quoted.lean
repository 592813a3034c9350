import Quire.Text.Decimal
import Quire.Text.Reader

/-!
# Strings in TOML

A string is written in one of four styles (`Style`): between double quotes, where a backslash
escapes, or between single quotes, where nothing does; and in either case on one line between
single delimiters, or over several lines between triple ones. `string` reads a string in any style,
`quoted` writes one in the style that needs the fewest escapes.
-/

namespace Quire.Toml

/-- The four ways to write a string. -/
inductive Style
  | basic
  | literal
  | multilineBasic
  | multilineLiteral
  deriving DecidableEq, Repr

namespace Style

/-- The quote of a style. -/
def quote : Style → Char
  | basic | multilineBasic => '"'
  | literal | multilineLiteral => '\''

/-- Whether a string may go over several lines. -/
def multiline : Style → Bool
  | basic | literal => false
  | multilineBasic | multilineLiteral => true

/-- Whether a backslash escapes. -/
def escapes : Style → Bool
  | basic | multilineBasic => true
  | literal | multilineLiteral => false

/-- What stands at either end of a string. -/
def delimiter (s : Style) : Text := List.replicate (if s.multiline then 3 else 1) s.quote

end Style

/-- A control character that may not stand in a document as it is; line feed and carriage return
are among them, since they only stand in newlines. -/
def isControl (c : Char) : Bool := (c.toNat < 0x20 && c != '\t') || c.toNat == 0x7F

/-- A space or a tab. -/
def isSpace (c : Char) : Bool := c == ' ' || c == '\t'

/-! ### Reading -/

/-- A line feed, with or without a carriage return before it. -/
def newline : Reader Unit := Reader.literal ['\n'] <|> Reader.literal ['\r', '\n']

/-- The character whose code point is written with `count` hexadecimal digits. -/
def codePoint (count : Nat) : Reader Char := fun t =>
  if t.length < count then none
  else
    match Text.readNat? 16 (t.take count) with
    | some n => if n.isValidChar then some (Char.ofNat n, t.drop count) else none
    | none => none

/-- A backslash at the end of a line hides the newline and all white space that follows. -/
def lineContinuation : Reader Unit := do
  let _ ← Reader.run isSpace
  newline
  let _ ← Reader.many (newline <|> do let _ ← Reader.run1 isSpace)

/-- What an escape stands for, read behind its backslash. -/
def escape (s : Style) : Reader Text
  | 'b' :: t => some (['\x08'], t)
  | 't' :: t => some (['\t'], t)
  | 'n' :: t => some (['\n'], t)
  | 'f' :: t => some (['\x0c'], t)
  | 'r' :: t => some (['\r'], t)
  | '"' :: t => some (['"'], t)
  | '\\' :: t => some (['\\'], t)
  | 'u' :: t => (codePoint 4 t).map fun (c, t) => ([c], t)
  | 'U' :: t => (codePoint 8 t).map fun (c, t) => ([c], t)
  | t => if s.multiline then (lineContinuation t).map fun (_, t) => ([], t) else none

/-- What stands before the closing delimiter at the start of a text, and what follows it: a run of
three to five quotes closes a string of several lines, and those beyond three belong to it. -/
def closing (s : Style) : Reader Text := fun t =>
  let quotes := (t.takeWhile (· == s.quote)).length
  if s.multiline then
    if quotes < 3 then none
    else
      let inside := min (quotes - 3) 2
      some (List.replicate inside s.quote, t.drop (inside + 3))
  else if quotes = 0 then none
  else some ([], t.drop 1)

/-- At most `fuel` characters and escapes of a string, and its closing delimiter. -/
def stringRest (s : Style) : (fuel : Nat) → Reader Text
  | 0, _ => none
  | _ + 1, [] => none
  | fuel + 1, c :: t =>
    match closing s (c :: t) with
    | some r => some r
    | none =>
      if s.escapes && c == '\\' then
        match escape s t with
        | some (x, t) => Reader.prepend x (stringRest s fuel t)
        | none => none
      else if s.multiline && c == '\n' then Reader.prepend [c] (stringRest s fuel t)
      else if s.multiline && c == '\r' then
        match t with
        | '\n' :: t => Reader.prepend ['\n'] (stringRest s fuel t)
        | _ => none
      else if isControl c then none
      else Reader.prepend [c] (stringRest s fuel t)

/-- A string in a given style; a newline right after the opening delimiter of one that may go over
several lines does not count. -/
def stringIn (s : Style) : Reader Text := do
  Reader.literal s.delimiter
  if s.multiline then
    let _ ← Reader.opt newline
  fun t => stringRest s (t.length + 1) t

/-- The style in which a string is written that begins at the start of a text. -/
def styleOf? : Text → Option Style
  | '"' :: '"' :: '"' :: _ => some .multilineBasic
  | '"' :: _ => some .basic
  | '\'' :: '\'' :: '\'' :: _ => some .multilineLiteral
  | '\'' :: _ => some .literal
  | _ => none

/-- A string in any style. -/
def string : Reader Text := fun t =>
  match styleOf? t with
  | some s => stringIn s t
  | none => none

/-- A string on one line. -/
def lineString : Reader Text := stringIn .basic <|> stringIn .literal

/-! ### Writing -/

/-- The length of the longest run of a character in a text, after `current` of it and if the
longest run before that had length `longest`. -/
def longestRunFrom (q : Char) (longest current : Nat) : Text → Nat
  | [] => longest
  | c :: t =>
    if c = q then longestRunFrom q (max longest (current + 1)) (current + 1) t
    else longestRunFrom q longest 0 t

/-- The length of the longest run of a character in a text. -/
def longestRun (q : Char) (t : Text) : Nat := longestRunFrom q 0 0 t

/-- Whether a text can be written in a style with nothing but tabs escaped. -/
def isPlainIn (s : Style) (t : Text) : Bool :=
  !t.any (fun c => isControl c && c != '\n') &&
    (!s.escapes || !t.contains '\\') &&
    (s.multiline || !t.contains '\n') &&
    longestRun s.quote t < (if s.multiline then 3 else 1)

/-- The first style in which the text is plain; else double quotes, over several lines if the text
has several. -/
def styleFor (t : Text) : Style :=
  match [Style.basic, .literal, .multilineBasic, .multilineLiteral].find? (isPlainIn · t) with
  | some s => s
  | none => if t.contains '\n' then .multilineBasic else .basic

/-- A number as four hexadecimal digits. -/
def fourDigits (n : Nat) : Text :=
  let digits := (Nat.toDigits 16 n).map Char.toUpper
  List.replicate (4 - digits.length) '0' ++ digits

/-- A character other than a quote between double quotes. -/
def escaped (s : Style) (c : Char) : Text :=
  match c with
  | '\x08' => ['\\', 'b']
  | '\t' => ['\\', 't']
  | '\n' => if s.multiline then ['\n'] else ['\\', 'n']
  | '\x0c' => ['\\', 'f']
  | '\r' => ['\\', 'r']
  | '\\' => ['\\', '\\']
  | _ => if isControl c then ['\\', 'u'] ++ fourDigits c.toNat else [c]

/-- A text between double quotes, after a run of `quotes` quotes that are not escaped: where three
would close the string, the third in a row is escaped, and where one would, each is. -/
def escapedFrom (s : Style) : (quotes : Nat) → Text → Text
  | _, [] => []
  | quotes, c :: t =>
    if c = '"' then
      if quotes + 1 < s.delimiter.length then '"' :: escapedFrom s (quotes + 1) t
      else '\\' :: '"' :: escapedFrom s 0 t
    else escaped s c ++ escapedFrom s 0 t

/-- A text as a string in a style. -/
def quotedIn (s : Style) (t : Text) : Text :=
  s.delimiter ++ (if s.multiline && t.contains '\n' then ['\n'] else []) ++
    (if s.escapes then escapedFrom s 0 t else t) ++ s.delimiter

/-- A text as a string. -/
def quoted (t : Text) : Text := quotedIn (styleFor t) t

end Quire.Toml
