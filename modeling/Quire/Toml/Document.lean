import Quire.Toml.Number
import Quire.Toml.Quoted
import Quire.Toml.Tree

/-!
# TOML documents

A document is a sequence of statements: headers of tables and of elements of arrays of tables, and
entries that give a value to a key. `value` reads a value, `statements` the statements of a
document, and `document?` puts together the table that they define.
-/

namespace Quire.Toml

open Reader

/-! ### Blanks and comments -/

/-- Spaces and tabs. -/
def spaces : Reader Unit := do let _ ← run isSpace

/-- A comment, up to the end of its line. -/
def comment : Reader Unit := do
  literal ['#']
  let _ ← run fun c => !isControl c

/-- The end of a line, or of the document. -/
def lineBreak : Reader Unit := newline <|> atEnd

/-- What may follow a statement on its line, and the end of the line. -/
def lineEnd : Reader Unit := do
  spaces
  let _ ← opt comment
  lineBreak

/-- Blanks, newlines and comments, which may stand around the items of a list. -/
def gap : Reader Unit := do
  let _ ← many (newline <|> comment <|> do let _ ← run1 isSpace)

/-! ### Keys -/

/-- How deep keys and values may be nested. -/
def maxDepth : Nat := 79

/-- A character of a name without quotes. -/
def isBareChar (c : Char) : Bool := c.isAlphanum || c == '_' || c == '-'

/-- One part of a key, with spaces around it. -/
def keyPart : Reader Text := do
  spaces
  let part ← lineString <|> run1 isBareChar
  spaces
  return part

/-- A key, whose parts are separated by dots. -/
def key : Reader Key := do
  let parts ← separated1 keyPart (literal ['.'])
  if parts.length ≤ maxDepth then return parts else failure

/-! ### Values -/

/-- A key and its value. -/
def entry (item : Reader Value) : Reader (Key × Value) := do
  let k ← key
  literal ['=']
  spaces
  let v ← item
  return (k, v)

/-- A list between brackets, with commas between its items and perhaps one more at its end. -/
def list (item : Reader Value) : Reader (List Value) := do
  literal ['[']
  let items ← separated (do
    gap
    let v ← item
    gap
    return v) (literal [','])
  if !items.isEmpty then
    let _ ← opt (literal [','])
  gap
  literal [']']
  return items

/-- A table between braces on one line, with commas between its entries. -/
def inlineTable (item : Reader Value) : Reader Entries := do
  literal ['\x7b']
  let entries ← separated (do
    let e ← entry item
    spaces
    return e) (literal [','])
  spaces
  literal ['\x7d']
  (entries.foldlM (fun table e => table.insert e.2 e.1) [] : Option Entries)

/-- A value that is neither a list nor a table. -/
def scalar : Reader Value :=
  (do return .scalar (.text (← string))) <|>
  (do literal "true".toList; return .scalar (.boolean true)) <|>
  (do literal "false".toList; return .scalar (.boolean false)) <|>
  number

/-- A value with lists and tables nested at most `depth` deep. -/
def valueWithin : (depth : Nat) → Reader Value
  | 0 => scalar
  | depth + 1 =>
    scalar <|>
    (do return .list (← list (valueWithin depth))) <|>
    (do return (← inlineTable (valueWithin depth)).toValue)

/-- A value. -/
def value : Reader Value := valueWithin maxDepth

/-! ### Statements -/

/-- A statement of a document. -/
inductive Statement
  /-- `[key]` -/
  | header (key : Key)
  /-- `[[key]]` -/
  | element (key : Key)
  /-- `key = value` -/
  | entry (key : Key) (value : Value)
  deriving Repr

/-- A statement. -/
def statement : Reader Statement :=
  (do
    literal ['[', '[']
    let k ← key
    literal [']', ']']
    return .element k) <|>
  (do
    literal ['[']
    let k ← key
    literal [']']
    return .header k) <|>
  (do
    let e ← entry value
    return .entry e.1 e.2)

/-- A line, which holds a statement or nothing but blanks and a comment. -/
def line : Reader (Option Statement) := do
  spaces
  (do newline; return none) <|>
    (do comment; lineBreak; return none) <|>
    (do
      let s ← statement
      lineEnd
      return some s)

/-- The statements of a document, behind a byte order mark if there is one. -/
def statements : Reader (List Statement) := do
  let _ ← opt (literal ['\ufeff'])
  let lines ← many line
  spaces
  return lines.filterMap id

/-! ### Documents -/

/-- The tables that some statements have defined, and the path of the one to which entries go. -/
structure Draft where
  root : Entries
  path : Key

/-- Adds what a statement defines. -/
def Draft.add (d : Draft) : Statement → Option Draft
  | .header k => (d.root.openTable k).map (⟨·, k⟩)
  | .element k => (d.root.openElement k).map (⟨·, k⟩)
  | .entry k v => (d.root.within (Entries.insert v k) d.path).map (⟨·, d.path⟩)

/-- The table that a document defines. -/
def document? (t : Text) : Option Value :=
  (whole? statements t).bind fun ss =>
    (ss.foldlM Draft.add ⟨[], []⟩).map fun d => d.root.toValue

end Quire.Toml
