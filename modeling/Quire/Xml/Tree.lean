import Quire.Text.Blank
import Quire.Text.Reader
import Quire.Xml.Escape

/-!
# XML trees

A document is a list of nodes, which are texts and elements (`Node`). `parse?` reads the markup
into tokens and puts elements together; comments, processing instructions and the document type
are left out. Elements have to be closed in the right order, but a document may have any number of
nodes at its top. `Node.print` writes a node.
-/

namespace Quire.Xml

/-- The name of an element or attribute, with the part before the colon, if there is one. -/
structure Name where
  space : Text
  name : Text
  deriving DecidableEq, Repr

/-- A name that may have a colon. -/
def Name.of (t : Text) : Name :=
  match t.dropWhile (· != ':') with
  | _ :: name => ⟨t.takeWhile (· != ':'), name⟩
  | [] => ⟨[], t⟩

/-- A name as it is written. -/
def Name.print (n : Name) : Text := if n.space.isEmpty then n.name else n.space ++ ':' :: n.name

/-- Names with their values. -/
abbrev Attributes := List (Name × Text)

/-- The value of an attribute, whatever stands before the colon in its name. -/
def Attributes.value? (attributes : Attributes) (name : String) : Option Text :=
  (attributes.find? (·.1.name == name.toList)).map Prod.snd

/-- A text, or an element with what it holds. -/
inductive Node
  | text (t : Text)
  | element (name : Name) (attributes : Attributes) (children : List Node)
  deriving Repr

/-! ### Writing -/

/-- Attributes as they are written. -/
def Attributes.print (attributes : Attributes) : Text :=
  attributes.flatMap fun a => ' ' :: a.1.print ++ ['=', '"'] ++ escape a.2 ++ ['"']

mutual

/-- A node as it is written. -/
def Node.print : Node → Text
  | .text t => escape t
  | .element name attributes children =>
    '<' :: name.print ++ attributes.print ++ ['>'] ++ printAll children ++
      ['<', '/'] ++ name.print ++ ['>']

/-- Nodes as they are written. -/
def printAll : List Node → Text
  | [] => []
  | node :: nodes => node.print ++ printAll nodes

end

/-- A document of one element. -/
def printDocument (root : Node) : Text :=
  "<?xml version=\"1.0\" encoding=\"UTF-8\"?>".toList ++ root.print

/-! ### Tokens -/

/-- A piece of a document: text, or a tag. -/
inductive Token
  | text (t : Text)
  | start (name : Text) (attributes : Attributes)
  | stop (name : Text)
  deriving DecidableEq, Repr

/-- The text up to the first place where `stop` stands, and what follows it. -/
def upTo? (stop : Text) : Text → Option (Text × Text)
  | [] => if stop.isEmpty then some ([], []) else none
  | c :: t =>
    match Text.stripPrefix? stop (c :: t) with
    | some rest => some ([], rest)
    | none => (upTo? stop t).map fun (before, rest) => (c :: before, rest)

open Reader

/-- White space. -/
def blanks : Reader Unit := do let _ ← run isBlank

/-- A character of a name in a tag. -/
def isNameChar (c : Char) : Bool := !(isBlank c || ['/', '>', '<', '=', '"', '\''].contains c)

/-- A value between quotes of either kind. -/
def quotedValue : Reader Text := do
  let q ← char fun c => c == '"' || c == '\''
  let raw ← run (· != q)
  literal [q]
  fun t => (decode? (normalizeLines raw)).map fun v => (v, t)

/-- An attribute behind white space. -/
def namedValue : Reader (Name × Text) := do
  let _ ← run1 isBlank
  let name ← run1 isNameChar
  blanks
  literal ['=']
  blanks
  let value ← quotedValue
  return (Name.of name, value)

/-- The rest of a start tag behind `<`; an element may be closed in its start tag. -/
def startTag : Reader (List Token) := do
  let name ← run1 isNameChar
  let attributes ← many namedValue
  blanks
  let empty ← opt (literal ['/'])
  literal ['>']
  if (attributes.map Prod.fst).Nodup then
    return if empty.isSome then [.start name attributes, .stop name] else [.start name attributes]
  else failure

/-- The rest of an end tag behind `</`. -/
def endTag : Reader (List Token) := do
  let name ← run1 isNameChar
  blanks
  literal ['>']
  return [.stop name]

/-- The rest of a document type behind `<!`, up to the `>` that is in no brackets. -/
def documentType (depth : Nat) : Text → Option Text
  | [] => none
  | '<' :: t | '[' :: t => documentType (depth + 1) t
  | ']' :: t => documentType (depth - 1) t
  | '>' :: t => if depth = 0 then some t else documentType (depth - 1) t
  | _ :: t => documentType depth t

/-- The rest of any markup behind `<`. -/
def markup : Reader (List Token)
  | '!' :: '-' :: '-' :: t => (upTo? "-->".toList t).map fun (_, t) => ([], t)
  | '!' :: '[' :: 'C' :: 'D' :: 'A' :: 'T' :: 'A' :: '[' :: t =>
    (upTo? "]]>".toList t).map fun (raw, t) => ([.text (normalizeLines raw)], t)
  | '!' :: t => (documentType 0 t).map fun t => ([], t)
  | '?' :: t => (upTo? "?>".toList t).map fun (_, t) => ([], t)
  | '/' :: t => endTag t
  | t => startTag t

/-- At most `fuel` texts and tags. -/
def tokensUpTo : (fuel : Nat) → Text → Option (List Token)
  | _, [] => some []
  | 0, _ :: _ => none
  | fuel + 1, c :: t =>
    if c = '<' then
      match markup t with
      | some (found, t) => (tokensUpTo fuel t).map (found ++ ·)
      | none => none
    else
      match decode? (normalizeLines ((c :: t).takeWhile (· != '<'))) with
      | some x => (tokensUpTo fuel ((c :: t).dropWhile (· != '<'))).map (.text x :: ·)
      | none => none

/-- The tokens of a document. -/
def tokens? (t : Text) : Option (List Token) := tokensUpTo t.length t

/-! ### Trees -/

/-- An element that is not closed yet: its tag, and the reversed nodes before it. -/
structure Frame where
  name : Text
  attributes : Attributes
  before : List Node

/-- Puts nodes together from tokens: `nodes` are the reversed nodes of the innermost element that
is not closed, whose frame comes first. -/
def build : (frames : List Frame) → (nodes : List Node) → List Token → Option (List Node)
  | [], nodes, [] => some nodes.reverse
  | _ :: _, _, [] => none
  | frames, nodes, .text t :: ts => build frames (.text t :: nodes) ts
  | frames, nodes, .start name attributes :: ts => build (⟨name, attributes, nodes⟩ :: frames) [] ts
  | [], _, .stop _ :: _ => none
  | f :: frames, nodes, .stop name :: ts =>
    if f.name = name then
      build frames (.element (Name.of name) f.attributes nodes.reverse :: f.before) ts
    else none

/-- The nodes of a document. -/
def parse? (t : Text) : Option (List Node) := (tokens? t).bind (build [] [])

end Quire.Xml
