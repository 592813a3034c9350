import Quire.Word.Body
import Quire.Xml.Tree

/-!
# The markup of bodies

`Body.ofNodes` finds the body in the markup of a document. Elements that it does not know are
transparent: what they hold counts as if it stood in their place. Tables, content controls,
properties and tracked changes are left out with all they hold. A text becomes a leaf without its
line feeds, and with the names of characters in it replaced although the markup has been decoded
(`Leaf.ofCharacters`). `Body.document` is the markup of a body.
-/

namespace Quire.Word

open Xml (Node Name)

/-- Whether the local name of an element is one of those given. -/
def isNamed (names : List String) (n : Name) : Bool := names.any (·.toList == n.name)

/-- Whether an element holds nothing that counts in a body. -/
def isSkippedInBody : Name → Bool := isNamed ["tbl", "sdt", "sectPr"]

/-- Whether an element holds nothing that counts in a paragraph. -/
def isSkippedInParagraph : Name → Bool :=
  isNamed ["pPr", "ins", "del", "moveFrom", "moveTo", "tbl", "sdt"]

/-- Whether an element holds nothing that counts in a run. -/
def isSkippedInRun : Name → Bool :=
  isNamed ["rPr", "rPrChange", "delText", "instrText", "delInstrText", "drawing", "shape",
    "Fallback"]

/-- A text with the names of the commonest characters of markup replaced by the characters. Each
name is replaced once: a name that appears in this way stays. -/
def unescape : Text → Text
  | [] => []
  | '&' :: 'l' :: 't' :: ';' :: t => '<' :: unescape t
  | '&' :: 'g' :: 't' :: ';' :: t => '>' :: unescape t
  | '&' :: 'a' :: 'm' :: 'p' :: ';' :: t => '&' :: unescape t
  | '&' :: 'q' :: 'u' :: 'o' :: 't' :: ';' :: t => '"' :: unescape t
  | '&' :: '#' :: '3' :: '9' :: ';' :: t => '\'' :: unescape t
  | '&' :: 'a' :: 'p' :: 'o' :: 's' :: ';' :: t => '\'' :: unescape t
  | '&' :: 'n' :: 'b' :: 's' :: 'p' :: ';' :: t => ' ' :: unescape t
  | c :: t => c :: unescape t

/-- The leaf for a text in a run. -/
def Leaf.ofCharacters (t : Text) : Leaf := .text (unescape (t.filter (· != '\n')))

mutual

/-- The leaves that a node of a run stands for; `inText` holds within an element for text. -/
def leavesOfNode (inText : Bool) : Node → List Leaf
  | .text t => if inText then [.ofCharacters t] else []
  | .element name attributes children =>
    if isSkippedInRun name then []
    else if name.space != ['w'] then leavesOfNodes inText children
    else if isNamed ["t"] name then leavesOfNodes true children
    else if isNamed ["tab"] name then .tab :: leavesOfNodes inText children
    else if isNamed ["br"] name then
      (if attributes.value? "type" = some "page".toList then .pageBreak else .lineBreak) ::
        leavesOfNodes inText children
    else leavesOfNodes inText children

/-- The leaves that the nodes of a run stand for. -/
def leavesOfNodes (inText : Bool) : List Node → List Leaf
  | [] => []
  | node :: nodes => leavesOfNode inText node ++ leavesOfNodes inText nodes

end

mutual

/-- The inlines that a node of a paragraph stands for. -/
def inlinesOfNode : Node → List Inline
  | .text _ => []
  | .element name _ children =>
    if isSkippedInParagraph name then [.other]
    else if isNamed ["r"] name then [.run (leavesOfNodes false children)]
    else if isNamed ["hyperlink"] name then [.link (inlinesOfNodes children)]
    else inlinesOfNodes children

/-- The inlines that the nodes of a paragraph stand for. -/
def inlinesOfNodes : List Node → List Inline
  | [] => []
  | node :: nodes => inlinesOfNode node ++ inlinesOfNodes nodes

end

mutual

/-- The style that the properties of a paragraph name. -/
def styleOfNode? : Node → Option Text
  | .text _ => none
  | .element name attributes children =>
    if isNamed ["pStyle"] name then attributes.value? "val"
    else if isNamed ["pPr"] name then styleOfNodes? children
    else none

/-- The first style that one of some nodes names. -/
def styleOfNodes? : List Node → Option Text
  | [] => none
  | node :: nodes => (styleOfNode? node).or (styleOfNodes? nodes)

end

mutual

/-- The blocks that a node of a document stands for. -/
def blocksOfNode : Node → List Block
  | .text _ => []
  | .element name _ children =>
    if isSkippedInBody name then [.other]
    else if isNamed ["p"] name then [.paragraph (styleOfNodes? children) (inlinesOfNodes children)]
    else blocksOfNodes children

/-- The blocks that the nodes of a document stand for. -/
def blocksOfNodes : List Node → List Block
  | [] => []
  | node :: nodes => blocksOfNode node ++ blocksOfNodes nodes

end

/-- The body in the markup of a document. -/
def Body.ofNodes (nodes : List Node) : Body := blocksOfNodes nodes

/-! ### Writing -/

/-- An element of word processing markup. -/
def element (name : String) (attributes : List (String × Text)) (children : List Node) : Node :=
  .element ⟨['w'], name.toList⟩ (attributes.map fun a => (⟨['w'], a.1.toList⟩, a.2)) children

/-- A leaf as markup; others have none. -/
def Leaf.nodes : Leaf → List Node
  | .text t =>
    [.element ⟨['w'], ['t']⟩ [(⟨"xml".toList, "space".toList⟩, "preserve".toList)] [.text t]]
  | .tab => [element "tab" [] []]
  | .lineBreak => [element "br" [] []]
  | .pageBreak => [element "br" [("type", "page".toList)] []]
  | .other => []

mutual

/-- An inline as markup; others have none. -/
def Inline.nodes : Inline → List Node
  | .run leaves => [element "r" [] (leaves.flatMap Leaf.nodes)]
  | .link children => [element "hyperlink" [] (nodesOfInlines children)]
  | .other => []

/-- Inlines as markup. -/
def nodesOfInlines : List Inline → List Node
  | [] => []
  | child :: children => child.nodes ++ nodesOfInlines children

end

/-- A block as markup; others have none. -/
def Block.nodes : Block → List Node
  | .paragraph none children => [element "p" [] (nodesOfInlines children)]
  | .paragraph (some style) children =>
    [element "p" [] (element "pPr" [] [element "pStyle" [("val", style)] []] ::
      nodesOfInlines children)]
  | .other => []

/-- The name space of word processing markup. -/
def nameSpace : Text := "http://schemas.openxmlformats.org/wordprocessingml/2006/main".toList

/-- A root element that declares the name space. -/
def root (name : String) (children : List Node) : Node :=
  .element ⟨['w'], name.toList⟩ [(⟨"xmlns".toList, ['w']⟩, nameSpace)] children

/-- A body as the markup of a document. -/
def Body.document (b : Body) : Node := root "document" [element "body" [] (b.flatMap Block.nodes)]

end Quire.Word
