import Quire.Line

/-!
# Bodies of word processor documents

A `Body` is what a document shows, as far as its text is concerned: paragraphs, which hold runs and
links, which hold leaves. Tables and whatever else may stand among them are `other`. The text of a
body (`Body.text`) is that of its paragraphs with line feeds between them.
-/

namespace Quire.Word

/-- What a run may hold. -/
inductive Leaf
  | text (t : Text)
  | tab
  | lineBreak
  | pageBreak
  | other
  deriving DecidableEq, Repr

/-- What a paragraph or a link may hold. -/
inductive Inline
  | run (leaves : List Leaf)
  | link (children : List Inline)
  | other
  deriving Repr

/-- What a body may hold. -/
inductive Block
  | paragraph (style : Option Text) (children : List Inline)
  | other
  deriving Repr

/-- A sequence of blocks. -/
abbrev Body := List Block

namespace Leaf

/-- The text for which a leaf stands. -/
def content : Leaf → Text
  | text t => t
  | tab => ['\t']
  | lineBreak | pageBreak => ['\n']
  | other => []

/-- The characters that a leaf holds itself; tabs and breaks stand for theirs. -/
def raw : Leaf → Text
  | text t => t
  | _ => []

end Leaf

namespace Inline

mutual

/-- The leaves of an inline in order. -/
def leaves : Inline → List Leaf
  | run leaves => leaves
  | link children => leavesOfAll children
  | other => []

/-- The leaves of some inlines in order. -/
def leavesOfAll : List Inline → List Leaf
  | [] => []
  | child :: children => child.leaves ++ leavesOfAll children

end

end Inline

/-- The text of a paragraph. -/
def Block.text? : Block → Option Text
  | .paragraph _ children => some ((Inline.leavesOfAll children).flatMap Leaf.content)
  | .other => none

namespace Body

/-- The texts of the paragraphs of a body. -/
def paragraphs (b : Body) : List Text := b.filterMap Block.text?

/-- The text of a body. -/
def text (b : Body) : Text := Text.joinWith ['\n'] b.paragraphs

/-- The lines of a body. -/
def lines (b : Body) : List Text := Line.split b.text

end Body

end Quire.Word
