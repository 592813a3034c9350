import Quire.Chunk
import Quire.Paragraph
import Quire.Text.Decimal
import Quire.Word.Package

/-!
# Chunks as a word processor document

`layout` goes through the chunks and writes the paragraphs of each. If there are several chunks, each
begins with a heading, and ends with a page break unless it is the last.
-/

namespace Quire.Word

/-- A paragraph of a document made from chunks. -/
inductive Written
  | heading (t : Text)
  | plain (t : Text)
  | pageBreak
  deriving DecidableEq, Repr

/-- The heading of a chunk. -/
def headingOf (c : Chunk) : Text := "Part ".toList ++ Text.decimal c.index

/-- The paragraphs of a chunk. -/
def plainOf (c : Chunk) : List Written := (Paragraph.split c.text).map .plain

/-- What has been written and then the paragraphs of a chunk at a position among `count`. -/
def writeChunk (count : Nat) (written : List Written) : Chunk × Nat → List Written
  | (c, position) =>
    written ++ (if 1 < count then [.heading (headingOf c)] else []) ++ plainOf c ++
      (if 1 < count ∧ position + 1 < count then [.pageBreak] else [])

/-- The paragraphs of all chunks. -/
def layout (cs : List Chunk) : List Written := cs.zipIdx.foldl (writeChunk cs.length) []

/-- A paragraph as a block. -/
def Written.block : Written → Block
  | heading t => .paragraph (some Package.headingStyle) [.run [.text t]]
  | plain t => .paragraph none [.run [.text t]]
  | pageBreak => .paragraph none [.run [.pageBreak]]

/-- The body for some chunks. -/
def bodyOf (cs : List Chunk) : Body := (layout cs).map Written.block

end Quire.Word
