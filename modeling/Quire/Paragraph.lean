import Quire.Line
import Quire.Text.Blank

/-!
# Paragraphs

The paragraphs of a text are its maximal runs of lines that are not blank, each with its words
separated by single spaces (`Paragraph.split`). Lines are gathered until a blank one comes.
-/

namespace Quire.Paragraph

/-- Whether a line has no word. -/
def isBlankLine (line : Text) : Bool := (Text.trim line).isEmpty

/-- The words of some lines with single spaces between them. -/
def ofLines (lines : List Text) : Text := Text.joinWith [' '] (lines.flatMap Text.words)

/-- What has been read of a text: the paragraphs that are finished, and the lines after them. -/
structure Reading where
  done : List Text := []
  current : List Text := []

namespace Reading

/-- Finishes a paragraph, if there are lines for one. -/
def flush (s : Reading) : Reading :=
  if s.current.isEmpty then s else { done := s.done ++ [ofLines s.current] }

/-- Reads a line. -/
def push (s : Reading) (line : Text) : Reading :=
  if isBlankLine line then s.flush else { s with current := s.current ++ [line] }

end Reading

/-- The paragraphs of a text. -/
def split (t : Text) : List Text := ((Line.split t).foldl Reading.push {}).flush.done

end Quire.Paragraph
