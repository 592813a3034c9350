import Quire.Text.Blank

/-!
# Front matter

A line that is `---` up to white space at its ends is a delimiter. Delimiters come in pairs that
enclose a block of front matter; `strip` drops them and all lines of their blocks. A delimiter
without a partner encloses the rest of the lines.
-/

namespace Quire.FrontMatter

/-- Whether a line opens or closes a block. -/
def isDelimiter (line : Text) : Bool := Text.trim line == ['-', '-', '-']

/-- Goes through the lines: `inside` holds within a block, and `kept` is reversed. -/
def stripFrom (kept : List Text) : (inside : Bool) → List Text → List Text
  | _, [] => kept.reverse
  | inside, line :: lines =>
    if isDelimiter line then stripFrom kept (!inside) lines
    else if inside then stripFrom kept inside lines
    else stripFrom (line :: kept) inside lines

/-- The lines outside the blocks of front matter. -/
def strip (lines : List Text) : List Text := stripFrom [] false lines

theorem stripFrom_eq (kept : List Text) (inside : Bool) (lines : List Text) :
    stripFrom kept inside lines = kept.reverse ++ stripFrom [] inside lines := by
  induction lines generalizing kept inside with
  | nil => simp [stripFrom]
  | cons line lines ih =>
    simp only [stripFrom]
    split
    · exact ih kept _
    · split
      · exact ih kept _
      · rw [ih (line :: kept), ih [line]]; simp

end Quire.FrontMatter
