import Quire.Line

/-!
# Chunks

A text is cut into chunks under a budget (`Division`): whole lines packed into chunks of at most
so many UTF-8 bytes (`packLines`), where a line that is larger than the budget gets a chunk to
itself, or slices of so many characters (`slices`). Chunks are numbered from one, and put together
they are the text (`split`).
-/

namespace Quire

/-- A budget: a positive number. -/
abbrev Budget := { n : Nat // 0 < n }

/-- How a text is cut. -/
inductive Division
  /-- Whole lines in chunks of at most so many UTF-8 bytes. -/
  | byBytes (budget : Budget)
  /-- Slices of so many characters. -/
  | byChars (budget : Budget)
  deriving DecidableEq, Repr

/-- A piece of a text with its number. -/
structure Chunk where
  /-- The place of the chunk, counted from one. -/
  index : Nat
  text : Text
  deriving DecidableEq, Repr

namespace Chunk

/-- Fills groups of lines from the left: `done` holds the full groups and `group` the lines of the
one being filled, both reversed, and `size` the bytes of the latter. -/
def packFrom (max : Nat) (done : List (List Text)) (group : List Text) (size : Nat) :
    List Text → List (List Text)
  | [] => (if group.isEmpty then done else group.reverse :: done).reverse
  | line :: lines =>
    let bytes := Text.utf8Length line
    if !group.isEmpty && max < size + bytes then
      packFrom max (group.reverse :: done) [line] bytes lines
    else packFrom max done (line :: group) (size + bytes) lines

/-- Lines in consecutive groups, each filled as long as it has at most `max` bytes. -/
def packLines (max : Nat) (lines : List Text) : List (List Text) := packFrom max [] [] 0 lines

/-- Cuts slices from the left, onto the reversed slices `done`. -/
def slicesFrom (size : Budget) (done : List Text) (t : Text) : List Text :=
  if t = [] then done.reverse
  else slicesFrom size (t.take size :: done) (t.drop size)
termination_by t.length
decreasing_by
  have := size.property
  have := List.length_pos_iff.2 ‹t ≠ []›
  simp only [List.length_drop]
  omega

/-- A text in slices of `size` characters, the last of which may be shorter. -/
def slices (size : Budget) (t : Text) : List Text := slicesFrom size [] t

/-- The texts of the chunks of a text. -/
def texts (t : Text) : Division → List Text
  | .byBytes budget => (packLines budget (Line.split t)).map List.flatten
  | .byChars budget => slices budget t

/-- The chunks of a text, numbered from one. -/
def split (t : Text) (d : Division) : List Chunk :=
  (texts t d).mapIdx fun i text => ⟨i + 1, text⟩

end Chunk

end Quire
