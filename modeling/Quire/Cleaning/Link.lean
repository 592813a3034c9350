import Quire.Text.Basic

/-!
# Wiki links

A reference `[[label]]` is unwrapped to its label and an embed `![[target]]` is dropped with its
target (`remove`). The text is read once from left to right. A `Scan` holds the links that are
open, innermost first, each with the text that stands before its marker, and the body of the
innermost one; texts in it are reversed, so that their last character is at hand. Two equal
brackets form a marker only if both belong to the body of the innermost link. A `]]` closes that
link, a `[[` opens a new one except inside an embed, which ends at its first `]]`, and the markers
of links that never close are put back where they stood (`Scan.restored`).
-/

namespace Quire.Link

/-- The two kinds of links. -/
inductive Kind
  /-- `[[label]]`, which stands for its label. -/
  | reference
  /-- `![[target]]`, which stands for nothing. -/
  | embed
  deriving DecidableEq, Repr

/-- The opening marker of a link. -/
def Kind.marker : Kind → Text
  | .reference => ['[', '[']
  | .embed => ['!', '[', '[']

/-- A link whose closing marker has not been read: its kind, and the reversed text before its
marker, up to the marker of the link around it. -/
structure Open where
  kind : Kind
  before : Text
  deriving DecidableEq, Repr

/-- What has been read of a text: the reversed body of the innermost open link, or of the text
itself if none is open, and the open links, innermost first. -/
structure Scan where
  body : Text
  links : List Open
  deriving DecidableEq, Repr

namespace Scan

/-- Nothing has been read. -/
def start : Scan := ⟨[], []⟩

/-- A character that completes no marker. -/
def push (s : Scan) (c : Char) : Scan := ⟨c :: s.body, s.links⟩

/-- The marker `]]`, whose link has the reversed body `inner`. -/
def close (inner : Text) : List Open → Scan
  | [] => ⟨']' :: ']' :: inner, []⟩
  | ⟨.reference, before⟩ :: links => ⟨inner ++ before, links⟩
  | ⟨.embed, before⟩ :: links => ⟨before, links⟩

/-- The marker `[[` after the reversed body `before`. -/
def opened (before : Text) (links : List Open) : Scan :=
  match links, before with
  | ⟨.embed, _⟩ :: _, _ => ⟨'[' :: '[' :: before, links⟩
  | _, '!' :: before => ⟨[], ⟨.embed, before⟩ :: links⟩
  | _, _ => ⟨[], ⟨.reference, before⟩ :: links⟩

/-- Reads one character. -/
def step (s : Scan) (c : Char) : Scan :=
  match c, s.body with
  | ']', ']' :: inner => close inner s.links
  | '[', '[' :: before => opened before s.links
  | _, _ => s.push c

/-- Reads a text. -/
def read (s : Scan) (t : Text) : Scan := t.foldl step s

/-- The text read, reversed, with the markers of the open links back in their places. -/
def reversed (s : Scan) : Text :=
  s.body ++ s.links.flatMap fun link => link.kind.marker.reverse ++ link.before

/-- The text read, with the markers of the open links back in their places. -/
def restored (s : Scan) : Text := s.reversed.reverse

end Scan

/-- A text with its references unwrapped and its embeds dropped. -/
def remove (t : Text) : Text := (Scan.start.read t).restored

end Quire.Link
