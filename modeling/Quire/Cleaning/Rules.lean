import Quire.Cleaning.Email
import Quire.Cleaning.FrontMatter
import Quire.Cleaning.Link
import Quire.Cleaning.Url
import Quire.Line

/-!
# Cleaning

`Rules` are the five cleaning rules, each on or off. `normalizeLine` applies the rules for a line
to its body and puts the terminator back: tokens (links, URLs, e-mail addresses) are removed until
a pass removes nothing more, since removing one can join its neighbours into another, and white
space is collapsed last. `clean` drops front matter, normalizes the lines that are left and puts
them together.
-/

namespace Quire

/-- Which cleaning rules are on. -/
structure Rules where
  /-- Drop embeds and unwrap references. -/
  removeLinks : Bool := true
  /-- Drop URLs. -/
  removeUrls : Bool := false
  /-- Drop e-mail addresses. -/
  removeEmails : Bool := false
  /-- Turn runs of white space into one space and trim. -/
  collapseBlanks : Bool := true
  /-- Drop front matter. -/
  stripFrontMatter : Bool := true
  deriving DecidableEq, Repr

namespace Rules

/-- One pass of the rules that remove tokens: links, then URLs, then e-mail addresses. -/
def removeTokens (r : Rules) (t : Text) : Text :=
  let t := if r.removeLinks then Link.remove t else t
  let t := if r.removeUrls then Url.remove t else t
  if r.removeEmails then Email.remove t else t

/-- Repeats a pass as long as it makes the text shorter. -/
def untilStable (pass : Text → Text) (t : Text) : Text :=
  let next := pass t
  if next.length < t.length then untilStable pass next else t
termination_by t.length

/-- The body of a line after the rules. -/
def normalizeBody (r : Rules) (body : Text) : Text :=
  let stable := untilStable r.removeTokens body
  if r.collapseBlanks then Text.collapse stable else stable

/-- A line after the rules, with its terminator unchanged. -/
def normalizeLine (r : Rules) (line : Text) : Text :=
  let (body, terminator) := Line.splitTerminator line
  r.normalizeBody body ++ terminator

/-- The lines that are not front matter, or all if that rule is off. -/
def keptLines (r : Rules) (lines : List Text) : List Text :=
  if r.stripFrontMatter then FrontMatter.strip lines else lines

end Rules

/-- The outcome of cleaning. -/
structure Cleaned where
  /-- The normalized lines put together. -/
  text : Text
  /-- The number of lines before front matter was dropped. -/
  linesIn : Nat
  /-- The number of lines after that. -/
  linesKept : Nat
  deriving DecidableEq, Repr

/-- Drops front matter, normalizes every line that is left and puts them together. -/
def Rules.clean (r : Rules) (lines : List Text) : Cleaned where
  text := ((r.keptLines lines).map r.normalizeLine).flatten
  linesIn := lines.length
  linesKept := (r.keptLines lines).length

end Quire
