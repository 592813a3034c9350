import Quire.Cleaning.Pattern

/-!
# Web addresses

A URL is `http://` or `https://` followed by one or more characters of `isUrlChar`, as many as
there are. The pattern is ASCII and case-sensitive.
-/

namespace Quire.Url

/-- An ASCII letter or digit, or one of the marks that may stand in a URL. -/
def isUrlChar (c : Char) : Bool :=
  c.isAlphanum || ['-', '.', '_', '~', ':', '/', '?', '#', '[', ']', '@', '!', '$', '&', '\'',
    '(', ')', '*', '+', ',', ';', '=', '%'].contains c

/-- What follows `http://` or `https://` at the start of a text. -/
def afterScheme? : Text → Option Text
  | 'h' :: 't' :: 't' :: 'p' :: ':' :: '/' :: '/' :: rest => some rest
  | 'h' :: 't' :: 't' :: 'p' :: 's' :: ':' :: '/' :: '/' :: rest => some rest
  | _ => none

/-- The URL at the start of a text. -/
def pattern : Pattern := fun t =>
  match afterScheme? t with
  | none => 0
  | some rest =>
    match rest.takeWhile isUrlChar with
    | [] => 0
    | address => t.length - rest.length + address.length

/-- A text without its URLs. -/
def remove (t : Text) : Text := pattern.removeAll t

end Quire.Url
