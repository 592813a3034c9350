import Quire.Text.Basic

/-!
# Lines

A line is a body followed by its terminator: line feed, carriage return, or the two in a row. The
last line of a text may lack one. `split` cuts a text into lines that keep their terminators, so
that nothing of the text is lost, and `splitTerminator` separates a line into body and terminator.
-/

namespace Quire.Line

/-- Puts a character in front of the lines of the text that follows it. -/
def splitStep (c : Char) (lines : List Text) : List Text :=
  match c, lines with
  | '\n', _ => ['\n'] :: lines
  | '\r', ['\n'] :: rest => ['\r', '\n'] :: rest
  | '\r', _ => ['\r'] :: lines
  | _, [] => [[c]]
  | _, line :: rest => (c :: line) :: rest

/-- The lines of a text, each with its terminator. -/
def split (t : Text) : List Text := t.foldr splitStep []

/-- The body and the terminator of a line. -/
def splitTerminator (line : Text) : Text × Text :=
  match line.reverse with
  | '\n' :: '\r' :: body => (body.reverse, ['\r', '\n'])
  | '\n' :: body => (body.reverse, ['\n'])
  | '\r' :: body => (body.reverse, ['\r'])
  | _ => (line, [])

end Quire.Line
