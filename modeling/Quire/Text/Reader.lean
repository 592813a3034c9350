import Quire.Text.Basic

/-!
# Readers

A `Reader` recognizes something at the start of a text and gives it with the text that follows, or
gives nothing if it is not there; `r <|> s` tries `s` where `r` gives nothing. This file holds the
few readers from which those of the formats are made: a character of a class (`char`), a fixed
text (`literal`), a run of characters (`run`), something that may be missing (`opt`), a repetition
(`many`), and items between separators (`separated`).
-/

namespace Quire

/-- Recognizes something at the start of a text and gives it with what follows. -/
abbrev Reader := StateT Text Option

namespace Reader

variable {α : Type}

/-- One character of a class. -/
def char (p : Char → Bool) : Reader Char
  | c :: t => if p c then some (c, t) else none
  | [] => none

/-- A fixed text. -/
def literal (s : Text) : Reader Unit := fun t => (Text.stripPrefix? s t).map fun r => ((), r)

/-- The longest run of characters of a class, which may be empty. -/
def run (p : Char → Bool) : Reader Text := fun t => some (t.takeWhile p, t.dropWhile p)

/-- The longest run of characters of a class, which has at least one. -/
def run1 (p : Char → Bool) : Reader Text := fun t =>
  match t.takeWhile p with
  | [] => none
  | w => some (w, t.dropWhile p)

/-- What a reader finds, or nothing if it is not there. -/
def opt (r : Reader α) : Reader (Option α) := fun t =>
  match r t with
  | some (a, t) => some (some a, t)
  | none => some (none, t)

/-- Repetitions of a reader that takes characters each time, at most one for each character of
`bound`. -/
def manyWithin (r : Reader α) : (bound : Text) → Text → List α × Text
  | [], t => ([], t)
  | _ :: bound, t =>
    match r t with
    | some (a, t) =>
      let (as, rest) := manyWithin r bound t
      (a :: as, rest)
    | none => ([], t)

/-- As many repetitions as there are of a reader that takes characters each time. -/
def many (r : Reader α) : Reader (List α) := fun t => some (manyWithin r t t)

/-- One or more items with a separator between neighbours. -/
def separated1 (item : Reader α) (separator : Reader Unit) : Reader (List α) := do
  let first ← item
  let others ← many (do separator; item)
  return first :: others

/-- Items with a separator between neighbours, or none. -/
def separated (item : Reader α) (separator : Reader Unit) : Reader (List α) :=
  separated1 item separator <|> pure []

/-- Puts a text in front of the one that a reader has found. -/
def prepend (x : Text) (found : Option (Text × Text)) : Option (Text × Text) :=
  found.map fun (y, t) => (x ++ y, t)

/-- Nothing, at the end of the text. -/
def atEnd : Reader Unit
  | [] => some ((), [])
  | _ :: _ => none

/-- What a reader finds in a text that it reads to the end. -/
def whole? (r : Reader α) (t : Text) : Option α :=
  match r t with
  | some (a, []) => some a
  | _ => none

end Reader

end Quire
