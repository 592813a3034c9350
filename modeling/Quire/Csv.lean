import Quire.Text.Basic

/-!
# Comma-separated values

A table is a list of records, which are lists of fields. `print` puts a comma between fields and a
line feed after each record; a field with a comma, a quote or a line terminator in it stands
between quotes, with its quotes doubled. `read?` reads such a table character by character.
-/

namespace Quire.Csv

/-- Whether a field has to stand between quotes. -/
def needsQuotes (field : Text) : Bool := Text.containsAny [',', '"', '\r', '\n'] field

/-- A text with its quotes doubled. -/
def doubled (field : Text) : Text := field.flatMap fun c => if c = '"' then ['"', '"'] else [c]

/-- A field as it is written. -/
def printField (field : Text) : Text :=
  if needsQuotes field then '"' :: doubled field ++ ['"'] else field

/-- A record as it is written. -/
def printRecord (fields : List Text) : Text := Text.joinWith [','] (fields.map printField) ++ ['\n']

/-- A table as it is written. -/
def print (records : List (List Text)) : Text := records.flatMap printRecord

/-! ### Reading -/

/-- Where in a record a reader is. -/
inductive Place
  /-- Before the first character of a record. -/
  | recordStart
  /-- Before the first character of a further field. -/
  | fieldStart
  /-- In a field without quotes. -/
  | bare
  /-- In a field between quotes. -/
  | quoted
  /-- Behind a quote in such a field, which closes the field or is the first of two. -/
  | quoteSeen
  deriving DecidableEq, Repr

/-- What has been read: the finished records, the finished fields of the record at hand and the
characters of the field at hand, each with the last one first, and the place. -/
structure Scan where
  records : List (List Text)
  fields : List Text
  field : Text
  place : Place
  deriving DecidableEq, Repr

namespace Scan

/-- The field at hand is finished. -/
def endField (s : Scan) : Scan := ⟨s.records, s.field.reverse :: s.fields, [], .fieldStart⟩

/-- The record at hand is finished. -/
def endRecord (s : Scan) : Scan :=
  ⟨(s.field.reverse :: s.fields).reverse :: s.records, [], [], .recordStart⟩

/-- A character of the field at hand. -/
def push (s : Scan) (c : Char) (place : Place) : Scan := ⟨s.records, s.fields, c :: s.field, place⟩

/-- Reads a character of a field without quotes. -/
def stepBare (s : Scan) (c : Char) : Option Scan :=
  if c = ',' then some s.endField
  else if c = '\n' then some s.endRecord
  else if c = '"' || c = '\r' then none
  else some (s.push c .bare)

/-- Reads one character. -/
def step (s : Scan) (c : Char) : Option Scan :=
  match s.place with
  | .recordStart | .fieldStart => if c = '"' then some { s with place := .quoted } else s.stepBare c
  | .bare => s.stepBare c
  | .quoted => if c = '"' then some { s with place := .quoteSeen } else some (s.push c .quoted)
  | .quoteSeen =>
    if c = '"' then some (s.push c .quoted)
    else if c = ',' then some s.endField
    else if c = '\n' then some s.endRecord
    else none

end Scan

/-- The records of a table, each of which ends in a line feed. -/
def read? (t : Text) : Option (List (List Text)) :=
  match t.foldlM Scan.step ⟨[], [], [], .recordStart⟩ with
  | some ⟨records, _, _, .recordStart⟩ => some records.reverse
  | _ => none

end Quire.Csv
