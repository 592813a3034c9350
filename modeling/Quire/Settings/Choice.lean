import Quire.Text.Basic

/-!
# Choices that settings name

`OutputFormat` says in which format chunks are written, and `SplitMode` in which unit their size is
bounded.
-/

namespace Quire

/-- The formats in which chunks are written. -/
inductive OutputFormat
  /-- One word processor document with a heading and a page break for each chunk. -/
  | docx
  /-- An archive with one text file for each chunk. -/
  | zip
  /-- A table with one row for each chunk. -/
  | csv
  deriving DecidableEq, Repr

namespace OutputFormat

/-- The file name extension of an output format, which is also its name. -/
def extension : OutputFormat → Text
  | docx => "docx".toList
  | zip => "zip".toList
  | csv => "csv".toList

/-- The media type of an output format. -/
def mimeType : OutputFormat → Text
  | docx => "application/vnd.openxmlformats-officedocument.wordprocessingml.document".toList
  | zip => "application/zip".toList
  | csv => "text/csv".toList

/-- The output format of a name. -/
def ofName? (name : Text) : Option OutputFormat := [docx, zip, csv].find? (·.extension == name)

end OutputFormat

/-- The unit of a budget. -/
inductive SplitMode
  | bytes
  | chars
  deriving DecidableEq, Repr

namespace SplitMode

/-- The name of a unit. -/
def label : SplitMode → Text
  | bytes => "bytes".toList
  | chars => "chars".toList

/-- The setting that holds the budget of a unit. -/
def budgetName : SplitMode → Text
  | bytes => "max_bytes".toList
  | chars => "chunk_size".toList

/-- The unit of a name. -/
def ofName? (name : Text) : Option SplitMode := [bytes, chars].find? (·.label == name)

end SplitMode

end Quire
