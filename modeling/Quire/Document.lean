import Quire.Path

/-!
# Documents

A `Document` is a file to be cleaned: its name, and its bytes. Its format is chosen by the
extension of its name alone (`Format.ofFileName`), whatever the bytes are.
-/

namespace Quire

namespace Document

/-- The formats of documents that can be read. -/
inductive Format
  | plain
  | markdown
  | docx
  | pdf
  deriving DecidableEq, Repr

namespace Format

/-- The format of a document with the given extension, in small letters. -/
def ofExtension : Option Text → Format
  | some ['d', 'o', 'c', 'x'] => docx
  | some ['p', 'd', 'f'] => pdf
  | some ['m', 'd'] => markdown
  | some ['m', 'a', 'r', 'k', 'd', 'o', 'w', 'n'] => markdown
  | _ => plain

/-- The format of a document with the given file name or path. -/
def ofFileName (name : Text) : Format := ofExtension ((Path.extension? name).map Text.lowercase)

/-- The name of a format in reports and messages. -/
def label : Format → Text
  | plain => "plain".toList
  | markdown => "markdown".toList
  | docx => "docx".toList
  | pdf => "pdf".toList

end Format

end Document

/-- A file to be cleaned. -/
structure Document where
  fileName : Text
  bytes : ByteArray

/-- The format of a document, by its name. -/
def Document.format (d : Document) : Document.Format := Document.Format.ofFileName d.fileName

end Quire
