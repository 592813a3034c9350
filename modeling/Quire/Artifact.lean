import Quire.Csv
import Quire.Plan
import Quire.Word.Layout

/-!
# Artifacts

The chunks of a text are put into one file, the artifact: an archive with a text file for each
chunk, a word processor document, or a table. `render` makes the file that an `Output` asks for; it
fails only if two files of an archive would have one name.
-/

namespace Quire

/-- A file that is the result of a run. -/
structure Artifact where
  bytes : Bytes
  fileName : Text
  mimeType : Text
  deriving DecidableEq, Repr

namespace Artifact

/-- The name of the file for a chunk in an archive. -/
def entryName (start : Text) (index : Nat) (extension : Text) : Text :=
  let stem := if start.isEmpty then Text.decimal index else start ++ '_' :: Text.decimal index
  if extension.isEmpty then stem else stem ++ '.' :: extension

/-- The files of an archive for some chunks. -/
def entries (cs : List Chunk) (start extension : Text) : List Archive.Entry :=
  cs.map fun c => ⟨entryName start c.index extension, (Text.utf8 c.text).data.toList⟩

/-- An archive with a file for each chunk. Deflated files are asked for, but `Archive.create` stores
them as they are, so that the bytes of the archive are others and what is read of it is the same. A
name has two bytes for its length in the archive, whatever its length is (`Archive.Entry.common`). -/
def archive (cs : List Chunk) (start extension : Text) : Except Fault Bytes :=
  match Archive.create (entries cs start extension) with
  | .ok bytes => .ok bytes
  | .error name => .error (.serialization .zip ("Duplicate filename: ".toList ++ name))

/-- The header of a table of chunks. -/
def tableHeader : List Text := ["chunk".toList, "content".toList, "characters".toList]

/-- The row of a chunk: its number, its text and the number of its characters. -/
def tableRow (c : Chunk) : List Text := [Text.decimal c.index, c.text, Text.decimal c.text.length]

/-- A table with a row for each chunk. -/
def table (cs : List Chunk) : Text := Csv.print (tableHeader :: cs.map tableRow)

/-- The bytes of the artifact for some chunks. -/
def content (cs : List Chunk) (o : Output) : Except Fault Bytes :=
  match o.format with
  | .zip => archive cs o.entryPrefix o.entryExtension
  | .docx => .ok (Word.Package.write (Word.bodyOf cs))
  | .csv => .ok (Text.utf8 (table cs)).data.toList

/-- The artifact for some chunks. -/
def render (cs : List Chunk) (o : Output) : Except Fault Artifact :=
  (content cs o).map fun bytes => ⟨bytes, o.fileName, o.format.mimeType⟩

end Artifact

end Quire
