import Quire.Artifact
import Quire.Instant
import Quire.Json
import Quire.RunId
import Quire.Sha256

/-!
# Reports

A `Report` says what a run has done: what it read, what was kept, how long the chunks are, and what
it wrote. `Report.json` writes it with the `Stamp` of the run, which says when it took place.
-/

namespace Quire

/-- A page of a document that gave no text. -/
structure PageFailure where
  /-- The number of the page, counted from one. -/
  page : Nat
  message : Text
  deriving DecidableEq, Repr

/-- The size of a chunk. -/
structure ChunkStats where
  index : Nat
  bytes : Nat
  chars : Nat
  deriving DecidableEq, Repr

/-- The size of a chunk. -/
def Chunk.stats (c : Chunk) : ChunkStats := ⟨c.index, Text.utf8Length c.text, c.text.length⟩

/-- What a run has done. -/
structure Report where
  fileName : Text
  sourceFormat : Document.Format
  /-- The encoding of a plain text. -/
  encoding : Option Encoding
  linesExtracted : Nat
  /-- The number of lines left without front matter. -/
  linesKept : Nat
  cleanedBytes : Nat
  cleanedChars : Nat
  /-- The hash of the cleaned text. -/
  contentHash : Text
  splitMode : SplitMode
  chunkCount : Nat
  chunks : List ChunkStats
  pageFailures : List PageFailure
  artifactName : Text
  mimeType : Text
  artifactBytes : Nat
  deriving DecidableEq, Repr

/-- Which run it is, and when and how long it ran. -/
structure Stamp where
  runId : RunId
  startedAt : Instant
  elapsedMilliseconds : Nat
  deriving DecidableEq, Repr

/-- The size of a chunk as JSON. -/
def ChunkStats.json (s : ChunkStats) : Json :=
  .object [("index", .number s.index), ("bytes", .number s.bytes), ("chars", .number s.chars)]

/-- A failed page as JSON. -/
def PageFailure.json (f : PageFailure) : Json :=
  .object [("page", .number f.page), ("message", .text f.message)]

/-- A report as JSON. -/
def Report.json (r : Report) (s : Stamp) : Json := .object [
  ("run_id", .text s.runId.print),
  ("file_name", .text r.fileName),
  ("source_format", .text r.sourceFormat.label),
  ("encoding", match r.encoding with | some e => .text e.label | none => .null),
  ("lines_extracted", .number r.linesExtracted),
  ("lines_kept", .number r.linesKept),
  ("cleaned_bytes", .number r.cleanedBytes),
  ("cleaned_chars", .number r.cleanedChars),
  ("content_hash", .text r.contentHash),
  ("split_mode", .text r.splitMode.label),
  ("chunk_count", .number r.chunkCount),
  ("chunks", .list (r.chunks.map ChunkStats.json)),
  ("page_failures", .list (r.pageFailures.map PageFailure.json)),
  ("artifact_name", .text r.artifactName),
  ("mime_type", .text r.mimeType),
  ("artifact_bytes", .number r.artifactBytes),
  ("started_at", .text s.startedAt.print),
  ("elapsed_ms", .number s.elapsedMilliseconds)]

end Quire
