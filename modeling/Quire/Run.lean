import Quire.Cleaning.Rules
import Quire.Extraction

/-!
# Runs

A run goes through four phases: it extracts the lines of a document, cleans them, splits the text
into chunks, and renders the chunks as an artifact. Its steps (`Run.steps`) give notice of each phase
as they enter it, and of the report at the end. `Run.of` tells how a run went: the notices, and the
result, or the fault that ended it.
-/

namespace Quire

/-- The phases of a run. -/
inductive Phase
  | extract
  | clean
  | split
  | render
  deriving DecidableEq, Repr

/-- What a user sees as a phase is entered. -/
def Phase.label : Phase → Text
  | extract => "Extracting text".toList
  | clean => "Cleaning text".toList
  | split => "Splitting into chunks".toList
  | render => "Rendering artifact".toList

/-- The result of a run. -/
structure RunOutput where
  artifact : Artifact
  chunks : List Chunk
  report : Report
  deriving DecidableEq, Repr

/-- What a run gives notice of. -/
inductive Notice
  | phase (p : Phase)
  | done (r : Report)
  deriving DecidableEq, Repr

/-- How a run went. -/
structure Run where
  /-- The notices that it gave, in order. -/
  notices : List Notice
  result : Except Fault RunOutput

namespace Run

/-- The report on a document of which the given has been made. -/
def report (d : Document) (p : Plan) (e : Extraction) (cleaned : Cleaned) (cs : List Chunk)
    (a : Artifact) : Report where
  fileName := d.fileName
  sourceFormat := d.format
  encoding := e.encoding
  linesExtracted := e.lines.length
  linesKept := cleaned.linesKept
  cleanedBytes := Text.utf8Length cleaned.text
  cleanedChars := cleaned.text.length
  contentHash := Sha256.hexDigest cleaned.text
  splitMode := p.division.mode
  chunkCount := cs.length
  chunks := cs.map Chunk.stats
  pageFailures := e.pageFailures
  artifactName := a.fileName
  mimeType := a.mimeType
  artifactBytes := a.bytes.length

/-- Gives notice. -/
def notify (n : Notice) : ExceptT Fault (StateM (List Notice)) Unit := modify (· ++ [n])

/-- The steps of a run on a document by a plan. -/
def steps (d : Document) (p : Plan) : ExceptT Fault (StateM (List Notice)) RunOutput := do
  notify (.phase .extract)
  let e ← liftExcept (Extraction.ofDocument p.encodings d)
  notify (.phase .clean)
  let cleaned := p.rules.clean e.lines
  notify (.phase .split)
  let cs := Chunk.split cleaned.text p.division
  notify (.phase .render)
  let a ← liftExcept (Artifact.render cs p.output)
  let r := report d p e cleaned cs a
  notify (.done r)
  return ⟨a, cs, r⟩

/-- How a run on a document by a plan goes. -/
def of (d : Document) (p : Plan) : Run :=
  let (result, notices) := (steps d p).run.run []
  ⟨notices, result⟩

/-- The phases that were entered, in order. -/
def phases (r : Run) : List Phase :=
  r.notices.filterMap fun
    | .phase p => some p
    | .done _ => none

/-- The reports that were given, in order. -/
def done (r : Run) : List Report :=
  r.notices.filterMap fun
    | .phase _ => none
    | .done final => some final

end Run

end Quire
