import Quire.Command.Request
import Quire.FileAccess
import Quire.Run
import Quire.Settings.File

/-!
# Carrying out requests

`execute` carries out a request in any monad with access to files and gives a `Response`, or the
`Failure` that it ends with. The command `clean` settles everything that can go wrong before it
writes: settings, document and run come first, and one file is written at the end.
`Response.print` is the text for the user.
-/

namespace Quire.Command

/-- Why a request fails. -/
inductive Failure
  | fault (f : Fault)
  /-- The directory for the artifact cannot be made. -/
  | outputDirectory (path : Text) (cause : DiskFault)
  /-- The artifact cannot be written. -/
  | outputFile (path : Text) (cause : DiskFault)
  deriving DecidableEq, Repr

/-- What a user sees. -/
def Failure.message : Failure → Text
  | fault f => f.message
  | outputDirectory path cause =>
    "cannot create output directory ".toList ++ path ++ [':', ' '] ++ cause.message
  | outputFile path cause => "cannot write ".toList ++ path ++ [':', ' '] ++ cause.message

/-- What a request gives. -/
inductive Response
  /-- An artifact has been written. -/
  | cleaned (path : Text) (output : RunOutput) (withReport : Bool)
  /-- A settings file has been written. -/
  | initialized (path : Text)
  | shown (settings : Settings)
  deriving DecidableEq, Repr

/-! ### Settings files -/

/-- The name of the settings file. -/
def settingsName : Text := "docsplit.toml".toList

/-- The directory of the usual settings file. -/
def settingsDirectory (home : Option Text) : Except Fault Text :=
  match home with
  | some path => .ok (Path.join path ".docsplit".toList)
  | none => .error (.config "could not determine home directory".toList)

/-! ### Carrying out -/

section

variable {m : Type → Type} [Monad m] [FileAccess m]

/-- Goes on with a result, or fails for its cause. -/
def orFail {ε α : Type} (failure : ε → Failure) (result : Except ε α) : ExceptT Failure m α :=
  ExceptT.mk (pure (result.mapError failure))

/-- The settings that a file gives. -/
def readSettings (path : Text) : ExceptT Failure m Settings := do
  let text ← orFail (.fault ∘ .io path) (← FileAccess.readText (m := m) path)
  match Settings.read? text with
  | some s => return s
  | none => throw (.fault (.config ("failed to parse ".toList ++ path)))

/-- The settings of a file that is asked for, or else of the usual one if it is there. -/
def loadSettings (home : Option Text) (asked : Option Text) : ExceptT Failure m Settings := do
  match asked with
  | some path => readSettings path
  | none =>
    let directory ← orFail .fault (settingsDirectory home)
    let path := Path.join directory settingsName
    if ← FileAccess.isThere (m := m) path then readSettings path else return {}

/-- The document at a path. -/
def readDocument (path : Text) : ExceptT Failure m Document := do
  let bytes ← orFail (.fault ∘ .io path) (← FileAccess.read (m := m) path)
  return ⟨(Path.fileName? path).getD [], bytes.toByteArray⟩

/-- Writes an artifact into a directory, which is made if it is missing, and gives its path. -/
def writeArtifact (directory : Text) (a : Artifact) : ExceptT Failure m Text := do
  orFail (.outputDirectory directory) (← FileAccess.makeDirectories (m := m) directory)
  let path := Path.join directory a.fileName
  orFail (.outputFile path) (← FileAccess.write (m := m) path a.bytes)
  return path

/-- Cleans a document and writes the artifact. -/
def clean (home : Option Text) (r : CleanRequest) : ExceptT Failure m Response := do
  let settings ← loadSettings home r.config
  let plan ← orFail (.fault ∘ .invalidConfig) (Plan.ofSettings (settings.override r.overrides))
  let document ← readDocument r.input
  let output ← orFail .fault (Run.of document plan).result
  return .cleaned (← writeArtifact r.out output.artifact) output r.report

/-- Writes the usual settings file with the default settings. -/
def initSettings (home : Option Text) : ExceptT Failure m Response := do
  let directory ← orFail .fault (settingsDirectory home)
  orFail (.fault ∘ .io directory) (← FileAccess.makeDirectories (m := m) directory)
  let path := Path.join directory settingsName
  let bytes := (Text.utf8 (Settings.print {})).data.toList
  orFail (.fault ∘ .io path) (← FileAccess.write (m := m) path bytes)
  return .initialized path

/-- Carries out a request. -/
def execute (home : Option Text) : Request → ExceptT Failure m Response
  | .clean r => clean home r
  | .initSettings => initSettings home
  | .showSettings config => do return .shown (← loadSettings home config)

end

/-! ### Printing -/

/-- The lines that sum up a run. -/
def summary (path : Text) (r : Report) (s : Stamp) : List Text :=
  [[], "  Document cleaned successfully!".toList,
    "  Run:      ".toList ++ s.runId.print,
    "  Source:   ".toList ++ r.fileName ++ " (".toList ++ r.sourceFormat.label ++ [')'],
    "  Lines:    ".toList ++ Text.decimal r.linesKept ++ " kept of ".toList ++
      Text.decimal r.linesExtracted,
    "  Chunks:   ".toList ++ Text.decimal r.chunkCount ++ " (by ".toList ++ r.splitMode.label ++
      [')']] ++
  (if r.pageFailures.isEmpty then [] else
    ["  Skipped:  ".toList ++ Text.decimal r.pageFailures.length ++
      " unreadable PDF page(s)".toList]) ++
  ["  Output:   ".toList ++ path,
    "  Time:     ".toList ++ Text.decimal s.elapsedMilliseconds ++ ['m', 's'], []]

/-- The text for the user, with the stamp of the run if there has been one. -/
def Response.print (s : Stamp) : Response → Text
  | cleaned path output withReport =>
    let report := if withReport then [(output.report.json s).print] else []
    (summary path output.report s ++ report).flatMap (· ++ ['\n'])
  | initialized path => "Config initialized at: ".toList ++ path ++ ['\n']
  | shown settings => settings.print ++ ['\n']

end Quire.Command
