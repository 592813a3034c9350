import Quire.Command.Execution
import Std.Time.DateTime

/-!
# The program

The command line program: it reads the arguments, carries out the request on the real disk, and
prints what comes of it. A log of what is done goes to standard error.
-/

namespace Quire

/-- The cause of a failed file operation, by the number of the system error. -/
def DiskFault.ofError (e : IO.Error) : DiskFault :=
  let known (code : UInt32) : DiskFault :=
    match if code.toNat < 0x80000000 then code.toNat else 0x100000000 - code.toNat with
    | 2 => .notFound
    | 17 => .alreadyExists
    | 20 => .notDirectory
    | 21 => .isDirectory
    | 36 => .nameTooLong
    | _ => .other (toString e).toList
  match e with
  | .noFileOrDirectory _ code _ => known code
  | .alreadyExists _ code _ => known code
  | .inappropriateType _ code _ => known code
  | .invalidArgument _ code _ => known code
  | e => .other (toString e).toList

/-- Runs a file operation, unless the path has a character that no name may have. -/
def onPath {α : Type} (path : Text) (operation : String → IO α) : IO (Except DiskFault α) := do
  if path.contains '\x00' then return .error .nulInName
  return (← (operation (String.ofList path)).toBaseIO).mapError DiskFault.ofError

instance : FileAccess IO where
  read path := onPath path fun name => do return (← IO.FS.readBinFile name).data.toList
  write path content := onPath path fun name => IO.FS.writeBinFile name content.toByteArray
  makeDirectory path := onPath path fun name => IO.FS.createDir name
  isThere path := do
    match ← onPath path fun name => IO.FS.Handle.mk name .read with
    | .ok _ => return true
    | .error (.other _) => return true
    | .error _ => return false
  isDirectory path := do
    match ← onPath path fun name => do (← IO.FS.Handle.mk name .read).read 1 with
    | .error .isDirectory => return true
    | _ => return false

namespace Command

/-- The variable of the environment that names the settings file. -/
def settingsVariable : String := "DOCSPLIT_CONFIG"

/-- The text that explains the command line. -/
def helpText : String :=
  "Clean Markdown, text, DOCX and PDF documents and split them into chunks.

Usage: docsplit [OPTIONS] <COMMAND>

Commands:
  clean <INPUT>   Clean a document, split it, and write the artifact
  config init     Initialize the config file with defaults
  config show     Show the resolved configuration
  help            Print help

Options of clean:
  -o, --out <DIR>         Directory to write the artifact into [default: .]
  -f, --format <FORMAT>   Artifact format: zip, docx, csv
      --by-bytes <N>      Split by UTF-8 byte budget, keeping lines whole
      --by-chars <N>      Split into runs of N characters
      --ext <EXT>         Extension for ZIP entries
      --keep-links        Keep [[...]] references and ![[...]] embeds
      --strip-urls        Remove http(s) URLs
      --strip-emails      Remove email addresses
      --keep-whitespace   Do not collapse whitespace
      --keep-frontmatter  Do not strip front matter blocks
      --report            Print the JSON run report

Options of clean and config show:
      --config <FILE>     Config file to use [env: DOCSPLIT_CONFIG]

Options:
      --log-format <FORMAT>  Log format: text, json [default: text]
  -v, --verbose              Verbosity level
  -h, --help                 Print help
  -V, --version              Print version"

/-- The text that names the program and its version. -/
def versionText : String := "docsplit 0.1.0"

/-- Writes a line of the log. -/
def log (i : Invocation) (message : String) : IO Unit :=
  match i.logFormat with
  | some .json =>
    let line := "\x7b\"message\":".toList ++ Json.quoted message.toList ++ ['\x7d']
    IO.eprintln (String.ofList line)
  | _ => IO.eprintln ("INFO " ++ message)

/-- The time that it is. -/
def now : IO Instant := do
  return ⟨(← Std.Time.Timestamp.now).toNanosecondsSinceUnixEpoch.val.toNat⟩

/-- Ends because the command line cannot be followed. -/
def refuse : UsageFault → IO UInt32
  | .help => do
    IO.println helpText
    return 0
  | .version => do
    IO.println versionText
    return 0
  | fault => do
    IO.eprintln ("error: " ++ String.ofList fault.message)
    return 2

/-- Carries out what the command line asks for. -/
def follow (i : Invocation) : IO UInt32 := do
  let startedAt ← now
  let random := Bytes.readLittleEndian (← IO.getRandomBytes 10).data.toList
  let home := (← IO.getEnv "HOME").map String.toList
  log i (match i.request with
    | .clean r => "cleaning document " ++ String.ofList r.input
    | .initSettings => "writing default settings"
    | .showSettings _ => "reading settings")
  let result : Except Failure Response ← (execute home i.request).run
  match result with
  | .ok response =>
    let elapsed := (← now).milliseconds - startedAt.milliseconds
    let runId := RunId.make startedAt.milliseconds random
    IO.print (String.ofList (response.print ⟨runId, startedAt, elapsed⟩))
    return 0
  | .error failure =>
    IO.eprintln ("Error: " ++ String.ofList failure.message)
    return 1

end Command

end Quire

open Quire in
/-- Cleans a document and splits it into chunks, or works on the settings file. -/
def main (arguments : List String) : IO UInt32 := do
  let usual := (← IO.getEnv Command.settingsVariable).map String.toList
  match Command.Invocation.read usual (arguments.map String.toList) with
  | .ok i => Command.follow i
  | .error fault => Command.refuse fault
