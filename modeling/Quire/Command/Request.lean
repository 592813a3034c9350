import Quire.Command.Options
import Quire.Command.Overrides

/-!
# Requests

`Invocation.read` turns the words of a command line into a `Request`. The words of a level are read
from left to right. An option that waits for its value, like a value that waits to be checked, is
settled when the next option or document comes, or at the end; what is unknown is reported at once.
A level ends where one of its commands begins, and the command is read before the level is settled.
-/

namespace Quire.Command

/-- What the command `clean` is asked to do. -/
structure CleanRequest where
  input : Text
  /-- The directory for the artifact. -/
  out : Text := ['.']
  overrides : Overrides := {}
  /-- Whether to print the report of the run. -/
  report : Bool := false
  /-- The settings file, if not the usual one. -/
  config : Option Text := none
  deriving DecidableEq, Repr

/-- What a command line asks for. -/
inductive Request
  | clean (r : CleanRequest)
  | initSettings
  | showSettings (config : Option Text)
  deriving DecidableEq, Repr

/-- A request, and how to write a log of it. -/
structure Invocation where
  request : Request
  logFormat : Option LogFormat := none
  verbosity : Nat := 0
  deriving DecidableEq, Repr

/-! ### One level -/

/-- What has been read but not settled. -/
inductive Pending
  | nothing
  | option (o : OptionName) (value : Option Text)
  | input (path : Text)
  deriving DecidableEq, Repr

/-- What has been read at a level. -/
structure Reading where
  options : Options := {}
  pending : Pending := .nothing
  /-- Whether the separator has been read. -/
  separated : Bool := false
  deriving DecidableEq, Repr

namespace Reading

/-- Settles what is pending. -/
def settle (s : Reading) : Except UsageFault Reading :=
  match s.pending with
  | .nothing => .ok s
  | .option o value => do
    return { s with options := ← s.options.give o value, pending := .nothing }
  | .input path => do return { s with options := ← s.options.giveInput path, pending := .nothing }

/-- The option whose value comes next. -/
def awaited? (s : Reading) : Option OptionName :=
  match s.pending with
  | .option o none => if s.separated then none else some o
  | _ => none

/-- Whether a document has been given. -/
def hasInput (s : Reading) : Bool :=
  match s.pending with
  | .input _ => true
  | _ => s.options.input.isSome

/-- Reads an option that is complete. -/
def give (s : Reading) (o : OptionName) (value : Option Text) : Except UsageFault Reading := do
  let s ← s.settle
  return { s with options := ← s.options.give o value }

/-- Reads an option whose value may come next. -/
def await (s : Reading) (o : OptionName) : Except UsageFault Reading := do
  return { ← s.settle with pending := .option o none }

/-- Reads an option with a long name. -/
def readLong (l : Level) (s : Reading) (name : Text) (value : Option Text) :
    Except UsageFault Reading :=
  match l.ofLong? name with
  | none => .error (.unknownArgument ('-' :: '-' :: name))
  | some o =>
    if o.takesValue then
      match value with
      | some t => s.give o (some t)
      | none => s.await o
    else if value.isSome then .error (.surplusValue o)
    else s.give o none

/-- Reads letters behind a hyphen. The first that takes a value takes all that follow as its value,
without an equals sign in front. -/
def readLetters (l : Level) (s : Reading) : Text → Except UsageFault Reading
  | [] => .ok s
  | c :: t =>
    match l.ofShort? c with
    | none => .error (.unknownArgument ['-', c])
    | some o =>
      if o.takesValue then
        match t with
        | [] => s.await o
        | '=' :: value => s.give o (some value)
        | value => s.give o (some value)
      else do readLetters l (← s.give o none) t

/-- Reads a word that is no option. -/
def readPlain (l : Level) (s : Reading) (word : Text) : Except UsageFault Reading :=
  match s.awaited? with
  | some o => .ok { s with pending := .option o (some word) }
  | none =>
    if l = .clean ∧ !s.hasInput then do return { ← s.settle with pending := .input word }
    else if !l.hasCommands || (l.command? word).isSome || l.isHelp word then
      .error (.unknownArgument word)
    else .error (.unknownCommand word)

/-- Reads a word. -/
def readWord (l : Level) (s : Reading) (word : Text) : Except UsageFault Reading :=
  if s.separated then s.readPlain l word
  else
    match Word.ofText word with
    | .separator => .ok { s with separated := true }
    | .long name value => s.readLong l name value
    | .short letters =>
      if s.awaited?.any OptionName.takesNumber && isNumber letters then s.readPlain l word
      else s.readLetters l letters
    | .plain => s.readPlain l word

/-- Whether the next word may be a command. -/
def mayBegin (s : Reading) : Bool := !s.separated && s.awaited?.isNone

end Reading

/-! ### All levels -/

/-- The unit and the budget of chunks, which may be given in one unit only. -/
def Options.division (s : Options) : Except UsageFault (Option (SplitMode × Int64)) :=
  match s.byBytes, s.byChars with
  | some _, some _ => .error .bothBudgets
  | some n, none => .ok (some (.bytes, n))
  | none, some n => .ok (some (.chars, n))
  | none, none => .ok none

/-- The settings file that is asked for, on the command line or else by the environment. -/
def Options.settingsFile (s : Options) (usual : Option Text) : Except UsageFault (Option Text) :=
  match s.config, usual with
  | some path, _ => .ok (some path)
  | none, some path => (Options.path path).map some
  | none, none => .ok none

/-- The request of the command `clean`. -/
def Options.cleanRequest (s : Options) (usual : Option Text) : Except UsageFault CleanRequest := do
  let config ← s.settingsFile usual
  let division ← s.division
  match s.input with
  | none => .error .noInput
  | some input => return {
      input
      out := s.out.getD ['.']
      overrides := {
        format := s.format
        division
        entryExtension := s.ext
        keepLinks := s.given.contains .keepLinks
        removeUrls := s.given.contains .stripUrls
        removeEmails := s.given.contains .stripEmails
        keepBlanks := s.given.contains .keepWhitespace
        keepFrontMatter := s.given.contains .keepFrontMatter }
      report := s.given.contains .report
      config }

/-- The request of a level at which no command has been given. -/
def Options.request (s : Options) (usual : Option Text) : Level → Except UsageFault Request
  | .program | .config => .error (if s.isEmpty then .nothingGiven else .noCommand)
  | .clean => (s.cleanRequest usual).map .clean
  | .configInit => .ok .initSettings
  | .configShow => (s.settingsFile usual).map .showSettings

/-- What comes of asking for help on the command that some words name. -/
def helpOn (l : Level) : List Text → UsageFault
  | [] => .help
  | word :: words =>
    match l.command? word with
    | some inner => helpOn inner words
    | none =>
      if l.isHelp word then
        match words with
        | [] => .help
        | next :: _ => .unknownCommand next
      else .unknownCommand word

/-- Reads the words of a level. -/
def readLevel (usual : Option Text) (l : Level) (s : Reading) :
    List Text → Except UsageFault Invocation
  | [] => do
    let options := (← s.settle).options
    return ⟨← options.request usual l, options.logFormat, options.verbosity⟩
  | word :: words =>
    if s.mayBegin && l.isHelp word then .error (helpOn l words)
    else
      match if s.mayBegin then l.command? word else none with
      | some inner => do
        let i ← readLevel usual inner {} words
        let options := (← s.settle).options
        return { i with
          logFormat := i.logFormat.or options.logFormat
          verbosity := if i.verbosity = 0 then options.verbosity else i.verbosity }
      | none => do readLevel usual l (← s.readWord l word) words

/-- What a command line asks for, if `usual` is the settings file that the environment names. -/
def Invocation.read (usual : Option Text) (words : List Text) : Except UsageFault Invocation :=
  readLevel usual .program {} words

end Quire.Command
