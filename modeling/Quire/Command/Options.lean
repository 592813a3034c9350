import Quire.Command.OptionName
import Quire.Settings.Choice
import Quire.Text.Decimal

/-!
# Given options

`Options` holds what the words of one level have given so far. A word may be an option with a long
name, one or more letters behind one hyphen, the separator `--`, or none of these (`Word.ofText`).
`Options.give` takes one option with its value into account; each but `verbose` may be given only
once.
-/

namespace Quire.Command

/-- How a log is written. -/
inductive LogFormat
  | text
  | json
  deriving DecidableEq, Repr

/-- The log format of a name. -/
def LogFormat.ofName? (name : Text) : Option LogFormat :=
  if name = "text".toList then some text else if name = "json".toList then some json else none

/-! ### Words -/

/-- What a word of a command line looks like. -/
inductive Word
  /-- The word after which no word is an option. -/
  | separator
  | long (name : Text) (value : Option Text)
  | short (letters : Text)
  | plain
  deriving DecidableEq, Repr

/-- What a word looks like. -/
def Word.ofText : Text → Word
  | ['-', '-'] => .separator
  | '-' :: '-' :: t =>
    match t.span (· != '=') with
    | (name, _ :: value) => .long name (some value)
    | (name, []) => .long name none
  | ['-'] => .plain
  | '-' :: letters => .short letters
  | _ => .plain

/-- Whether a text is one or more digits, perhaps with a dot or more digits behind. -/
def isDecimal (t : Text) : Bool :=
  match t.span (· != '.') with
  | (whole, []) => !whole.isEmpty && whole.all Char.isDigit
  | (whole, _ :: places) => !whole.isEmpty && whole.all Char.isDigit && places.all Char.isDigit

/-- Whether a text is a number without a sign, perhaps with an exponent. -/
def isNumber (t : Text) : Bool :=
  match t.span (· != 'e') with
  | (mantissa, []) => isDecimal mantissa
  | (mantissa, _ :: exponent) =>
    isDecimal mantissa && !exponent.isEmpty && exponent.all Char.isDigit

/-! ### Options -/

/-- What has been given at a level. -/
structure Options where
  input : Option Text := none
  out : Option Text := none
  format : Option OutputFormat := none
  byBytes : Option Int64 := none
  byChars : Option Int64 := none
  ext : Option Text := none
  config : Option Text := none
  logFormat : Option LogFormat := none
  /-- How often `verbose` has been given. -/
  verbosity : Nat := 0
  /-- The other options that have been given. -/
  given : List OptionName := []
  deriving DecidableEq, Repr

namespace Options

/-- A value that is a path. -/
def path (t : Text) : Except UsageFault Text := if t.isEmpty then .error .emptyPath else .ok t

/-- A value that is one of some choices. -/
def choice {α : Type} (ofName? : Text → Option α) (o : OptionName) (t : Text) :
    Except UsageFault α :=
  match ofName? t with
  | some a => .ok a
  | none => .error (.unknownChoice o t)

/-- A value that is a number. -/
def number (o : OptionName) (t : Text) : Except UsageFault Int64 :=
  match Text.readInt64? t with
  | some n => .ok n
  | none => .error (.malformedNumber o t)

/-- Options with the value of one of them set. -/
def set (s : Options) (o : OptionName) (t : Text) : Except UsageFault Options :=
  match o with
  | .out => do return { s with out := ← path t }
  | .config => do return { s with config := ← path t }
  | .format => do return { s with format := ← choice OutputFormat.ofName? o t }
  | .logFormat => do return { s with logFormat := ← choice LogFormat.ofName? o t }
  | .byBytes => do return { s with byBytes := ← number o t }
  | .byChars => do return { s with byChars := ← number o t }
  | .ext => .ok { s with ext := t }
  | _ => .ok s

/-- Options after one more of them. -/
def give (s : Options) (o : OptionName) (value : Option Text) : Except UsageFault Options :=
  if o.takesValue && value.isNone then .error (.missingValue o)
  else
    match o with
    | .help => .error .help
    | .version => .error .version
    | .verbose => .ok { s with verbosity := s.verbosity + 1 }
    | o =>
      if o ∈ s.given then .error (.repeated o)
      else { s with given := o :: s.given }.set o (value.getD [])

/-- Options after a word that is none. -/
def giveInput (s : Options) (t : Text) : Except UsageFault Options := do
  return { s with input := ← path t }

/-- Whether nothing has been given. -/
def isEmpty (s : Options) : Bool := s.given.isEmpty && s.verbosity == 0

end Options

end Quire.Command
