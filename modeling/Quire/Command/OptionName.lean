import Quire.Text.Basic

/-!
# Options of the command line

The command line has five levels: the program, its commands `clean` and `config`, and the commands
`init` and `show` of the latter. Each level knows some options (`Level.options`), by a long name and
some also by a letter, and some commands (`Level.command?`). `UsageFault` says why a command line
cannot be followed; asking for help counts as such a reason.
-/

namespace Quire.Command

/-- The options of all levels. -/
inductive OptionName
  | out
  | format
  | byBytes
  | byChars
  | ext
  | keepLinks
  | stripUrls
  | stripEmails
  | keepWhitespace
  | keepFrontMatter
  | report
  | config
  | logFormat
  | verbose
  | help
  | version
  deriving DecidableEq, Repr

namespace OptionName

/-- The name of an option behind two hyphens. -/
def long : OptionName → Text
  | out => "out".toList
  | format => "format".toList
  | byBytes => "by-bytes".toList
  | byChars => "by-chars".toList
  | ext => "ext".toList
  | keepLinks => "keep-links".toList
  | stripUrls => "strip-urls".toList
  | stripEmails => "strip-emails".toList
  | keepWhitespace => "keep-whitespace".toList
  | keepFrontMatter => "keep-frontmatter".toList
  | report => "report".toList
  | config => "config".toList
  | logFormat => "log-format".toList
  | verbose => "verbose".toList
  | help => "help".toList
  | version => "version".toList

/-- The letter of an option behind one hyphen. -/
def short? : OptionName → Option Char
  | out => some 'o'
  | format => some 'f'
  | verbose => some 'v'
  | help => some 'h'
  | version => some 'V'
  | _ => none

/-- Whether a value follows an option. -/
def takesValue : OptionName → Bool
  | out | format | byBytes | byChars | ext | config | logFormat => true
  | _ => false

/-- Whether the value that follows an option may start with a hyphen if it is a number. -/
def takesNumber : OptionName → Bool
  | byBytes | byChars => true
  | _ => false

end OptionName

/-- The levels of the command line. -/
inductive Level
  | program
  | clean
  | config
  | configInit
  | configShow
  deriving DecidableEq, Repr

namespace Level

/-- The options that every level knows. -/
def commonOptions : List OptionName := [.logFormat, .verbose, .help]

/-- The options that a level knows. -/
def options : Level → List OptionName
  | program => .version :: commonOptions
  | clean => [.out, .format, .byBytes, .byChars, .ext, .keepLinks, .stripUrls, .stripEmails,
      .keepWhitespace, .keepFrontMatter, .report, .config] ++ commonOptions
  | config => commonOptions
  | configInit => commonOptions
  | configShow => .config :: commonOptions

/-- The commands of a level, apart from `help`, which a level has if it has others. -/
def commands : Level → List (Text × Level)
  | program => [("clean".toList, clean), ("config".toList, config)]
  | config => [("init".toList, configInit), ("show".toList, configShow)]
  | _ => []

/-- Whether a level has commands. -/
def hasCommands (l : Level) : Bool := !l.commands.isEmpty

/-- The level of a command. -/
def command? (l : Level) (name : Text) : Option Level := l.commands.lookup name

/-- Whether a word asks for help in the form of a command. -/
def isHelp (l : Level) (word : Text) : Bool := l.hasCommands && word == "help".toList

/-- The option of a level with the given long name. -/
def ofLong? (l : Level) (name : Text) : Option OptionName := l.options.find? (·.long == name)

/-- The option of a level with the given letter. -/
def ofShort? (l : Level) (letter : Char) : Option OptionName :=
  l.options.find? (·.short? == some letter)

end Level

/-- Why a command line cannot be followed. -/
inductive UsageFault
  /-- Help is asked for. -/
  | help
  /-- The version is asked for. -/
  | version
  /-- Nothing is given where a command is due. -/
  | nothingGiven
  /-- Options are given, but no command. -/
  | noCommand
  /-- No document is given. -/
  | noInput
  | unknownCommand (word : Text)
  | unknownArgument (word : Text)
  | missingValue (option : OptionName)
  /-- A path is empty. -/
  | emptyPath
  | unknownChoice (option : OptionName) (value : Text)
  /-- A budget is no integer of 64 bits. -/
  | malformedNumber (option : OptionName) (value : Text)
  /-- A value is given to an option that takes none. -/
  | surplusValue (option : OptionName)
  /-- An option is given twice. -/
  | repeated (option : OptionName)
  /-- Budgets are given in both units. -/
  | bothBudgets
  deriving DecidableEq, Repr

/-- The reason in words. -/
def UsageFault.message : UsageFault → Text
  | help => "help is asked for".toList
  | version => "the version is asked for".toList
  | nothingGiven => "a command is required".toList
  | noCommand => "a command is required but none is given".toList
  | noInput => "a document is required but none is given".toList
  | unknownCommand word => "unknown command: ".toList ++ word
  | unknownArgument word => "unexpected argument: ".toList ++ word
  | missingValue option => "a value is required for --".toList ++ option.long
  | emptyPath => "a path must not be empty".toList
  | unknownChoice option value =>
    "invalid value for --".toList ++ option.long ++ [':', ' '] ++ value
  | malformedNumber option value =>
    "no integer for --".toList ++ option.long ++ [':', ' '] ++ value
  | surplusValue option => "no value is possible for --".toList ++ option.long
  | repeated option => "given more than once: --".toList ++ option.long
  | bothBudgets => "--by-bytes cannot be given with --by-chars".toList

end Quire.Command
