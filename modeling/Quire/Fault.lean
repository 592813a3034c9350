import Quire.Document
import Quire.Settings.Choice
import Quire.Text.Decimal
import Quire.Text.Quoted

/-!
# Faults

What can go wrong, by cause: `SettingFault` for settings that are refused, `DiskFault` for file
operations that fail, and `Fault` for a whole run. `Fault.message` is the text that a user sees.
-/

namespace Quire

/-- Why settings are refused. -/
inductive SettingFault
  /-- A budget is not positive. -/
  | budget (mode : SplitMode) (given : Int64)
  /-- The name of the output is empty or has a path separator. -/
  | fileStem (given : Text)
  /-- The prefix of archive entries has a path separator. -/
  | entryPrefix (given : Text)
  /-- The extension of archive entries has a path separator. -/
  | entryExtension (given : Text)
  /-- No encoding is given. -/
  | noEncoding
  /-- A label names no encoding. -/
  | unknownEncoding (label : Text)
  /-- Another reason, in words. -/
  | other (message : Text)
  deriving DecidableEq, Repr

/-- The reason in words. -/
def SettingFault.message : SettingFault → Text
  | budget mode given =>
    mode.budgetName ++ " must be a positive integer, got ".toList ++
      Text.signedDecimal given.toInt
  | fileStem given =>
    "file_stem must be a plain non-empty file name, got ".toList ++ Text.quoted given
  | entryPrefix given =>
    "entry_prefix must not contain path separators, got ".toList ++ Text.quoted given
  | entryExtension given =>
    "entry_extension must not contain path separators, got ".toList ++ Text.quoted given
  | noEncoding => "encodings must list at least one encoding".toList
  | unknownEncoding label =>
    "unknown encoding ".toList ++ Text.quoted label ++
      " (expected utf-8, latin-1, or windows-1252)".toList
  | other message => message

/-- Why a file operation fails. -/
inductive DiskFault
  | notFound
  | alreadyExists
  | notDirectory
  | isDirectory
  | nameTooLong
  /-- The path has a character that no name may have. -/
  | nulInName
  /-- The file is no well-formed UTF-8. -/
  | notUtf8
  /-- Another reason, in words. -/
  | other (message : Text)
  deriving DecidableEq, Repr

/-- The reason in words. -/
def DiskFault.message : DiskFault → Text
  | notFound => "No such file or directory (os error 2)".toList
  | alreadyExists => "File exists (os error 17)".toList
  | notDirectory => "Not a directory (os error 20)".toList
  | isDirectory => "Is a directory (os error 21)".toList
  | nameTooLong => "File name too long (os error 36)".toList
  | nulInName => "file name contained an unexpected NUL byte".toList
  | notUtf8 => "stream did not contain valid UTF-8".toList
  | other message => message

/-- What can go wrong in a run. -/
inductive Fault
  /-- None of the encodings tried accepts the bytes of a plain text. -/
  | unsupportedEncoding (tried : List Text)
  /-- Settings are refused before anything is done. -/
  | invalidConfig (cause : SettingFault)
  /-- A document cannot be read in its format. -/
  | extraction (format : Document.Format) (message : Text)
  /-- The output cannot be put together. -/
  | serialization (format : OutputFormat) (message : Text)
  /-- A settings file cannot be found or read. -/
  | config (message : Text)
  /-- A file operation fails. -/
  | io (path : Text) (cause : DiskFault)
  deriving DecidableEq, Repr

/-- What a user sees. -/
def Fault.message : Fault → Text
  | unsupportedEncoding tried =>
    "unsupported encoding: input is not valid ".toList ++ Text.joinWith [',', ' '] tried
  | invalidConfig cause => "invalid config: ".toList ++ cause.message
  | extraction format message => format.label ++ " extraction failed: ".toList ++ message
  | serialization format message =>
    format.extension ++ " serialization failed: ".toList ++ message
  | config message => "config error: ".toList ++ message
  | io path cause => "I/O error at ".toList ++ Text.quoted path ++ [':', ' '] ++ cause.message

end Quire
