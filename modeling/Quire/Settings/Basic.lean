import Quire.Cleaning.Rules
import Quire.Encoding
import Quire.Settings.Choice
import Quire.Toml.Value

/-!
# Settings

`Settings` are what a settings file says, with a default for everything that it leaves out. They
come from the value of a TOML document (`Settings.ofValue?`) and are shown as its sections
(`Settings.sections`). A section may also be given as the list of its first fields. That a setting
has the right type is checked here; whether its value makes sense is for `Plan` to say.
-/

namespace Quire

open Toml (Scalar Setting Value)

/-- How text is split. -/
structure SplitSection where
  mode : SplitMode := .bytes
  /-- The budget for mode `bytes`; any integer is a setting, also one that is refused later. -/
  maxBytes : Int64 := 2097152
  /-- The budget for mode `chars`. -/
  chunkSize : Int64 := 1000
  deriving DecidableEq, Repr

/-- How chunks are written. -/
structure OutputSection where
  format : OutputFormat := .zip
  /-- The name of the file without its extension. -/
  fileStem : Text := "cleaned_output".toList
  /-- How the names of archive entries begin. -/
  entryPrefix : Text := "cleaned_part".toList
  entryExtension : Text := "md".toList
  deriving DecidableEq, Repr

/-- How documents are read. -/
structure ExtractSection where
  /-- The encodings of plain texts, in the order in which they are tried. -/
  encodings : List Text := Encoding.defaultChain.map Encoding.label
  deriving DecidableEq, Repr

/-- What a settings file says. -/
structure Settings where
  cleaning : Rules := {}
  split : SplitSection := {}
  output : OutputSection := {}
  extract : ExtractSection := {}
  deriving DecidableEq, Repr

/-! ### Reading -/

namespace Setting

/-- A text. -/
def text? : Value → Option Text
  | .scalar (.text t) => some t
  | _ => none

/-- An integer. -/
def integer? : Value → Option Int64
  | .scalar (.integer n) => some n
  | _ => none

/-- A boolean. -/
def boolean? : Value → Option Bool
  | .scalar (.boolean b) => some b
  | _ => none

/-- A list of texts. -/
def texts? : Value → Option (List Text)
  | .list items => items.mapM text?
  | _ => none

/-- A choice by its name, which may also be the only key of a table, with nothing in it. -/
def choice? {α : Type} (ofName? : Text → Option α) : Value → Option α
  | .scalar (.text t) => ofName? t
  | .table [(name, .table [])] => ofName? name
  | .table [(name, .list [])] => ofName? name
  | _ => none

/-- The value of a field: by name in a table, by position in a list. -/
def field? (v : Value) (position : Nat) (name : String) : Option Value :=
  match v with
  | .table entries => entries.lookup name.toList
  | .list items => items[position]?
  | _ => none

/-- Whether a value can be a section. -/
def isSection : Value → Bool
  | .table _ | .list _ => true
  | _ => false

/-- A field of a section, or its default if it is missing. -/
def fieldOr {α : Type} (v : Value) (position : Nat) (name : String) (read : Value → Option α)
    (default : α) : Option α :=
  match field? v position name with
  | some x => read x
  | none => if isSection v then some default else none

end Setting

open Setting

/-- The section `cleaning`. -/
def Rules.ofValue? (v : Value) : Option Rules := do
  let base : Rules := {}
  return {
    removeLinks := ← fieldOr v 0 "remove_embedded_links" boolean? base.removeLinks
    removeUrls := ← fieldOr v 1 "remove_urls" boolean? base.removeUrls
    removeEmails := ← fieldOr v 2 "remove_emails" boolean? base.removeEmails
    collapseBlanks := ← fieldOr v 3 "collapse_whitespace" boolean? base.collapseBlanks
    stripFrontMatter := ← fieldOr v 4 "strip_frontmatter" boolean? base.stripFrontMatter }

/-- The section `split`. -/
def SplitSection.ofValue? (v : Value) : Option SplitSection := do
  let base : SplitSection := {}
  return {
    mode := ← fieldOr v 0 "mode" (choice? SplitMode.ofName?) base.mode
    maxBytes := ← fieldOr v 1 "max_bytes" integer? base.maxBytes
    chunkSize := ← fieldOr v 2 "chunk_size" integer? base.chunkSize }

/-- The section `output`. -/
def OutputSection.ofValue? (v : Value) : Option OutputSection := do
  let base : OutputSection := {}
  return {
    format := ← fieldOr v 0 "format" (choice? OutputFormat.ofName?) base.format
    fileStem := ← fieldOr v 1 "file_stem" text? base.fileStem
    entryPrefix := ← fieldOr v 2 "entry_prefix" text? base.entryPrefix
    entryExtension := ← fieldOr v 3 "entry_extension" text? base.entryExtension }

/-- The section `extract`. -/
def ExtractSection.ofValue? (v : Value) : Option ExtractSection := do
  let base : ExtractSection := {}
  return { encodings := ← fieldOr v 0 "encodings" texts? base.encodings }

/-- The settings of a document. -/
def Settings.ofValue? (v : Value) : Option Settings := do
  return {
    cleaning := ← fieldOr v 0 "cleaning" Rules.ofValue? {}
    split := ← fieldOr v 1 "split" SplitSection.ofValue? {}
    output := ← fieldOr v 2 "output" OutputSection.ofValue? {}
    extract := ← fieldOr v 3 "extract" ExtractSection.ofValue? {} }

/-! ### Showing -/

namespace Setting

/-- A setting that is a text. -/
def ofText (name : String) (t : Text) : Text × Setting := (name.toList, .one (.text t))

/-- A setting that is an integer. -/
def ofInteger (name : String) (n : Int64) : Text × Setting := (name.toList, .one (.integer n))

/-- A setting that is a boolean. -/
def ofBoolean (name : String) (b : Bool) : Text × Setting := (name.toList, .one (.boolean b))

end Setting

/-- The settings as sections of a document. -/
def Settings.sections (s : Settings) : List Toml.Section := [
  ⟨"cleaning".toList, [
    ofBoolean "remove_embedded_links" s.cleaning.removeLinks,
    ofBoolean "remove_urls" s.cleaning.removeUrls,
    ofBoolean "remove_emails" s.cleaning.removeEmails,
    ofBoolean "collapse_whitespace" s.cleaning.collapseBlanks,
    ofBoolean "strip_frontmatter" s.cleaning.stripFrontMatter]⟩,
  ⟨"split".toList, [
    ofText "mode" s.split.mode.label,
    ofInteger "max_bytes" s.split.maxBytes,
    ofInteger "chunk_size" s.split.chunkSize]⟩,
  ⟨"output".toList, [
    ofText "format" s.output.format.extension,
    ofText "file_stem" s.output.fileStem,
    ofText "entry_prefix" s.output.entryPrefix,
    ofText "entry_extension" s.output.entryExtension]⟩,
  ⟨"extract".toList, [
    ("encodings".toList, .many (s.extract.encodings.map .text))]⟩]

end Quire
