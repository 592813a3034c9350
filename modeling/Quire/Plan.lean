import Quire.Chunk
import Quire.Fault
import Quire.Settings.Basic

/-!
# Plans

A `Plan` is what a run goes by: settings whose values make sense. `Plan.ofSettings` checks them and
reports the first fault in the order budget, name of the output, prefix and extension of archive
entries, encodings. Names lose the white space at their ends, and the extension its leading dots.
-/

namespace Quire

/-- A budget given as a setting. -/
def Budget.ofSetting (mode : SplitMode) (given : Int64) : Except SettingFault Budget :=
  if h : 0 < given.toInt then .ok ⟨given.toInt.toNat, by omega⟩ else .error (.budget mode given)

namespace Division

/-- A division in a unit under a budget given as a setting. -/
def ofSetting (mode : SplitMode) (given : Int64) : Except SettingFault Division :=
  (Budget.ofSetting mode given).map fun budget =>
    match mode with
    | .bytes => .byBytes budget
    | .chars => .byChars budget

/-- The division that settings ask for; the budget of the other unit does not matter. -/
def ofSection (s : SplitSection) : Except SettingFault Division :=
  ofSetting s.mode (match s.mode with | .bytes => s.maxBytes | .chars => s.chunkSize)

/-- The unit of a division. -/
def mode : Division → SplitMode
  | byBytes _ => .bytes
  | byChars _ => .chars

/-- The budget of a division. -/
def budget : Division → Budget
  | byBytes budget => budget
  | byChars budget => budget

end Division

/-- How chunks are written, under names that stay in their place. -/
structure Output where
  format : OutputFormat := .zip
  fileStem : Text := "cleaned_output".toList
  entryPrefix : Text := "cleaned_part".toList
  entryExtension : Text := "md".toList
  deriving DecidableEq, Repr

namespace Output

/-- Whether a name would lead to another directory. -/
def hasSeparator (name : Text) : Bool := Text.containsAny ['/', '\\'] name

/-- The names of settings without what does not count. -/
def trimmed (s : OutputSection) : Output where
  format := s.format
  fileStem := Text.trim s.fileStem
  entryPrefix := Text.trim s.entryPrefix
  entryExtension := (Text.trim s.entryExtension).dropWhile (· == '.')

/-- The output that settings ask for. -/
def ofSection (s : OutputSection) : Except SettingFault Output :=
  let o := trimmed s
  if o.fileStem.isEmpty || hasSeparator o.fileStem then .error (.fileStem s.fileStem)
  else if hasSeparator o.entryPrefix then .error (.entryPrefix s.entryPrefix)
  else if hasSeparator o.entryExtension then .error (.entryExtension s.entryExtension)
  else .ok o

/-- The settings that ask for an output. -/
def toSection (o : Output) : OutputSection where
  format := o.format
  fileStem := o.fileStem
  entryPrefix := o.entryPrefix
  entryExtension := o.entryExtension

/-- The name of the file that is written. -/
def fileName (o : Output) : Text := o.fileStem ++ ['.'] ++ o.format.extension

end Output

/-- An encoding by its label. -/
def Encoding.ofSetting (label : Text) : Except SettingFault Encoding :=
  match Encoding.ofLabel? label with
  | some e => .ok e
  | none => .error (.unknownEncoding label)

/-- The encodings of some labels, of which there has to be one. -/
def Encoding.chainOfLabels : List Text → Except SettingFault (List Encoding)
  | [] => .error .noEncoding
  | labels => labels.mapM Encoding.ofSetting

/-- What a run goes by. -/
structure Plan where
  rules : Rules := {}
  division : Division := .byBytes ⟨2097152, by decide⟩
  output : Output := {}
  encodings : List Encoding := Encoding.defaultChain
  deriving DecidableEq, Repr

/-- The plan of some settings, unless one of them is refused. -/
def Plan.ofSettings (s : Settings) : Except SettingFault Plan := do
  let division ← Division.ofSection s.split
  let output ← Output.ofSection s.output
  let encodings ← Encoding.chainOfLabels s.extract.encodings
  return { rules := s.cleaning, division, output, encodings }

end Quire
