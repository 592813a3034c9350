import Quire.Settings.Basic

/-!
# Overrides

What is said on the command line of a run goes before what the settings file says: `Overrides` holds
the settings that are given there, and `Settings.override` puts them in the place of the others. The
size of chunks is given together with its unit.
-/

namespace Quire

namespace Command

/-- The settings that a command line gives. -/
structure Overrides where
  format : Option OutputFormat := none
  /-- The unit and the budget of chunks. -/
  division : Option (SplitMode × Int64) := none
  entryExtension : Option Text := none
  keepLinks : Bool := false
  removeUrls : Bool := false
  removeEmails : Bool := false
  keepBlanks : Bool := false
  keepFrontMatter : Bool := false
  deriving DecidableEq, Repr

end Command

/-- Rules that are changed by a command line. -/
def Rules.override (r : Rules) (o : Command.Overrides) : Rules where
  removeLinks := r.removeLinks && !o.keepLinks
  removeUrls := r.removeUrls || o.removeUrls
  removeEmails := r.removeEmails || o.removeEmails
  collapseBlanks := r.collapseBlanks && !o.keepBlanks
  stripFrontMatter := r.stripFrontMatter && !o.keepFrontMatter

/-- A division that is changed by a command line. -/
def SplitSection.override (s : SplitSection) (o : Command.Overrides) : SplitSection :=
  match o.division with
  | some (.bytes, budget) => { s with mode := .bytes, maxBytes := budget }
  | some (.chars, budget) => { s with mode := .chars, chunkSize := budget }
  | none => s

/-- An output that is changed by a command line. -/
def OutputSection.override (s : OutputSection) (o : Command.Overrides) : OutputSection :=
  { s with
    format := o.format.getD s.format
    entryExtension := o.entryExtension.getD s.entryExtension }

/-- Settings that are changed by a command line. -/
def Settings.override (s : Settings) (o : Command.Overrides) : Settings :=
  { s with
    cleaning := s.cleaning.override o
    split := s.split.override o
    output := s.output.override o }

end Quire
