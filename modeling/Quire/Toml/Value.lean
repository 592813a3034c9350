import Quire.Text.Basic

/-!
# TOML values

A `Value` is what a TOML document holds: scalars, lists and tables. Floats, dates and times are of
no use to settings and are all `other`. `Section` is a table of scalars and of lists of scalars
under a name; a document made of sections is what `Toml.Printer` writes.
-/

namespace Quire.Toml

/-- A text, a 64-bit integer or a boolean. -/
inductive Scalar
  | text (t : Text)
  | integer (n : Int64)
  | boolean (b : Bool)
  deriving DecidableEq, Repr

/-- A value of a TOML document. -/
inductive Value
  | scalar (s : Scalar)
  | list (items : List Value)
  | table (entries : List (Text × Value))
  /-- A float, a date or a time. -/
  | other
  deriving Repr

/-- A scalar or a list of scalars. -/
inductive Setting
  | one (s : Scalar)
  | many (items : List Scalar)
  deriving DecidableEq, Repr

/-- A setting as a value. -/
def Setting.value : Setting → Value
  | one s => .scalar s
  | many items => .list (items.map .scalar)

/-- Named settings under a name. -/
structure Section where
  name : Text
  entries : List (Text × Setting)
  deriving DecidableEq, Repr

/-- A section as a table. -/
def Section.value (s : Section) : Value := .table (s.entries.map fun e => (e.1, e.2.value))

end Quire.Toml
