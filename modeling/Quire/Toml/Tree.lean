import Quire.Toml.Value

/-!
# Tables under construction

While a document is read its tables are trees (`Entries`), which remember where each table comes
from (`Origin`), because that decides what may still be added to it. `insert` gives a value to a
dotted key, `openTable` and `openElement` make the table of a header, and `within` works on the
table that a header has opened. Each gives nothing where the document defines something twice or
goes through something that is no table. `Entries.toValue` forgets the origins.
-/

namespace Quire.Toml

/-- A key, in its parts. -/
abbrev Key := List Text

/-- Where a table comes from. -/
inductive Origin
  /-- It has a header of its own. -/
  | explicit
  /-- The header of a table inside it has made it. -/
  | implied
  /-- A dotted key has made it. -/
  | dotted
  deriving DecidableEq, Repr

/-- What a name in a table stands for. -/
inductive Item
  | value (v : Value)
  | table (origin : Origin) (entries : List (Text × Item))
  | array (elements : List (List (Text × Item)))
  deriving Repr

/-- The contents of a table. -/
abbrev Entries := List (Text × Item)

/-- Changes what a name stands for; `f` gets nothing if the name is new. -/
def Entries.alter (name : Text) (f : Option Item → Option Item) : Entries → Option Entries
  | [] => (f none).map fun item => [(name, item)]
  | e :: es =>
    if e.1 = name then (f (some e.2)).map fun item => (name, item) :: es
    else (alter name f es).map (e :: ·)

/-- Changes the last element of an array. -/
def changeLast (f : Entries → Option Entries) : List Entries → Option (List Entries)
  | [] => none
  | [element] => (f element).map ([·])
  | element :: elements => (changeLast f elements).map (element :: ·)

namespace Entries

/-- Gives a value to a dotted key that is new. The parts before the last lead through tables
without a header, and the table that gets the value is one that a dotted key has made. -/
def insert (v : Value) : Key → Entries → Option Entries
  | [], _ => none
  | [name], entries =>
    entries.alter name fun
      | none => some (.value v)
      | some _ => none
  | name :: next :: rest, entries =>
    entries.alter name fun
      | none => (insert v (next :: rest) []).map (.table .dotted)
      | some (.table .dotted inner) => (insert v (next :: rest) inner).map (.table .dotted)
      | some (.table .implied inner) =>
        if rest.isEmpty then none else (insert v (next :: rest) inner).map (.table .implied)
      | some (.table .explicit _) => none
      | some (.array elements) =>
        if rest.isEmpty then none
        else (changeLast (fun inner => insert v (next :: rest) inner) elements).map .array
      | some (.value _) => none

/-- Works on the table at the end of a path. The path goes into the last element of an array, and
tables that it misses are made. -/
def within (f : Entries → Option Entries) : Key → Entries → Option Entries
  | [], entries => f entries
  | name :: rest, entries =>
    entries.alter name fun
      | none => (within f rest []).map (.table .implied)
      | some (.table origin inner) => (within f rest inner).map (.table origin)
      | some (.array elements) =>
        (changeLast (fun inner => within f rest inner) elements).map .array
      | some (.value _) => none

/-- Works on the name at the end of a key. -/
def atKey (f : Option Item → Option Item) (key : Key) (entries : Entries) : Option Entries :=
  match key.getLast? with
  | some name => entries.within (alter name f) key.dropLast
  | none => none

/-- Makes the table of a header: a new one, or one that was implied before. -/
def openTable : Key → Entries → Option Entries :=
  atKey fun
    | none => some (.table .explicit [])
    | some (.table .implied inner) => some (.table .explicit inner)
    | some _ => none

/-- Adds an empty element to an array of tables, which may be new. -/
def openElement : Key → Entries → Option Entries :=
  atKey fun
    | none => some (.array [[]])
    | some (.array elements) => some (.array (elements ++ [[]]))
    | some _ => none

end Entries

mutual

/-- What a name stands for, as a value. -/
def Item.toValue : Item → Value
  | .value v => v
  | .table _ entries => .table (Entries.toValues entries)
  | .array elements => .list (elementsToValues elements)

/-- The entries of a table, as values. -/
def Entries.toValues : List (Text × Item) → List (Text × Value)
  | [] => []
  | (name, item) :: entries => (name, item.toValue) :: Entries.toValues entries

/-- The elements of an array of tables, as values. -/
def elementsToValues : List (List (Text × Item)) → List Value
  | [] => []
  | entries :: elements => .table (Entries.toValues entries) :: elementsToValues elements

end

/-- A table, as a value. -/
def Entries.toValue (entries : Entries) : Value := .table (Entries.toValues entries)

end Quire.Toml
