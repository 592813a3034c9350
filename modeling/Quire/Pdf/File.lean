import Quire.Pdf.Value

/-!
# PDF files

A file ends with the place of its cross-reference table, which gives the places of the objects and
is followed by the trailer; a trailer may name an earlier table that fills the gaps. `File.read?`
reads the objects that the tables name; those that are malformed are left out.
-/

namespace Quire.Pdf

open Reader

/-- A value, or a stream with its dictionary and its data. -/
inductive Object
  | value (v : Value)
  | stream (dictionary : Dictionary) (data : Text)
  deriving Repr

/-- The number of an object in use and the place where it begins. -/
structure Place where
  number : Nat
  offset : Nat
  deriving DecidableEq, Repr

/-! ### Tables -/

/-- A version at the start of a file, on a line of its own. -/
def header : Reader Unit := do
  literal "%PDF-".toList
  let _ ← run fun c => c != '\r' && c != '\n'
  lineEnd

/-- The last place where `pattern` stands in a text, counted from `i`. -/
def lastPlace? (pattern : Text) (found : Option Nat) (i : Nat) : Text → Option Nat
  | [] => found
  | c :: t => lastPlace? pattern (if pattern.isPrefixOf (c :: t) then some i else found) (i + 1) t

/-- The place of the cross-reference table, as it stands between `startxref` and the mark at the
end of the file, which is among the last 512 characters. -/
def tablePlace? (t : Text) : Option Nat := do
  let start := t.length - 512
  let mark ← lastPlace? "%%EOF".toList none start (t.drop start)
  if mark ≤ 25 then none
  else
    let place ← lastPlace? "startxref".toList none (mark - 25) (t.drop (mark - 25))
    let (n, _) ← (do
      literal "startxref".toList
      lineEnd
      let n ← integer
      lineEnd
      literal "%%EOF".toList
      return n : Reader Int) (t.drop place)
    if 0 ≤ n then some n.toNat else none

/-- A line of a cross-reference table: the place of an object, and whether it is in use. -/
def tableLine : Reader (Nat × Bool) := do
  let offset ← natural
  literal [' ']
  let generation ← natural
  literal [' ']
  let kind ← char fun c => c == 'n' || c == 'f'
  literal [' ', '\r'] <|> literal [' ', '\n'] <|> literal ['\r', '\n']
  return (offset, kind == 'n' && generation < 0x10000)

/-- A section of a cross-reference table, with the numbers of its objects in a row. -/
def tableSection : Reader (List Place) := do
  let first ← natural
  literal [' ']
  let _ ← natural
  let _ ← opt (literal [' '])
  lineEnd
  let lines ← many tableLine
  return (lines.mapIdx fun i l => (l.2, (⟨first + i, l.1⟩ : Place))).filterMap fun l =>
    if l.1 then some l.2 else none

/-- A cross-reference table with the trailer behind it. -/
def table : Reader (List Place × Dictionary) := do
  literal "xref".toList
  lineEnd
  let first ← tableSection
  let others ← many tableSection
  space
  literal "trailer".toList
  space
  let trailer ← dictionary value
  if ((trailer.get? "Size").bind Value.integer?).isSome then
    return ((first :: others).flatten, trailer)
  else failure

/-- The places of a table in which the last one counts for each number. -/
def latest (ps : List Place) : List Place :=
  ps.foldl (fun kept p => kept.filter (·.number != p.number) ++ [p]) []

/-- The places with those of an earlier table for the numbers that they lack. -/
def merge (ps earlier : List Place) : List Place :=
  ps ++ (latest earlier).filter fun p => !(ps.any (·.number == p.number))

/-- The places of at most `fuel` earlier tables, each named by the trailer of the one before it,
with those given; a table that has been `seen` ends the chain. -/
def earlierTables (t : Text) : (fuel : Nat) → (seen : List Int) → Dictionary → List Place →
    Option (List Place)
  | 0, _, _, ps => some ps
  | fuel + 1, seen, trailer, ps =>
    match (trailer.get? "Prev").bind Value.integer? with
    | none => some ps
    | some offset =>
      if seen.contains offset then some ps
      else if offset < 0 || (t.length : Int) < offset then none
      else
        match table (t.drop offset.toNat) with
        | none => none
        | some ((earlier, trailer), _) =>
          earlierTables t fuel (offset :: seen) trailer (merge ps earlier)

/-! ### Objects -/

/-- The number of an object and the keyword behind it. -/
def objectStart : Reader ObjectId := do
  space
  let id ← objectId
  literal "obj".toList
  space
  return id

/-- The value of an object at a place, for the length of a stream that another object holds. -/
def valueAt? (t : Text) (ps : List Place) (id : ObjectId) : Option Value := do
  let p ← ps.find? (·.number == id.number)
  let (found, rest) ← objectStart (t.drop p.offset)
  let (v, _) ← value rest
  if found = id then some v else none

/-- The data of a stream behind its dictionary: as many characters as the dictionary says, none if
it does not say. -/
def streamData (t : Text) (ps : List Place) (d : Dictionary) : Reader Text := do
  space
  literal "stream".toList
  lineEnd
  let length :=
    match d.get? "Length" with
    | some (.reference id) => (valueAt? t ps id).bind Value.integer?
    | some v => v.integer?
    | none => none
  match length with
  | none => return []
  | some n =>
    let data : Text ← fun t =>
      if (t.take n.toNat).length = n.toNat then some (t.take n.toNat, t.drop n.toNat) else none
    let _ ← opt lineEnd
    literal "endstream".toList
    return data

/-- What an object holds; a dictionary behind which no stream of its length stands is a value. -/
def object (t : Text) (ps : List Place) : Reader Object :=
  (do
    let d ← dictionary value
    let data ← streamData t ps d
    return .stream d data) <|>
  (do return .value (← value))

/-- The object at a place, under the number that stands there. -/
def objectAt? (t : Text) (ps : List Place) (p : Place) : Option (ObjectId × Object) := do
  let (id, rest) ← objectStart (t.drop p.offset)
  let (o, _) ← object t ps rest
  return (id, o)

/-- A file: its trailer, and its objects, in which the last one counts for each number. -/
structure File where
  trailer : Dictionary
  objects : List (ObjectId × Object)

namespace File

/-- The file with the given characters. -/
def read? (t : Text) : Option File := do
  let _ ← header t
  let place ← tablePlace? t
  if t.length < place then none
  else
    let ((ps, trailer), _) ← table (t.drop place)
    let ps ← earlierTables t t.length [] trailer (latest ps)
    let sorted := ps.mergeSort fun p q => p.number ≤ q.number
    return ⟨trailer, (sorted.filterMap (objectAt? t ps)).reverse⟩

/-- The object that a reference leads to, through at most `fuel` others. -/
def follow? (f : File) : (fuel : Nat) → ObjectId → Option Object
  | 0, _ => none
  | fuel + 1, id =>
    match f.objects.lookup id with
    | some (.value (.reference next)) => f.follow? fuel next
    | o => o

/-- The object of a number. -/
def object? (f : File) (id : ObjectId) : Option Object := f.follow? 128 id

/-- The dictionary of a number. -/
def dictionary? (f : File) (id : ObjectId) : Option Dictionary :=
  match f.object? id with
  | some (.value v) => v.dictionary?
  | _ => none

/-- The value for which a value stands: itself, or the value it refers to. -/
def resolve? (f : File) : Value → Option Value
  | .reference id =>
    match f.object? id with
    | some (.value v) => some v
    | _ => none
  | v => some v

end File

end Quire.Pdf
