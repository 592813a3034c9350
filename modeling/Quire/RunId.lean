import Quire.Text.Decimal

/-!
# Run identifiers

A run has a number of 128 bits. It is written as thirty-two hexadecimal digits in groups of 8, 4,
4, 4 and 12 with hyphens between them (`RunId.print`), and read also without hyphens, between
braces, or behind `urn:uuid:` (`RunId.read?`). New identifiers begin with the time (`RunId.make`),
so that they sort by it.
-/

namespace Quire

/-- The identifier of a run. -/
structure RunId where
  bits : BitVec 128
  deriving DecidableEq, Repr

namespace RunId

/-- The lengths of the groups of digits. -/
def groupLengths : List Nat := [8, 4, 4, 4, 12]

/-- Cuts a text into pieces of the given lengths, if it has just their sum. -/
def cut? : List Nat → Text → Option (List Text)
  | [], [] => some []
  | [], _ :: _ => none
  | n :: ns, t => if t.length < n then none else (cut? ns (t.drop n)).map (t.take n :: ·)

/-- The identifier of thirty-two hexadecimal digits. -/
def ofDigits? (t : Text) : Option RunId :=
  if t.length = 32 then (Text.readNat? 16 t).map fun n => ⟨BitVec.ofNat 128 n⟩ else none

/-- The identifier in groups of digits with hyphens between them. -/
def ofGroups? (t : Text) : Option RunId :=
  let groups := t.splitOnP (· == '-')
  if groups.map List.length = groupLengths then ofDigits? groups.flatten else none

/-- An identifier in any of its forms. -/
def read? (t : Text) : Option RunId :=
  if t.length = 32 then ofDigits? t
  else if t.length = 36 then ofGroups? t
  else if t.length = 38 then
    match t with
    | '\x7b' :: t => if t.getLast? = some '\x7d' then ofGroups? t.dropLast else none
    | _ => none
  else (Text.stripPrefix? "urn:uuid:".toList t).bind ofGroups?

/-- The thirty-two digits of an identifier. -/
def digits (id : RunId) : Text :=
  let ds := Nat.toDigits 16 id.bits.toNat
  List.replicate (32 - ds.length) '0' ++ ds

/-- An identifier as it is written. -/
def print (id : RunId) : Text :=
  Text.joinWith ['-'] ((cut? groupLengths id.digits).getD [])

/-- The identifier of version 7 with a time in milliseconds and 74 random bits. -/
def make (milliseconds : Nat) (random : Nat) : RunId :=
  let time := BitVec.ofNat 48 milliseconds
  let high := BitVec.ofNat 12 random
  let low := BitVec.ofNat 62 (random >>> 12)
  ⟨(time ++ (7 : BitVec 4) ++ high ++ (2 : BitVec 2) ++ low).cast (by decide)⟩

end RunId

end Quire
