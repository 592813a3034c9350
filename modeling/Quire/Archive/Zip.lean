import Quire.Archive.Crc32
import Quire.Archive.Inflate
import Quire.Encoding

/-!
# Archives

A ZIP archive holds files under names. `Archive.create` writes one, with the files in order and
their bytes as they are, and refuses only a name that is used twice. `Archive.directory?` reads the
directory of an archive and `Archive.file?` a file of it, stored or compressed; there may be other
bytes before and after the archive.
-/

namespace Quire.Archive

/-- A file of an archive. -/
structure Entry where
  name : Text
  content : Bytes
  deriving DecidableEq, Repr

/-- The first name that occurs again later in a list. -/
def firstDuplicate? : List Text → Option Text
  | [] => none
  | name :: names => if names.contains name then some name else firstDuplicate? names

/-! ### Writing -/

/-- Numbers, each in its number of bytes. -/
def fields (fs : List (Nat × Nat)) : Bytes := fs.flatMap fun f => Bytes.littleEndian f.1 f.2

/-- The bytes of a name. -/
def Entry.nameBytes (e : Entry) : Bytes := (Text.utf8 e.name).data.toList

/-- What the headers of a file have in common: the version that is needed to read it, a flag for a
name in UTF-8, no compression, the first of January 1980, checksum and sizes. -/
def Entry.common (e : Entry) : Bytes :=
  fields [(2, 20), (2, 0x0800), (2, 0), (2, 0), (2, 0x21), (4, (Crc32.checksum e.content).toNat),
    (4, e.content.length), (4, e.content.length), (2, e.nameBytes.length), (2, 0)]

/-- A file with its header. -/
def Entry.record (e : Entry) : Bytes :=
  fields [(4, 0x04034b50)] ++ e.common ++ e.nameBytes ++ e.content

/-- The line of the directory for a file that begins at an offset. -/
def Entry.line (e : Entry) (offset : Nat) : Bytes :=
  fields [(4, 0x02014b50), (2, 20)] ++ e.common ++
    fields [(2, 0), (2, 0), (2, 0), (4, 0), (4, offset)] ++ e.nameBytes

/-- The lines of the directory for files of which the first begins at an offset. -/
def lines : (offset : Nat) → List Entry → Bytes
  | _, [] => []
  | offset, e :: es => e.line offset ++ lines (offset + e.record.length) es

/-- The end of an archive whose directory has `count` lines and begins at an offset. A directory of
too many lines for two bytes has a longer record before it that holds their number. -/
def ending (count size offset : Nat) : Bytes :=
  let long := fields [(4, 0x06064b50), (8, 44), (2, 45), (2, 45), (4, 0), (4, 0), (8, count),
    (8, count), (8, size), (8, offset), (4, 0x07064b50), (4, 0), (8, offset + size), (4, 1)]
  (if count < 0xFFFF then [] else long) ++
    fields [(4, 0x06054b50), (2, 0), (2, 0), (2, min count 0xFFFF), (2, min count 0xFFFF),
      (4, size), (4, offset), (2, 0)]

/-- An archive of files, one after the other. -/
def write (es : List Entry) : Bytes :=
  let records := es.flatMap Entry.record
  let directory := lines 0 es
  records ++ directory ++ ending es.length directory.length records.length

/-- An archive of files, unless two have one name, which is then given. -/
def create (es : List Entry) : Except Text Bytes :=
  match firstDuplicate? (es.map Entry.name) with
  | some name => .error name
  | none => .ok (write es)

/-! ### Reading -/

/-- What the directory says about a file. -/
structure Member where
  name : Text
  encrypted : Bool
  method : Nat
  checksum : Nat
  size : Nat
  /-- Where the header of the file begins. -/
  offset : Nat
  deriving DecidableEq, Repr

/-- The last place where a list begins with `start`, counted from `i`, or `found` if there is
none. -/
def lastPlace? (start : Bytes) (found : Option Nat) (i : Nat) : Bytes → Option Nat
  | [] => found
  | b :: bs =>
    lastPlace? start (if start.isPrefixOf (b :: bs) then some i else found) (i + 1) bs

/-- The name in some bytes: UTF-8 with all its characters, or else a character for each byte. -/
def nameOf (bs : Bytes) : Text :=
  (Encoding.decodeUtf8? bs.toByteArray).getD (bs.map Char.ofUInt8)

/-- At most `fuel` lines of a directory, where offsets are less by `shift` than they should be. -/
def members? (shift : Nat) : (fuel : Nat) → Bytes → Option (List Member)
  | _, [] => some []
  | 0, _ :: _ => none
  | fuel + 1, bs => do
    let signature ← bs.number? 0 4
    let flags ← bs.number? 8 2
    let method ← bs.number? 10 2
    let checksum ← bs.number? 16 4
    let size ← bs.number? 20 4
    let nameLength ← bs.number? 28 2
    let extraLength ← bs.number? 30 2
    let commentLength ← bs.number? 32 2
    let offset ← bs.number? 42 4
    let name ← bs.slice? 46 nameLength
    if signature = 0x02014b50 then
      let rest ← members? shift fuel (bs.drop (46 + nameLength + extraLength + commentLength))
      return ⟨nameOf name, flags.testBit 0, method, checksum, size, offset + shift⟩ :: rest
    else none

/-- The directory of an archive, with the files in order. It is found by the last place where the
record of 22 bytes at the end of an archive may begin. -/
def directory? (bs : Bytes) : Option (List Member) := do
  let place ← lastPlace? [0x50, 0x4b, 0x05, 0x06] none 0 (bs.take (bs.length - 18))
  let count ← bs.number? (place + 10) 2
  let size ← bs.number? (place + 12) 4
  let offset ← bs.number? (place + 16) 4
  let comment ← bs.number? (place + 20) 2
  let _ ← bs.slice? (place + 22) comment
  -- A directory of too many lines has a longer record between it and this one.
  let long := count = 0xFFFF && 76 ≤ place && bs.number? (place - 76) 4 = some 0x06064b50
  let endOfLines := if long then place - 76 else place
  if endOfLines < size + offset then none
  else
    let shift := endOfLines - size - offset
    let part ← bs.slice? (offset + shift) size
    members? shift part.length part

/-- The bytes of a file in an archive, if they can be read and have the right checksum. -/
def Member.content? (m : Member) (bs : Bytes) : Option Bytes := do
  let signature ← bs.number? m.offset 4
  let nameLength ← bs.number? (m.offset + 26) 2
  let extraLength ← bs.number? (m.offset + 28) 2
  let data ← bs.slice? (m.offset + 30 + nameLength + extraLength) m.size
  let content ←
    match m.method with
    | 0 => some data
    | 8 =>
      match Inflate.inflate data with
      | (out, .finished) => some out
      | _ => none
    | _ => none
  if signature = 0x04034b50 && !m.encrypted && (Crc32.checksum content).toNat = m.checksum then
    return content
  else none

/-- The file of a name, the last one if there are several. -/
def file? (bs : Bytes) (name : Text) : Option Bytes := do
  let members ← directory? bs
  let m ← members.reverse.find? (·.name == name)
  m.content? bs

/-- All files of an archive, in order. -/
def read? (bs : Bytes) : Option (List Entry) := do
  let members ← directory? bs
  members.mapM fun m => do return ⟨m.name, ← m.content? bs⟩

end Quire.Archive
