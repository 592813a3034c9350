import Quire.Text.Blank

/-!
# Text encodings

The bytes of a plain text are decoded by the first encoding of a chain that accepts them
(`decodeFirst?`). UTF-8 is strict and drops one byte order mark at the start; Latin-1 and
Windows-1252 give every byte a character, so they accept everything. `Encoding.ofLabel?` reads the
name of an encoding, and `Encoding.encode?` turns a text back into bytes.
-/

namespace Quire

/-- The encodings of plain texts. -/
inductive Encoding
  | utf8
  | latin1
  | windows1252
  deriving DecidableEq, Repr

namespace Encoding

/-- The name of an encoding. -/
def label : Encoding → Text
  | utf8 => "utf-8".toList
  | latin1 => "latin-1".toList
  | windows1252 => "windows-1252".toList

/-- The encodings in the order in which they are tried if nothing else is asked for. -/
def defaultChain : List Encoding := [utf8, latin1, windows1252]

/-- The spellings of the encodings. -/
def spellings : List (Text × Encoding) :=
  [("utf-8".toList, utf8), ("utf8".toList, utf8),
    ("latin-1".toList, latin1), ("latin1".toList, latin1), ("iso-8859-1".toList, latin1),
    ("windows-1252".toList, windows1252), ("cp1252".toList, windows1252)]

/-- The encoding that a label names, in letters of either case and with white space around. -/
def ofLabel? (label : Text) : Option Encoding :=
  spellings.lookup (Text.lowercase (Text.trim label))

/-- The code points of the bytes `0x80` to `0x9F` in Windows-1252, where a byte without a
character of its own stands for the control character of that number. -/
def windows1252High : List Nat := [
  0x20AC, 0x0081, 0x201A, 0x0192, 0x201E, 0x2026, 0x2020, 0x2021,
  0x02C6, 0x2030, 0x0160, 0x2039, 0x0152, 0x008D, 0x017D, 0x008F,
  0x0090, 0x2018, 0x2019, 0x201C, 0x201D, 0x2022, 0x2013, 0x2014,
  0x02DC, 0x2122, 0x0161, 0x203A, 0x0153, 0x009D, 0x017E, 0x0178]

/-- The character of a byte in Windows-1252. -/
def windows1252Char (b : UInt8) : Char :=
  if 0x80 ≤ b && b < 0xA0 then Char.ofNat (windows1252High.getD (b.toNat - 0x80) 0)
  else Char.ofUInt8 b

/-- The byte of a character in Windows-1252. -/
def windows1252Byte? (c : Char) : Option UInt8 :=
  match windows1252High.findIdx? (· == c.toNat) with
  | some i => some (UInt8.ofNat (i + 0x80))
  | none => if c.toNat < 0x80 || (0xA0 ≤ c.toNat && c.toNat < 0x100) then some c.toUInt8 else none

/-- Bytes without one UTF-8 byte order mark at their start. -/
def dropByteOrderMark (bytes : ByteArray) : ByteArray :=
  match bytes.data.toList with
  | 0xEF :: 0xBB :: 0xBF :: rest => rest.toByteArray
  | _ => bytes

/-- The text of well-formed UTF-8. -/
def decodeUtf8? (bytes : ByteArray) : Option Text := (String.fromUTF8? bytes).map String.toList

/-- The text of bytes in an encoding, if they are well-formed. -/
def decode? (e : Encoding) (bytes : ByteArray) : Option Text :=
  match e with
  | utf8 => decodeUtf8? (dropByteOrderMark bytes)
  | latin1 => some (bytes.data.toList.map Char.ofUInt8)
  | windows1252 => some (bytes.data.toList.map windows1252Char)

/-- The bytes of a text in an encoding, if it has a byte for every character. -/
def encode? (e : Encoding) (t : Text) : Option ByteArray :=
  match e with
  | utf8 => some (Text.utf8 t)
  | latin1 =>
    if t.all fun c => c.toNat < 0x100 then some (t.map Char.toUInt8).toByteArray else none
  | windows1252 => (t.mapM windows1252Byte?).map List.toByteArray

/-- The text of bytes in the first encoding of a chain that accepts them, with that encoding. -/
def decodeFirst? (chain : List Encoding) (bytes : ByteArray) : Option (Text × Encoding) :=
  chain.findSome? fun e => (e.decode? bytes).map fun t => (t, e)

end Encoding

end Quire
