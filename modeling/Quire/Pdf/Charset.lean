import Quire.Encoding

/-!
# Character sets of PDF fonts

A `Charset` gives the character for each code of a font. Codes without a character stand for
nothing. The three sets are those of ISO 32000, annex D.
-/

namespace Quire.Pdf

/-- The character sets that fonts may name. -/
inductive Charset
  | standard
  | macRoman
  | winAnsi
  deriving DecidableEq, Repr

namespace Charset

/-- The code points of the codes from `0xA1` in the standard set, `0` where there is none. -/
def standardHigh : List Nat := [
  0x00A1, 0x00A2, 0x00A3, 0x2044, 0x00A5, 0x0192, 0x00A7,
  0x00A4, 0x0027, 0x201C, 0x00AB, 0x2039, 0x203A, 0xFB01, 0xFB02,
  0, 0x2013, 0x2020, 0x2021, 0x00B7, 0, 0x00B6, 0x2022,
  0x201A, 0x201E, 0x201D, 0x00BB, 0x2026, 0x2030, 0, 0x00BF,
  0, 0x0060, 0x00B4, 0x02C6, 0x02DC, 0x00AF, 0x02D8, 0x02D9,
  0x00A8, 0, 0x02DA, 0x00B8, 0, 0x02DD, 0x02DB, 0x02C7,
  0x2014, 0, 0, 0, 0, 0, 0, 0,
  0, 0, 0, 0, 0, 0, 0, 0,
  0, 0x00C6, 0, 0x00AA, 0, 0, 0, 0,
  0x0141, 0x00D8, 0x0152, 0x00BA, 0, 0, 0, 0,
  0, 0x00E6, 0, 0, 0, 0x0131, 0, 0,
  0x0142, 0x00F8, 0x0153, 0x00DF]

/-- The code points of the codes from `0x80` in the Mac OS set, `0` where there is none. -/
def macRomanHigh : List Nat := [
  0x00C4, 0x00C5, 0x00C7, 0x00C9, 0x00D1, 0x00D6, 0x00DC, 0x00E1,
  0x00E0, 0x00E2, 0x00E4, 0x00E3, 0x00E5, 0x00E7, 0x00E9, 0x00E8,
  0x00EA, 0x00EB, 0x00ED, 0x00EC, 0x00EE, 0x00EF, 0x00F1, 0x00F3,
  0x00F2, 0x00F4, 0x00F6, 0x00F5, 0x00FA, 0x00F9, 0x00FB, 0x00FC,
  0x2020, 0x00B0, 0x00A2, 0x00A3, 0x00A7, 0x2022, 0x00B6, 0x00DF,
  0x00AE, 0x00A9, 0x2122, 0x00B4, 0x00A8, 0, 0x00C6, 0x00D8,
  0, 0x00B1, 0, 0, 0x00A5, 0x00B5, 0, 0,
  0, 0, 0, 0x00AA, 0x00BA, 0, 0x00E6, 0x00F8,
  0x00BF, 0x00A1, 0x00AC, 0, 0x0192, 0, 0, 0x00AB,
  0x00BB, 0x2026, 0x0020, 0x00C0, 0x00C3, 0x00D5, 0x0152, 0x0153,
  0x2013, 0x2014, 0x201C, 0x201D, 0x2018, 0x2019, 0x00F7, 0,
  0x00FF, 0x0178, 0x2044, 0x00A4, 0x2039, 0x203A, 0xFB01, 0xFB02,
  0x2021, 0x00B7, 0x201A, 0x201E, 0x2030, 0x00C2, 0x00CA, 0x00C1,
  0x00CB, 0x00C8, 0x00CD, 0x00CE, 0x00CF, 0x00CC, 0x00D3, 0x00D4,
  0, 0x00D2, 0x00DA, 0x00DB, 0x00D9, 0x0131, 0x02C6, 0x02DC,
  0x00AF, 0x02D8, 0x02D9, 0x02DA, 0x00B8, 0x02DD, 0x02DB, 0x02C7]

/-- The entry of a table at a code above its first one. -/
def entry? (table : List Nat) (first code : Nat) : Option Char :=
  match table[code - first]? with
  | some 0 | none => none
  | some n => some (Char.ofNat n)

/-- The character of a code in the set of Windows, where codes that are not used show a bullet. -/
def winAnsiHigh (code : Nat) : Char :=
  if code = 0xA0 then ' '
  else if code = 0xAD then '-'
  else if code < 0x80 then '•'
  else
    let c := Encoding.windows1252Char (UInt8.ofNat code)
    if c.toNat < 0xA0 then '•' else c

/-- The character of a code. -/
def char? (s : Charset) (code : Nat) : Option Char :=
  if code < 0x20 then none
  else
    match s with
    | standard =>
      if code = 0x27 then some '’'
      else if code = 0x60 then some '‘'
      else if code < 0x7F then some (Char.ofNat code)
      else if code < 0xA1 then none
      else entry? standardHigh 0xA1 code
    | macRoman =>
      if code < 0x7F then some (Char.ofNat code)
      else if code < 0x80 then none
      else entry? macRomanHigh 0x80 code
    | winAnsi => if code < 0x7F then some (Char.ofNat code) else some (winAnsiHigh code)

/-- The text that a string shows. -/
def decode (s : Charset) (t : Text) : Text := t.filterMap fun c => s.char? c.toNat

end Charset

end Quire.Pdf
