import Quire.Bytes

/-!
# Cyclic redundancy check

The checksum of 32 bits that an archive holds of each of its files.
-/

namespace Quire.Crc32

/-- Shifts a register by one bit, and subtracts the polynomial if a bit falls out. -/
def shift (r : UInt32) : UInt32 :=
  if r &&& 1 = 1 then (r >>> 1) ^^^ 0xEDB88320 else r >>> 1

/-- Takes a byte into a register. -/
def update (r : UInt32) (b : UInt8) : UInt32 := Nat.repeat shift 8 (r ^^^ b.toUInt32)

/-- The checksum of some bytes. -/
def checksum (bs : Bytes) : UInt32 := ~~~bs.foldl update 0xFFFFFFFF

end Quire.Crc32
