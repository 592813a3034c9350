/-!
# Bytes

Files that are put together or taken apart are lists of bytes. `littleEndian` writes a number in
a fixed number of bytes, the lowest first, and `readLittleEndian` reads one; `slice?` is the part
of a file at an offset, if it is there.
-/

namespace Quire

/-- The bytes of a file. -/
abbrev Bytes := List UInt8

namespace Bytes

/-- The lowest `count` bytes of a number, the lowest first. -/
def littleEndian : (count : Nat) → Nat → Bytes
  | 0, _ => []
  | count + 1, n => UInt8.ofNat n :: littleEndian count (n / 256)

/-- The number whose bytes are given, the lowest first. -/
def readLittleEndian : Bytes → Nat
  | [] => 0
  | b :: bs => b.toNat + 256 * readLittleEndian bs

@[simp] theorem length_littleEndian (count n : Nat) : (littleEndian count n).length = count := by
  induction count generalizing n <;> simp [littleEndian, *]

theorem readLittleEndian_littleEndian {count n : Nat} (h : n < Nat.pow 256 count) :
    readLittleEndian (littleEndian count n) = n := by
  induction count generalizing n with
  | zero => simp [littleEndian, readLittleEndian, Nat.lt_one_iff.1 h]
  | succ count ih =>
    have hd : n / 256 < Nat.pow 256 count := Nat.div_lt_of_lt_mul (Nat.mul_comm .. ▸ h)
    simp only [littleEndian, readLittleEndian, UInt8.toNat_ofNat', ih hd]
    omega

/-- The `count` bytes at an offset. -/
def slice? (bs : Bytes) (offset count : Nat) : Option Bytes :=
  let part := (bs.drop offset).take count
  if part.length = count then some part else none

/-- The number in `count` bytes at an offset, the lowest byte first. -/
def number? (bs : Bytes) (offset count : Nat) : Option Nat :=
  (bs.slice? offset count).map readLittleEndian

end Bytes

end Quire
