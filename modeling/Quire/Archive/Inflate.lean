import Quire.Bytes

/-!
# Inflating

Compressed data is a stream of bits, the lowest of each byte first, and made of blocks: stored
bytes, or symbols of prefix codes that stand for a byte or for a copy of earlier output (RFC 1951).
`inflate` gives the output with the reason why it ended: the end of the data, a cut-off, or
something malformed. `inflateZlib` does the same with the header and the checksum of RFC 1950.
-/

namespace Quire.Inflate

/-- Why inflating ends. -/
inductive Ending
  /-- The last block is finished. -/
  | finished
  /-- The input ends before that. -/
  | cutOff
  /-- The input is no compressed data. -/
  | malformed
  deriving DecidableEq, Repr

/-- The bits of a byte, the lowest first. -/
def bitsOfByte (b : UInt8) : List Bool := (List.range 8).map b.toNat.testBit

/-- The bits of some bytes. -/
def bits (bs : Bytes) : List Bool := bs.flatMap bitsOfByte

/-- The number whose bits are given, the lowest first. -/
def ofBits : List Bool → Nat
  | [] => 0
  | b :: bs => b.toNat + 2 * ofBits bs

/-- Takes bits from a stream, and stops where there is nothing to take. -/
abbrev BitReader := StateT (List Bool) (Except Ending)

/-- The next bit. -/
def bit : BitReader Bool
  | b :: bs => .ok (b, bs)
  | [] => .error .cutOff

/-- The number in the next `count` bits, the lowest first. -/
def number (count : Nat) : BitReader Nat := fun bs =>
  let part := bs.take count
  if part.length = count then .ok (ofBits part, bs.drop count) else .error .cutOff

/-! ### Prefix codes -/

/-- A code as a tree: its symbols are at the leaves, and a bit says whether to go left or right. -/
inductive Code
  /-- No code word begins like this. -/
  | none
  | symbol (n : Nat)
  | branch (zero one : Code)
  deriving Repr

namespace Code

/-- Adds a code word, unless it is the start of another one or goes on from one. -/
def insert (n : Nat) : (word : List Bool) → Code → Option Code
  | [], none => some (symbol n)
  | [], _ => Option.none
  | _ :: _, symbol _ => Option.none
  | b :: word, none =>
    (insert n word none).map fun c => if b then branch none c else branch c none
  | b :: word, branch zero one =>
    if b then (insert n word one).map (branch zero) else (insert n word zero).map (branch · one)

/-- Whether every sequence of bits begins with a code word. -/
def isComplete : Code → Bool
  | none => false
  | symbol _ => true
  | branch zero one => zero.isComplete && one.isComplete

/-- The lowest `length` bits of a number, the highest first. -/
def word (length n : Nat) : List Bool := (List.range length).reverse.map n.testBit

/-- Adds the symbols of one length in order, the first with the word of `next`, and gives the
number of the word that comes after them. -/
def addLength (length : Nat) : (symbols : List Nat) → (next : Nat) → Code → Option (Code × Nat)
  | [], next, c => some (c, next)
  | n :: symbols, next, c =>
    (c.insert n (word length next)).bind (addLength length symbols (next + 1))

/-- Adds the symbols of the lengths from `length` on. -/
def addLengths (lengths : List Nat) : (count length next : Nat) → Code → Option Code
  | 0, _, _, c => some c
  | count + 1, length, next, c =>
    let symbols := (List.range lengths.length).filter fun n => lengths[n]? == some length
    if 2 ^ length < next + symbols.length then Option.none
    else
      (addLength length symbols next c).bind fun (c, next) =>
        addLengths lengths count (length + 1) (2 * next) c

/-- The code with word lengths as given for the symbols 0, 1, 2, …, where 0 means that a symbol is
not used. Words are in the order of their lengths and, at one length, of their symbols. The code
has to be complete unless it has at most one word. -/
def ofLengths? (lengths : List Nat) : Option Code :=
  (addLengths lengths 15 1 0 none).filter fun c =>
    c.isComplete || (lengths.filter (· != 0)).length ≤ 1

/-- The next symbol. -/
def read : Code → BitReader Nat
  | none => fun _ => .error .malformed
  | symbol n => pure n
  | branch zero one => do if ← bit then one.read else zero.read

end Code

/-! ### Blocks -/

/-- The least length or distance of each symbol, from the first one and the numbers of extra bits
of all: each symbol covers as many values as its extra bits have. -/
def bases (first : Nat) : List Nat → List Nat
  | [] => []
  | extra :: extras => first :: bases (first + 2 ^ extra) extras

/-- The extra bits of the symbols that stand for a length, from 257 on; the last one is the length
258 alone. -/
def lengthExtras : List Nat :=
  [0, 0, 0, 0, 0, 0, 0, 0, 1, 1, 1, 1, 2, 2, 2, 2, 3, 3, 3, 3, 4, 4, 4, 4, 5, 5, 5, 5]

/-- The extra bits of the symbols that stand for a distance. -/
def distanceExtras : List Nat :=
  [0, 0, 0, 0, 1, 1, 2, 2, 3, 3, 4, 4, 5, 5, 6, 6, 7, 7, 8, 8, 9, 9, 10, 10, 11, 11, 12, 12, 13, 13]

/-- The least length and the extra bits of each symbol from 257 on. -/
def lengthSymbols : List (Nat × Nat) := (bases 3 lengthExtras).zip lengthExtras ++ [(258, 0)]

/-- The least distance and the extra bits of each symbol. -/
def distanceSymbols : List (Nat × Nat) := (bases 1 distanceExtras).zip distanceExtras

/-- The value of a symbol with its extra bits. -/
def extended (symbols : List (Nat × Nat)) (n : Nat) : BitReader Nat :=
  match symbols[n]? with
  | some (base, extra) => do return base + (← number extra)
  | none => fun _ => .error .malformed

/-- What a code stands for: a byte, the end of the block, or a copy of earlier output. -/
inductive Token
  | byte (b : UInt8)
  | endOfBlock
  | copy (length distance : Nat)
  deriving DecidableEq, Repr

/-- The next token of a block. -/
def token (literals distances : Code) : BitReader Token := do
  let n ← literals.read
  if n < 256 then return .byte (UInt8.ofNat n)
  else if n = 256 then return .endOfBlock
  else
    let length ← extended lengthSymbols (n - 257)
    let distance ← extended distanceSymbols (← distances.read)
    return .copy length distance

/-- Output with `length` bytes more, each a copy of the one `distance` before it. -/
def copyBack (distance : Nat) : (length : Nat) → Array UInt8 → Array UInt8
  | 0, out => out
  | length + 1, out => copyBack distance length (out.push (out.getD (out.size - distance) 0))

/-- How far inflating has come: the output, and the rest of the stream or the reason to end. -/
structure Progress where
  out : Array UInt8
  rest : Except Ending (List Bool)

/-- The tokens of a block, at most `fuel` of them. -/
def tokens (literals distances : Code) : (fuel : Nat) → Array UInt8 → List Bool → Progress
  | 0, out, _ => ⟨out, .error .cutOff⟩
  | fuel + 1, out, bs =>
    match token literals distances bs with
    | .error e => ⟨out, .error e⟩
    | .ok (.byte b, bs) => tokens literals distances fuel (out.push b) bs
    | .ok (.endOfBlock, bs) => ⟨out, .ok bs⟩
    | .ok (.copy length distance, bs) =>
      if out.size < distance then ⟨out, .error .malformed⟩
      else tokens literals distances fuel (copyBack distance length out) bs

/-- A code by its word lengths, in a stream. -/
def codeOf (lengths : List Nat) : BitReader Code :=
  match Code.ofLengths? lengths with
  | some c => pure c
  | none => fun _ => .error .malformed

/-- The word lengths of the code for literals and lengths that needs no description. -/
def fixedLiterals : List Nat :=
  List.replicate 144 8 ++ List.replicate 112 9 ++ List.replicate 24 7 ++ List.replicate 8 8

/-- The order in which the word lengths of the code for word lengths are given. -/
def lengthOrder : List Nat := [16, 17, 18, 0, 8, 7, 9, 6, 10, 5, 11, 4, 12, 3, 13, 2, 14, 1, 15]

/-- Word lengths behind the reversed ones of `done`, at most `fuel` symbols, until there are
`count`: a symbol is a length, or repeats the last length or zero. -/
def wordLengths (code : Code) (count : Nat) :
    (fuel : Nat) → (done : List Nat) → BitReader (List Nat)
  | 0, _ => fun _ => .error .malformed
  | fuel + 1, done =>
    if done.length = count then return done.reverse
    else if count < done.length then fun _ => .error .malformed
    else do
      let n ← code.read
      if n < 16 then wordLengths code count fuel (n :: done)
      else if n = 16 then
        match done with
        | [] => fun _ => .error .malformed
        | last :: _ =>
          let times ← number 2
          wordLengths code count fuel (List.replicate (times + 3) last ++ done)
      else
        let times ← if n = 17 then (do return (← number 3) + 3) else (do return (← number 7) + 11)
        wordLengths code count fuel (List.replicate times 0 ++ done)

/-- The two codes that are described at the start of a block. -/
def describedCodes : BitReader (Code × Code) := do
  let literals := (← number 5) + 257
  let distances := (← number 5) + 1
  let described := (← number 4) + 4
  if 286 < literals || 30 < distances then fun _ => .error .malformed
  else
    let given ← (lengthOrder.take described).mapM fun n => do return (n, ← number 3)
    let code ← codeOf ((List.range 19).map fun n => (given.lookup n).getD 0)
    let lengths ← wordLengths code (literals + distances) (literals + distances + 1) []
    return (← codeOf (lengths.take literals), ← codeOf (lengths.drop literals))

/-- The bytes in a stream that begins at a byte. -/
def bytesOf (bs : List Bool) : List UInt8 :=
  if bs.length < 8 then []
  else UInt8.ofNat (ofBits (bs.take 8)) :: bytesOf (bs.drop 8)
termination_by bs.length
decreasing_by simp only [List.length_drop]; omega

/-- A block of bytes as they are, behind the bits up to the next byte. -/
def stored (out : Array UInt8) (bs : List Bool) : Progress :=
  let bs := bs.drop (bs.length % 8)
  match (do return (← number 16, ← number 16) : BitReader (Nat × Nat)) bs with
  | .error e => ⟨out, .error e⟩
  | .ok ((count, check), bs) =>
    if count + check != 0xFFFF then ⟨out, .error .malformed⟩
    else
      let part := bs.take (8 * count)
      let out := out ++ bytesOf part
      if part.length = 8 * count then ⟨out, .ok (bs.drop (8 * count))⟩ else ⟨out, .error .cutOff⟩

/-- A block whose codes are read at its start. -/
def coded (codes : BitReader (Code × Code)) (out : Array UInt8) (bs : List Bool) : Progress :=
  match codes bs with
  | .error e => ⟨out, .error e⟩
  | .ok ((literals, distances), bs) => tokens literals distances (bs.length + 1) out bs

/-- The block behind its first bit, which says whether it is the last. -/
def block (out : Array UInt8) (bs : List Bool) : Progress :=
  match number 2 bs with
  | .error e => ⟨out, .error e⟩
  | .ok (0, bs) => stored out bs
  | .ok (1, bs) =>
    coded (do return (← codeOf fixedLiterals, ← codeOf (List.replicate 32 5))) out bs
  | .ok (2, bs) => coded describedCodes out bs
  | .ok (_, _) => ⟨out, .error .malformed⟩

/-- At most `fuel` blocks. -/
def blocks : (fuel : Nat) → Array UInt8 → List Bool → Progress
  | 0, out, _ => ⟨out, .error .cutOff⟩
  | fuel + 1, out, bs =>
    match bit bs with
    | .error e => ⟨out, .error e⟩
    | .ok (last, bs) =>
      match block out bs with
      | ⟨out, .ok bs⟩ => if last then ⟨out, .ok bs⟩ else blocks fuel out bs
      | stop => stop

/-- The output of compressed data, and why it ends. -/
def inflate (bs : Bytes) : Bytes × Ending :=
  let stream := bits bs
  match blocks (stream.length + 1) #[] stream with
  | ⟨out, .ok _⟩ => (out.toList, .finished)
  | ⟨out, .error e⟩ => (out.toList, e)

/-! ### Data with a header and a checksum -/

/-- The checksum of 32 bits that follows compressed data. -/
def adler32 (bs : Bytes) : Nat :=
  let (a, b) := bs.foldl (fun (a, b) x =>
    let a := (a + x.toNat) % 65521
    (a, (b + a) % 65521)) (1, 0)
  b * 65536 + a

/-- The output of compressed data between a header of two bytes and a checksum of four, the highest
byte first, and why it ends. -/
def inflateZlib : Bytes → Bytes × Ending
  | method :: flags :: bs =>
    if (method.toNat * 256 + flags.toNat) % 31 != 0 || method.toNat % 16 != 8 ||
        7 < method.toNat / 16 || flags.toNat.testBit 5 then ([], .malformed)
    else
      let stream := bits bs
      match blocks (stream.length + 1) #[] stream with
      | ⟨out, .error e⟩ => (out.toList, e)
      | ⟨out, .ok rest⟩ =>
        let out := out.toList
        match (bytesOf (rest.drop (rest.length % 8))).take 4 with
        | [a, b, c, d] =>
          if Bytes.readLittleEndian [d, c, b, a] = adler32 out then (out, .finished)
          else (out, .malformed)
        | _ => (out, .cutOff)
  | _ => ([], .cutOff)

end Quire.Inflate
