import Mathlib.Data.List.Forall2
import Quire.Proofs.Encoding
import Quire.Proofs.Encoding.Utf8

/-!
# Byte offsets in a text

`Text.IsBoundary t n` says, of the bytes of a text, that the offset `n` is not inside the sequence
of a character. `Text.splitAt?` cuts a text at such an offset and fails at all others
(`Text.isSome_splitAt?_iff`), and so do `Text.truncate?` and `Text.slice?`. Pieces that follow each
other in a text have the ranges `Span.tile`, and each is read back from its range
(`Span.forall₂_tile`). A byte below `0x80` stands for its character wherever it occurs
(`Utf8.toUInt8_mem_encode_iff`), so bytes can be compared in place of ASCII characters.
-/

namespace Quire

/-- The bytes from the offset `start` up to but not including the offset `stop`. -/
structure Span where
  start : Nat
  stop : Nat
  deriving DecidableEq, Repr

namespace Utf8

variable {s : Bytes} {b : UInt8} {c d : Char}

/-! ### The bytes of a character -/

theorem IsSequence.exists_eq_cons (h : IsSequence s) :
    ∃ first rest, s = first :: rest ∧ ¬ IsContinuation first ∧ (∀ b ∈ rest, IsContinuation b) ∧
      (first.toNat < 0x80 → rest = []) := by
  cases h with
  | one first => exact ⟨_, [], rfl, fun h => by have := h.1; omega, by simp, fun _ => rfl⟩
  | two first second =>
    exact ⟨_, _, rfl, fun h => by have := h.2; omega, by simp [second], fun h => by omega⟩
  | three first second third =>
    exact ⟨_, _, rfl, fun h => by have := h.2; omega, by simp [second, third], fun h => by omega⟩
  | four first second third fourth =>
    exact ⟨_, _, rfl, fun h => by have := h.2; omega, by simp [second, third, fourth],
      fun h => by omega⟩

/-- A byte below `0x80` is no part of a longer sequence. -/
theorem IsSequence.eq_singleton_of_mem (h : IsSequence s) (hb : b ∈ s) (hlt : b.toNat < 0x80) :
    s = [b] := by
  obtain ⟨first, rest, rfl, -, hrest, hascii⟩ := h.exists_eq_cons
  rcases List.mem_cons.1 hb with rfl | hb
  · rw [hascii hlt]
  · exact absurd (hrest b hb).1 (Nat.not_le.2 hlt)

theorem encode_inj : String.utf8EncodeChar c = String.utf8EncodeChar d ↔ c = d := by
  refine ⟨fun h => ?_, congrArg _⟩
  have hbytes (c : Char) : Text.utf8 [c] = (String.utf8EncodeChar c).toByteArray := by
    rw [← Bytes.toByteArray_toList (Text.utf8 [c]), toList_utf8, List.flatMap_singleton]
  have happend : Text.utf8 [c] ++ ByteArray.empty = Text.utf8 [d] ++ ByteArray.empty := by
    rw [hbytes, hbytes, h]
  exact Encoding.eq_of_utf8_append happend

theorem encode_of_ascii (h : c.toNat < 0x80) : String.utf8EncodeChar c = [c.toUInt8] := by
  apply String.utf8EncodeChar_eq_singleton
  rw [Char.utf8Size_eq_one_iff, UInt32.le_iff_toNat_le]
  exact Nat.le_of_lt_succ h

theorem toNat_toUInt8_of_ascii (h : c.toNat < 0x80) : c.toUInt8.toNat = c.toNat := by
  have : c.toUInt8.toNat = c.toNat % 256 := UInt32.toNat_toUInt8 c.val
  omega

theorem toUInt8_mem_encode_iff (hc : c.toNat < 0x80) :
    c.toUInt8 ∈ String.utf8EncodeChar d ↔ d = c := by
  constructor
  · intro h
    have hd := (isSequence_encode d).eq_singleton_of_mem h (by rwa [toNat_toUInt8_of_ascii hc])
    rwa [← encode_of_ascii hc, encode_inj] at hd
  · rintro rfl
    rw [encode_of_ascii hc]
    exact List.mem_singleton_self _

end Utf8

namespace Text

variable {t a b p : Text} {c d : Char} {n : Nat} {s : Span}

/-! ### The bytes of a text -/

theorem getElem?_utf8 (t : Text) (n : Nat) :
    (utf8 t)[n]? = (t.flatMap String.utf8EncodeChar)[n]? := by
  rw [← Utf8.toList_utf8, Array.getElem?_toList]
  rfl

theorem length_flatMap_encode (t : Text) :
    (t.flatMap String.utf8EncodeChar).length = utf8Length t := by
  rw [← Utf8.toList_utf8, ← size_utf8]
  rfl

theorem getElem?_utf8_append (a b : Text) (n : Nat) :
    (utf8 (a ++ b))[utf8Length a + n]? = (utf8 b)[n]? := by
  rw [getElem?_utf8, getElem?_utf8, List.flatMap_append, ← length_flatMap_encode,
    List.getElem?_append_right (Nat.le_add_right _ _), Nat.add_sub_cancel_left]

/-- The byte at which an ASCII character begins is that character. -/
theorem getElem?_utf8_append_eq_iff (hc : c.toNat < 0x80) (a t : Text) :
    (utf8 (a ++ t))[utf8Length a]? = some c.toUInt8 ↔ c ∈ t.head? := by
  have hbyte := getElem?_utf8_append a t 0
  rw [Nat.add_zero] at hbyte
  rw [hbyte, getElem?_utf8]
  cases t with
  | nil => simp
  | cons d t =>
    obtain ⟨first, rest, he, -⟩ := (Utf8.isSequence_encode d).exists_eq_cons
    have hfirst : ((d :: t).flatMap String.utf8EncodeChar)[0]? = some first := by
      rw [List.flatMap_cons, he]
      rfl
    rw [hfirst, Option.some_inj, List.head?_cons, Option.mem_some_iff]
    constructor
    · rintro rfl
      apply (Utf8.toUInt8_mem_encode_iff hc).1
      rw [he]
      exact List.mem_cons_self
    · rintro rfl
      rw [Utf8.encode_of_ascii hc, List.cons.injEq] at he
      exact he.1.symm

/-- The byte at which a character ends is that of an ASCII character only if that is the character. -/
theorem exists_last_byte (hc : c.toNat < 0x80) (a t : Text) (d : Char) :
    ∃ x, (utf8 (a ++ [d] ++ t))[utf8Length (a ++ [d]) - 1]? = some x ∧ (x = c.toUInt8 ↔ d = c) := by
  have hne : String.utf8EncodeChar d ≠ [] := by
    obtain ⟨first, rest, he, -⟩ := (Utf8.isSequence_encode d).exists_eq_cons
    exact he ▸ List.cons_ne_nil first rest
  refine ⟨(String.utf8EncodeChar d).getLast hne, ?_, ?_⟩
  · have hd := d.utf8Size_pos
    have hplace : utf8Length (a ++ [d]) - 1 = utf8Length a + (d.utf8Size - 1) := by
      rw [utf8Length_append, utf8Length_cons, utf8Length_nil]
      omega
    rw [List.append_assoc, hplace, getElem?_utf8_append, getElem?_utf8, List.flatMap_append,
      List.flatMap_singleton, ← String.length_utf8EncodeChar,
      List.getElem?_append_left (Nat.sub_one_lt (mt List.length_eq_zero_iff.1 hne)),
      ← List.getLast?_eq_getElem?, List.getLast?_eq_some_getLast hne]
  · constructor
    · intro hx
      exact (Utf8.toUInt8_mem_encode_iff hc).1 (hx ▸ List.getLast_mem hne)
    · rintro rfl
      simp only [Utf8.encode_of_ascii hc, List.getLast_singleton]

theorem getElem?_utf8_size_le (h : utf8Length t ≤ n) : (utf8 t)[n]? = none := by
  rw [getElem?_utf8, List.getElem?_eq_none_iff, length_flatMap_encode]
  exact h

theorem extract_utf8 (a p b : Text) :
    (utf8 (a ++ p ++ b)).extract (utf8Length a) (utf8Length a + utf8Length p) = utf8 p := by
  rw [utf8_append, utf8_append, ← size_utf8, ← size_utf8, ByteArray.extract_append,
    ByteArray.extract_append_eq_right rfl rfl, ByteArray.size_append]
  simp

/-! ### Boundaries -/

/-- The offset is the end of the text, or the byte there begins the sequence of a character. -/
def IsBoundary (t : Text) (n : Nat) : Prop :=
  n = utf8Length t ∨ ∃ b, (utf8 t)[n]? = some b ∧ ¬ Utf8.IsContinuation b

/-- The text before an offset and the text from there on, unless the offset is inside a character
or beyond the end. -/
def splitAt? : Text → Nat → Option (Text × Text)
  | t, 0 => some ([], t)
  | [], _ + 1 => none
  | c :: t, n + 1 =>
    if c.utf8Size ≤ n + 1 then
      (splitAt? t (n + 1 - c.utf8Size)).map fun (a, b) => (c :: a, b)
    else none

/-- The text before an offset. -/
def truncate? (t : Text) (n : Nat) : Option Text := (splitAt? t n).map Prod.fst

/-- The text in a range. -/
def slice? (t : Text) (s : Span) : Option Text :=
  (truncate? t s.stop).bind fun before => (splitAt? before s.start).map Prod.snd

theorem isBoundary_zero (t : Text) : IsBoundary t 0 := by
  cases t with
  | nil => exact Or.inl rfl
  | cons c t =>
    obtain ⟨first, rest, he, hfirst, -⟩ := (Utf8.isSequence_encode c).exists_eq_cons
    refine Or.inr ⟨first, ?_, hfirst⟩
    rw [getElem?_utf8, List.flatMap_cons, he]
    rfl

/-- After the first byte of a character, the next boundary is at its end. -/
theorem isBoundary_cons_iff (hn : 0 < n) :
    IsBoundary (c :: t) n ↔ c.utf8Size ≤ n ∧ IsBoundary t (n - c.utf8Size) := by
  by_cases hc : c.utf8Size ≤ n
  · obtain ⟨m, rfl⟩ := Nat.exists_eq_add_of_le hc
    have hbyte := getElem?_utf8_append [c] t m
    rw [utf8Length_cons, utf8Length_nil, Nat.add_zero, List.singleton_append] at hbyte
    simp only [IsBoundary, hbyte, utf8Length_cons, Nat.add_sub_cancel_left, Nat.add_left_cancel_iff,
      hc, true_and]
  · refine iff_of_false ?_ fun h => hc h.1
    rintro (h | ⟨b, hb, hfirst⟩)
    · rw [utf8Length_cons] at h
      omega
    · obtain ⟨first, rest, he, -, hrest, -⟩ := (Utf8.isSequence_encode c).exists_eq_cons
      have hlen : n < (String.utf8EncodeChar c).length := by
        rw [String.length_utf8EncodeChar]
        omega
      rw [getElem?_utf8, List.flatMap_cons, List.getElem?_append_left hlen, he,
        List.getElem?_cons, if_neg (Nat.pos_iff_ne_zero.1 hn)] at hb
      exact hfirst (hrest b (List.mem_of_getElem? hb))

theorem isSome_splitAt?_iff : (splitAt? t n).isSome ↔ IsBoundary t n := by
  fun_induction splitAt? t n with
  | case1 t => exact iff_of_true rfl (isBoundary_zero t)
  | case2 n =>
    refine iff_of_false Bool.false_ne_true ?_
    rintro (h | ⟨b, hb, -⟩)
    · exact absurd h (Nat.succ_ne_zero n)
    · rw [getElem?_utf8_size_le (Nat.zero_le _)] at hb
      exact absurd hb (by simp)
  | case3 c t n hc ih => rw [Option.isSome_map, ih, isBoundary_cons_iff n.succ_pos, and_iff_right hc]
  | case4 c t n hc =>
    rw [isBoundary_cons_iff n.succ_pos]
    exact iff_of_false Bool.false_ne_true fun h => hc h.1

theorem splitAt?_append (a b : Text) : splitAt? (a ++ b) (utf8Length a) = some (a, b) := by
  induction a with
  | nil => rw [List.nil_append, utf8Length_nil, splitAt?]
  | cons c a ih =>
    have hpos : 0 < c.utf8Size + utf8Length a := Nat.add_pos_left c.utf8Size_pos _
    obtain ⟨m, hm⟩ := Nat.exists_eq_add_one.2 hpos
    rw [utf8Length_cons, hm, List.cons_append, splitAt?, ← hm, if_pos (Nat.le_add_right _ _),
      Nat.add_sub_cancel_left, ih]
    rfl

theorem isBoundary_append (a b : Text) : IsBoundary (a ++ b) (utf8Length a) := by
  rw [← isSome_splitAt?_iff, splitAt?_append]
  rfl

theorem truncate?_append (a b : Text) : truncate? (a ++ b) (utf8Length a) = some a := by
  rw [truncate?, splitAt?_append]
  rfl

theorem slice?_append (a p b : Text) :
    slice? (a ++ p ++ b) ⟨utf8Length a, utf8Length (a ++ p)⟩ = some p := by
  rw [slice?, truncate?_append, Option.bind_some, splitAt?_append]
  rfl

end Text

/-! ### Ranges -/

namespace Span

variable {s : Span} {t p : Text}

/-- The range is one of the text, its ends are boundaries, and its bytes are decoded as `part`. -/
structure Holds (s : Span) (t part : Text) : Prop where
  start : Text.IsBoundary t s.start
  stop : Text.IsBoundary t s.stop
  le : s.start ≤ s.stop
  decoded : Encoding.decodeUtf8? ((Text.utf8 t).extract s.start s.stop) = some part

/-- The ranges of pieces that follow each other, the first of which begins at an offset. -/
def tile (start : Nat) : List Text → List Span
  | [] => []
  | p :: ps =>
    let stop := start + Text.utf8Length p
    ⟨start, stop⟩ :: tile stop ps

theorem holds_append (a p b : Text) :
    Holds ⟨Text.utf8Length a, Text.utf8Length a + Text.utf8Length p⟩ (a ++ p ++ b) p where
  start := by
    rw [List.append_assoc]
    exact Text.isBoundary_append a (p ++ b)
  stop := by
    rw [← Text.utf8Length_append]
    exact Text.isBoundary_append (a ++ p) b
  le := Nat.le_add_right _ _
  decoded := by rw [Text.extract_utf8, Encoding.decodeUtf8?_utf8]

theorem forall₂_tile (a : Text) (ps : List Text) :
    List.Forall₂ (fun s p => s.Holds (a ++ ps.flatten) p) (tile (Text.utf8Length a) ps) ps := by
  induction ps generalizing a with
  | nil => exact .nil
  | cons p ps ih =>
    rw [tile, List.flatten_cons, ← List.append_assoc, ← Text.utf8Length_append]
    refine .cons ?_ (ih (a ++ p))
    rw [Text.utf8Length_append]
    exact holds_append a p ps.flatten

end Span

end Quire
