import Quire.Bytes
import Quire.Text.Basic

/-!
# Well-formed UTF-8

`Utf8.IsSequence` lists the byte sequences that stand for one character, by their length and the
range of their bytes, and bytes are `Utf8.IsWellFormed` if they are such sequences in a row. These
are exactly the bytes of texts (`Utf8.isWellFormed_iff`): every sequence is that of a character
(`Utf8.exists_eq_of_isSequence`), and the sequence of every character is one
(`Utf8.isSequence_encode`).
-/

namespace Quire.Utf8

/-- A byte that may stand after the first one of a sequence. -/
def IsContinuation (b : UInt8) : Prop := 0x80 ≤ b.toNat ∧ b.toNat ≤ 0xBF

/-- The byte sequences of single characters. -/
inductive IsSequence : Bytes → Prop
  | one {a : UInt8} (first : a.toNat ≤ 0x7F) : IsSequence [a]
  /-- `0xC0` and `0xC1` would be other forms of a single byte. -/
  | two {a b : UInt8} (first : 0xC2 ≤ a.toNat ∧ a.toNat ≤ 0xDF) (second : IsContinuation b) :
    IsSequence [a, b]
  /-- Neither another form of two bytes nor a surrogate. -/
  | three {a b c : UInt8} (first : 0xE0 ≤ a.toNat ∧ a.toNat ≤ 0xEF) (second : IsContinuation b)
    (third : IsContinuation c) (long : a.toNat = 0xE0 → 0xA0 ≤ b.toNat)
    (scalar : a.toNat = 0xED → b.toNat ≤ 0x9F) : IsSequence [a, b, c]
  /-- Neither another form of three bytes nor beyond U+10FFFF. -/
  | four {a b c d : UInt8} (first : 0xF0 ≤ a.toNat ∧ a.toNat ≤ 0xF4) (second : IsContinuation b)
    (third : IsContinuation c) (fourth : IsContinuation d)
    (long : a.toNat = 0xF0 → 0x90 ≤ b.toNat) (scalar : a.toNat = 0xF4 → b.toNat ≤ 0x8F) :
    IsSequence [a, b, c, d]

/-- The bytes are sequences of characters in a row, the last of them complete. -/
def IsWellFormed (bs : Bytes) : Prop := ∃ ss : List Bytes, ss.flatten = bs ∧ ∀ s ∈ ss, IsSequence s

variable {s : Bytes} {n : Nat} {a : UInt8}

/-! ### Characters and sequences -/

theorem ofNat_eq_of_eq_toNat (h : n = a.toNat) : UInt8.ofNat n = a := h ▸ UInt8.ofNat_toNat

theorem isSequence_encode (c : Char) : IsSequence (String.utf8EncodeChar c) := by
  have hvalid : c.val.toNat.isValidChar := c.valid
  unfold String.utf8EncodeChar
  dsimp only
  generalize c.val.toNat = v at hvalid
  unfold Nat.isValidChar at hvalid
  have hnat (n : Nat) : (UInt8.ofNat n).toNat = n % 256 := UInt8.toNat_ofNat'
  split
  · exact .one (by rw [hnat]; omega)
  split
  · refine .two ?_ ?_ <;> simp only [IsContinuation, hnat] <;> omega
  split
  · refine .three ?_ ?_ ?_ ?_ ?_ <;> simp only [IsContinuation, hnat] <;> omega
  · refine .four ?_ ?_ ?_ ?_ ?_ ?_ <;> simp only [IsContinuation, hnat] <;> omega

/-- The character with the code point that the bytes of a sequence make up. -/
theorem exists_eq_of_isSequence (h : IsSequence s) : ∃ c, String.utf8EncodeChar c = s := by
  have hval (n : Nat) (hn : n.isValidChar) : (Char.ofNat n).val.toNat = n := by
    rw [Char.ofNat, dif_pos hn]
    rfl
  unfold Nat.isValidChar at hval
  cases h with
  | @one a first =>
    refine ⟨Char.ofNat a.toNat, ?_⟩
    unfold String.utf8EncodeChar
    rw [hval _ (by omega)]
    dsimp only
    rw [if_pos (by omega), ofNat_eq_of_eq_toNat rfl]
  | @two a b first second =>
    obtain ⟨hb, hb'⟩ := second
    refine ⟨Char.ofNat ((a.toNat - 0xC0) * 64 + (b.toNat - 0x80)), ?_⟩
    unfold String.utf8EncodeChar
    rw [hval _ (by omega)]
    dsimp only
    rw [if_neg (by omega), if_pos (by omega), ofNat_eq_of_eq_toNat (a := a) (by omega),
      ofNat_eq_of_eq_toNat (a := b) (by omega)]
  | @three a b c first second third long scalar =>
    obtain ⟨hb, hb'⟩ := second
    obtain ⟨hc, hc'⟩ := third
    refine ⟨Char.ofNat
      ((a.toNat - 0xE0) * 4096 + (b.toNat - 0x80) * 64 + (c.toNat - 0x80)), ?_⟩
    unfold String.utf8EncodeChar
    rw [hval _ (by omega)]
    dsimp only
    rw [if_neg (by omega), if_neg (by omega), if_pos (by omega),
      ofNat_eq_of_eq_toNat (a := a) (by omega), ofNat_eq_of_eq_toNat (a := b) (by omega),
      ofNat_eq_of_eq_toNat (a := c) (by omega)]
  | @four a b c d first second third fourth long scalar =>
    obtain ⟨hb, hb'⟩ := second
    obtain ⟨hc, hc'⟩ := third
    obtain ⟨hd, hd'⟩ := fourth
    refine ⟨Char.ofNat ((a.toNat - 0xF0) * 262144 + (b.toNat - 0x80) * 4096 +
      (c.toNat - 0x80) * 64 + (d.toNat - 0x80)), ?_⟩
    unfold String.utf8EncodeChar
    rw [hval _ (by omega)]
    dsimp only
    rw [if_neg (by omega), if_neg (by omega), if_neg (by omega),
      ofNat_eq_of_eq_toNat (a := a) (by omega), ofNat_eq_of_eq_toNat (a := b) (by omega),
      ofNat_eq_of_eq_toNat (a := c) (by omega), ofNat_eq_of_eq_toNat (a := d) (by omega)]

/-! ### Texts and well-formed bytes -/

theorem toList_utf8 (t : Text) : (Text.utf8 t).data.toList = t.flatMap String.utf8EncodeChar := by
  rw [Text.utf8, String.toUTF8_eq_toByteArray, String.toByteArray_ofList, List.utf8Encode,
    List.toList_data_toByteArray]

theorem exists_flatMap_eq {ss : List Bytes} (h : ∀ s ∈ ss, IsSequence s) :
    ∃ t : Text, t.flatMap String.utf8EncodeChar = ss.flatten := by
  induction ss with
  | nil => exact ⟨[], rfl⟩
  | cons s ss ih =>
    obtain ⟨hs, hss⟩ := List.forall_mem_cons.1 h
    obtain ⟨c, rfl⟩ := exists_eq_of_isSequence hs
    obtain ⟨t, ht⟩ := ih hss
    exact ⟨c :: t, by rw [List.flatMap_cons, ht, List.flatten_cons]⟩

/-- The well-formed bytes are those of texts. -/
theorem isWellFormed_iff {bytes : ByteArray} :
    IsWellFormed bytes.data.toList ↔ ∃ t, Text.utf8 t = bytes := by
  constructor
  · rintro ⟨ss, hss, h⟩
    obtain ⟨t, ht⟩ := exists_flatMap_eq h
    rw [hss, ← toList_utf8] at ht
    exact ⟨t, ByteArray.ext (Array.ext' ht)⟩
  · rintro ⟨t, rfl⟩
    refine ⟨t.map String.utf8EncodeChar, (toList_utf8 t).symm, ?_⟩
    rw [List.forall_mem_map]
    exact fun c _ => isSequence_encode c

end Quire.Utf8
