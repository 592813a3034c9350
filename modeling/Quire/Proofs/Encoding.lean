import Mathlib.Data.List.Basic
import Quire.Encoding

/-!
# Texts and their bytes

The bytes of a text in UTF-8 are decoded as that text, whether a byte order mark stands before them
or not; only a text that itself begins with that character loses it (`decode?_utf8_append`,
`decode?_utf8`). Of the encodings only UTF-8 refuses bytes: those that are not well-formed once a
byte order mark has been dropped. So a chain refuses them exactly if it has no other encoding
(`decodeFirst?_eq_none_iff`).
-/

namespace Quire

theorem Bytes.toByteArray_toList (b : ByteArray) : b.data.toList.toByteArray = b := by
  apply ByteArray.ext
  apply Array.ext'
  simp

namespace Encoding

variable {bytes : ByteArray} {chain : List Encoding} {e : Encoding} {t : Text}

/-! ### Texts that are decoded -/

theorem decodeUtf8?_utf8 (t : Text) : decodeUtf8? (Text.utf8 t) = some t := by
  simp only [decodeUtf8?, Text.utf8, String.fromUTF8?, String.toUTF8_eq_toByteArray,
    dif_pos (String.ofList t).isValidUTF8]
  exact congrArg some String.toList_ofList

/-- The first character is read off the bytes, whatever follows. -/
theorem eq_of_utf8_append {c d : Char} {bs bs' : ByteArray}
    (h : Text.utf8 [c] ++ bs = Text.utf8 [d] ++ bs') : c = d := by
  have hread : ∀ (e : Char) (b : ByteArray), (Text.utf8 [e] ++ b).utf8DecodeChar? 0 = some e := by
    intro e b
    rw [Text.utf8, String.toUTF8_eq_toByteArray, String.toByteArray_ofList,
      List.utf8DecodeChar?_utf8Encode_singleton_append]
  have hc := hread c bs
  rw [h, hread d bs', Option.some_inj] at hc
  exact hc.symm

theorem dropByteOrderMark_append (bytes : ByteArray) :
    dropByteOrderMark (⟨#[0xEF, 0xBB, 0xBF]⟩ ++ bytes) = bytes := by
  unfold dropByteOrderMark
  rw [ByteArray.toList_data_append]
  exact Bytes.toByteArray_toList bytes

/-- A byte order mark is the character U+FEFF, so no other text begins with one. -/
theorem dropByteOrderMark_utf8 (h : t.head? ≠ some '\uFEFF') :
    dropByteOrderMark (Text.utf8 t) = Text.utf8 t := by
  unfold dropByteOrderMark
  split
  · next rest hrest =>
    have hmark : Text.utf8 t = Text.utf8 ['\uFEFF'] ++ rest.toByteArray := by
      rw [← Bytes.toByteArray_toList (Text.utf8 t), hrest]
      exact List.toByteArray_append (l := [0xEF, 0xBB, 0xBF])
    cases t with
    | nil => cases hrest
    | cons c t =>
      rw [← List.singleton_append, Text.utf8_append] at hmark
      exact absurd (congrArg some (eq_of_utf8_append hmark)) h
  · rfl

theorem decode?_utf8_append (t : Text) :
    utf8.decode? (⟨#[0xEF, 0xBB, 0xBF]⟩ ++ Text.utf8 t) = some t := by
  rw [decode?, dropByteOrderMark_append, decodeUtf8?_utf8]

theorem decode?_utf8 (h : t.head? ≠ some '\uFEFF') : utf8.decode? (Text.utf8 t) = some t := by
  rw [decode?, dropByteOrderMark_utf8 h, decodeUtf8?_utf8]

theorem decodeFirst?_of_head? (hc : chain.head? = some e) (ht : e.decode? bytes = some t) :
    decodeFirst? chain bytes = some (t, e) := by
  obtain ⟨chain, rfl⟩ := List.head?_eq_some_iff.1 hc
  rw [decodeFirst?, List.findSome?_cons, ht]
  rfl

/-! ### Bytes that are refused -/

theorem decodeUtf8?_eq_none_iff : decodeUtf8? bytes = none ↔ ¬ bytes.IsValidUTF8 := by
  unfold decodeUtf8? String.fromUTF8?
  rw [Option.map_eq_none_iff]
  split
  · next h => exact iff_of_false (Option.some_ne_none _) fun hn => hn h
  · next h => exact iff_of_true rfl h

theorem decode?_eq_none_iff :
    e.decode? bytes = none ↔ e = .utf8 ∧ ¬ (dropByteOrderMark bytes).IsValidUTF8 := by
  cases e with
  | utf8 => exact decodeUtf8?_eq_none_iff.trans ⟨fun h => ⟨rfl, h⟩, And.right⟩
  | latin1 => exact iff_of_false (Option.some_ne_none _) fun h => absurd h.1 (by decide)
  | windows1252 => exact iff_of_false (Option.some_ne_none _) fun h => absurd h.1 (by decide)

theorem decodeFirst?_eq_none_iff_forall :
    decodeFirst? chain bytes = none ↔ ∀ e ∈ chain, e.decode? bytes = none := by
  rw [decodeFirst?, List.findSome?_eq_none_iff]
  simp only [Option.map_eq_none_iff]

theorem decodeFirst?_eq_none_iff (h : chain ≠ []) : decodeFirst? chain bytes = none ↔
    (∀ e ∈ chain, e = .utf8) ∧ ¬ (dropByteOrderMark bytes).IsValidUTF8 := by
  simp only [decodeFirst?_eq_none_iff_forall, decode?_eq_none_iff]
  obtain ⟨e, he⟩ := List.exists_mem_of_ne_nil chain h
  exact ⟨fun hc => ⟨fun e he => (hc e he).1, (hc e he).2⟩, fun hc e he => ⟨hc.1 e he, hc.2⟩⟩

end Encoding

end Quire
