import Quire.Extraction
import Quire.Proofs.Encoding
import Quire.Proofs.Encoding.Utf8

/-!
# Decoding loses nothing

The text of bytes in an encoding is encoded as these bytes again, but for a byte order mark
(`encode?_of_decode?`): in UTF-8 because a text is decoded exactly from its own bytes, with or without
the mark (`decode?_utf8_eq_some_iff`), in the other encodings because every byte has a character of
its own (`toUInt8_ofUInt8`, `windows1252Byte?_windows1252Char`). A chain gives the text in the first
of its encodings that accepts the bytes (`decodeFirst?_eq_some_iff`).
-/

namespace Quire

theorem Extraction.ofPlainText_eq_error_iff {chain : List Encoding} {bytes : ByteArray}
    {fault : Fault} : ofPlainText chain bytes = .error fault ↔
      fault = .unsupportedEncoding (chain.map Encoding.label) ∧
        Encoding.decodeFirst? chain bytes = none := by
  rw [ofPlainText]
  cases Encoding.decodeFirst? chain bytes <;> simp [eq_comm]

namespace Encoding

variable {bytes bytes' rest : ByteArray} {chain : List Encoding} {e : Encoding}
  {t : Text}

/-- The bytes that some programs write before a text in UTF-8. -/
def byteOrderMark : ByteArray := ⟨#[0xEF, 0xBB, 0xBF]⟩

/-! ### UTF-8 -/

theorem decodeUtf8?_eq_some_iff : decodeUtf8? bytes = some t ↔ bytes = Text.utf8 t := by
  constructor
  · intro h
    obtain ⟨s, hs, rfl⟩ := Option.map_eq_some_iff.1 h
    unfold String.fromUTF8? at hs
    split at hs
    · rw [Text.utf8, String.ofList_toList, ← Option.some.inj hs]
      rfl
    · exact absurd hs.symm (Option.some_ne_none _)
  · rintro rfl
    exact decodeUtf8?_utf8 t

/-- A byte order mark is dropped, and bytes without one stay as they are. -/
theorem dropByteOrderMark_cases (bytes : ByteArray) :
    (∃ rest, bytes = byteOrderMark ++ rest ∧ dropByteOrderMark bytes = rest) ∨
      ¬ byteOrderMark.data.toList <+: bytes.data.toList ∧ dropByteOrderMark bytes = bytes := by
  by_cases h : byteOrderMark.data.toList <+: bytes.data.toList
  · obtain ⟨bs, hbs⟩ := h
    have hb : bytes = byteOrderMark ++ bs.toByteArray := by
      rw [← Bytes.toByteArray_toList bytes, ← hbs, List.toByteArray_append,
        Bytes.toByteArray_toList]
    exact Or.inl ⟨bs.toByteArray, hb, hb ▸ dropByteOrderMark_append bs.toByteArray⟩
  · refine Or.inr ⟨h, ?_⟩
    unfold dropByteOrderMark
    split
    · next rest hrest => exact absurd ⟨rest, hrest.symm⟩ h
    · rfl

theorem byteOrderMark_isPrefix_append (rest : ByteArray) :
    byteOrderMark.data.toList <+: (byteOrderMark ++ rest).data.toList := by
  rw [ByteArray.toList_data_append]
  exact List.prefix_append _ _

theorem dropByteOrderMark_eq_iff : dropByteOrderMark bytes = rest ↔
    bytes = byteOrderMark ++ rest ∨
      ¬ byteOrderMark.data.toList <+: bytes.data.toList ∧ bytes = rest := by
  rcases dropByteOrderMark_cases bytes with ⟨r, rfl, hr⟩ | ⟨hno, hb⟩
  · rw [hr]
    constructor
    · rintro rfl
      exact Or.inl rfl
    · rintro (h | ⟨h, -⟩)
      · rw [← hr, h]
        exact dropByteOrderMark_append rest
      · exact absurd (byteOrderMark_isPrefix_append r) h
  · rw [hb]
    constructor
    · exact fun h => Or.inr ⟨hno, h⟩
    · rintro (rfl | ⟨-, h⟩)
      · exact absurd (byteOrderMark_isPrefix_append rest) hno
      · exact h

theorem decode?_utf8_eq_some_iff :
    utf8.decode? bytes = some t ↔ dropByteOrderMark bytes = Text.utf8 t :=
  decodeUtf8?_eq_some_iff

/-! ### Encodings with a character for every byte -/

theorem toUInt8_ofUInt8 (b : UInt8) : (Char.ofUInt8 b).toUInt8 = b := UInt8.toUInt8_toUInt32 b

theorem windows1252Byte?_windows1252Char (b : UInt8) :
    windows1252Byte? (windows1252Char b) = some b := by
  have h : ∀ n < 256, windows1252Byte? (windows1252Char (UInt8.ofNat n)) = some (UInt8.ofNat n) := by
    decide +kernel
  have hb := h b.toNat b.toNat_lt
  rwa [UInt8.ofNat_toNat] at hb

theorem mapM_map_eq_some {α β : Type} {f : α → β} {g : β → Option α} (h : ∀ a, g (f a) = some a)
    (as : List α) : (as.map f).mapM g = some as := by
  induction as with
  | nil => rfl
  | cons a as ih =>
    rw [List.map_cons, List.mapM_cons, h, ih]
    rfl

/-! ### Encoding what has been decoded -/

theorem encode?_of_decode? (h : e.decode? bytes = some t) :
    e.encode? t = some (if e = utf8 then dropByteOrderMark bytes else bytes) := by
  cases e with
  | utf8 => rw [encode?, if_pos rfl, decode?_utf8_eq_some_iff.1 h]
  | latin1 =>
    obtain rfl := Option.some.inj h
    have hsmall : (bytes.data.toList.map Char.ofUInt8).all fun c => c.toNat < 0x100 := by
      simp only [List.all_map, List.all_eq_true, Function.comp_apply, decide_eq_true_eq]
      exact fun b _ => b.toNat_lt
    have hid : Char.toUInt8 ∘ Char.ofUInt8 = id := funext toUInt8_ofUInt8
    rw [encode?, if_pos hsmall, List.map_map, hid, List.map_id, Bytes.toByteArray_toList,
      if_neg (by decide)]
  | windows1252 =>
    obtain rfl := Option.some.inj h
    rw [encode?, mapM_map_eq_some windows1252Byte?_windows1252Char, Option.map_some,
      Bytes.toByteArray_toList, if_neg (by decide)]

/-- In one encoding, the bytes of a text are fixed up to a byte order mark. -/
theorem eq_or_of_decode?_eq (h : e.decode? bytes = some t) (h' : e.decode? bytes' = some t) :
    bytes = bytes' ∨
      e = utf8 ∧ (bytes = byteOrderMark ++ bytes' ∨ bytes' = byteOrderMark ++ bytes) := by
  have he := (encode?_of_decode? h).symm.trans (encode?_of_decode? h')
  rw [Option.some_inj] at he
  by_cases hutf8 : e = utf8
  · rw [if_pos hutf8, if_pos hutf8] at he
    rcases dropByteOrderMark_cases bytes with ⟨rest, rfl, hd⟩ | ⟨-, hd⟩ <;>
      rcases dropByteOrderMark_cases bytes' with ⟨rest', rfl, hd'⟩ | ⟨-, hd'⟩ <;>
      rw [hd, hd'] at he
    · exact Or.inl (by rw [he])
    · exact Or.inr ⟨hutf8, Or.inl (by rw [he])⟩
    · exact Or.inr ⟨hutf8, Or.inr (by rw [he])⟩
    · exact Or.inl he
  · rw [if_neg hutf8, if_neg hutf8] at he
    exact Or.inl he

/-! ### Chains -/

/-- The text comes from the first encoding of the chain that accepts the bytes. -/
theorem decodeFirst?_eq_some_iff : decodeFirst? chain bytes = some (t, e) ↔
    ∃ before after, chain = before ++ e :: after ∧ (∀ d ∈ before, d.decode? bytes = none) ∧
      e.decode? bytes = some t := by
  rw [decodeFirst?, List.findSome?_eq_some_iff]
  simp only [Option.map_eq_none_iff, Option.map_eq_some_iff, Prod.mk.injEq]
  constructor
  · rintro ⟨before, d, after, rfl, ⟨u, hu, rfl, rfl⟩, hb⟩
    exact ⟨before, after, rfl, hb, hu⟩
  · rintro ⟨before, after, rfl, hb, hu⟩
    exact ⟨before, e, after, rfl, ⟨t, hu, rfl, rfl⟩, hb⟩

/-- A chain gives the text in the first of its encodings that accepts the bytes, and if none does,
the fault lists the labels of all. Latin-1 and Windows-1252 accept everything, UTF-8 the bytes of a
text, which are the well-formed ones, after at most one byte order mark. Encoding the text again
gives the bytes without that mark, so in one encoding two inputs with the same text differ at most
by a mark. -/
theorem decodeFirst?_lossless (chain : List Encoding) (e : Encoding) (bytes bytes' : ByteArray)
    (t : Text) :
    (decodeFirst? chain bytes = some (t, e) ↔ ∃ before after,
      chain = before ++ e :: after ∧ (∀ d ∈ before, d.decode? bytes = none) ∧
        e.decode? bytes = some t) ∧
    ((∃ u, latin1.decode? bytes = some u) ∧ ∃ u, windows1252.decode? bytes = some u) ∧
    (utf8.decode? bytes = some t ↔ dropByteOrderMark bytes = Text.utf8 t) ∧
    (∀ rest, dropByteOrderMark bytes = rest ↔ bytes = byteOrderMark ++ rest ∨
      ¬ byteOrderMark.data.toList <+: bytes.data.toList ∧ bytes = rest) ∧
    ((∃ u, Text.utf8 u = bytes) ↔ Utf8.IsWellFormed bytes.data.toList) ∧
    (e.decode? bytes = some t →
      e.encode? t = some (if e = utf8 then dropByteOrderMark bytes else bytes)) ∧
    (e.decode? bytes = some t → e.decode? bytes' = some t → bytes = bytes' ∨
      e = utf8 ∧ (bytes = byteOrderMark ++ bytes' ∨ bytes' = byteOrderMark ++ bytes)) ∧
    ∀ f, Extraction.ofPlainText chain bytes = .error f ↔
      (∀ d ∈ chain, d.decode? bytes = none) ∧ f = .unsupportedEncoding (chain.map label) := by
  refine ⟨decodeFirst?_eq_some_iff, ⟨⟨_, rfl⟩, _, rfl⟩, decode?_utf8_eq_some_iff,
    fun _ => dropByteOrderMark_eq_iff, Utf8.isWellFormed_iff.symm, encode?_of_decode?,
    eq_or_of_decode?_eq, fun f => ?_⟩
  rw [Extraction.ofPlainText_eq_error_iff, decodeFirst?_eq_none_iff_forall, and_comm]

/-- The same text with a byte order mark and without. -/
theorem decodeFirst?_lossless_marked :
    let bytes := byteOrderMark ++ Text.utf8 ['\u00E9']
    let bytes' := Text.utf8 ['\u00E9']
    utf8.decode? bytes = some ['\u00E9'] ∧ utf8.decode? bytes' = some ['\u00E9'] ∧
      utf8.encode? ['\u00E9'] = some (dropByteOrderMark bytes) ∧
      (bytes = bytes' ∨
        utf8 = utf8 ∧ (bytes = byteOrderMark ++ bytes' ∨ bytes' = byteOrderMark ++ bytes)) := by
  intro bytes bytes'
  have h : utf8.decode? bytes = some ['\u00E9'] := decode?_utf8_append ['\u00E9']
  have h' : utf8.decode? bytes' = some ['\u00E9'] := decode?_utf8 (by decide)
  have hl := decodeFirst?_lossless [utf8, latin1] utf8 bytes bytes' ['\u00E9']
  obtain ⟨-, -, -, -, -, hencode, hsame, -⟩ := hl
  exact ⟨h, h', (hencode h).trans (by rw [if_pos rfl]), hsame h h'⟩

end Encoding

end Quire
