import Quire.Proofs.Line.Segmentation
import Quire.Proofs.Text.Offset

/-!
# Lines found among bytes

`spans` looks for line breaks byte by byte and gives the range of every line. In UTF-8 no other
character has a byte that is a line feed or a carriage return (`toUInt8_mem_flatMap_encode_iff`), so
it finds the lines of the text: their ranges follow each other (`spans_utf8`). The body of a line is
cut off after `bodySize` bytes (`splitAt?_bodySize`).
-/

namespace Quire.Line

/-- Goes on at the byte `i` of a line that begins at the offset `start`. -/
def spansFrom (bytes : ByteArray) (start i : Nat) : List Span :=
  if h : i < bytes.size then
    if bytes[i] = '\n'.toUInt8 then ⟨start, i + 1⟩ :: spansFrom bytes (i + 1) (i + 1)
    else if bytes[i] = '\r'.toUInt8 then
      let last := if bytes[i + 1]? = some '\n'.toUInt8 then i + 1 else i
      ⟨start, last + 1⟩ :: spansFrom bytes (last + 1) (last + 1)
    else spansFrom bytes start (i + 1)
  else if start < bytes.size then [⟨start, bytes.size⟩]
  else []
termination_by bytes.size - i
decreasing_by all_goals grind

/-- The ranges of the lines of a text, of which the bytes are given. -/
def spans (bytes : ByteArray) : List Span := spansFrom bytes 0 0

/-- The number of bytes of a line without its terminator. -/
def bodySize (line : Text) : Nat :=
  if ['\r', '\n'].isSuffixOf line then Text.utf8Length line - 2
  else if ['\n'].isSuffixOf line || ['\r'].isSuffixOf line then Text.utf8Length line - 1
  else Text.utf8Length line

variable {bytes : ByteArray} {start i : Nat} {a b e t u : Text} {l : Text} {ls : List Text}

/-! ### One byte -/

theorem spansFrom_of_size_le (h : bytes.size ≤ i) :
    spansFrom bytes start i = if start < bytes.size then [⟨start, bytes.size⟩] else [] := by
  rw [spansFrom, dif_neg (Nat.not_lt.2 h)]

theorem spansFrom_lf (h : bytes[i]? = some '\n'.toUInt8) :
    spansFrom bytes start i = ⟨start, i + 1⟩ :: spansFrom bytes (i + 1) (i + 1) := by
  obtain ⟨hi, h⟩ := getElem?_eq_some_iff.1 h
  rw [spansFrom, dif_pos hi, if_pos h]

theorem spansFrom_crlf (h : bytes[i]? = some '\r'.toUInt8)
    (hnext : bytes[i + 1]? = some '\n'.toUInt8) :
    spansFrom bytes start i = ⟨start, i + 2⟩ :: spansFrom bytes (i + 2) (i + 2) := by
  obtain ⟨hi, h⟩ := getElem?_eq_some_iff.1 h
  rw [spansFrom, dif_pos hi, if_neg (h ▸ by decide), if_pos h, if_pos hnext]

theorem spansFrom_cr (h : bytes[i]? = some '\r'.toUInt8)
    (hnext : bytes[i + 1]? ≠ some '\n'.toUInt8) :
    spansFrom bytes start i = ⟨start, i + 1⟩ :: spansFrom bytes (i + 1) (i + 1) := by
  obtain ⟨hi, h⟩ := getElem?_eq_some_iff.1 h
  rw [spansFrom, dif_pos hi, if_neg (h ▸ by decide), if_pos h, if_neg hnext]

theorem spansFrom_other {x : UInt8} (h : bytes[i]? = some x) (hn : x ≠ '\n'.toUInt8)
    (hr : x ≠ '\r'.toUInt8) : spansFrom bytes start i = spansFrom bytes start (i + 1) := by
  obtain ⟨hi, rfl⟩ := getElem?_eq_some_iff.1 h
  rw [spansFrom, dif_pos hi, if_neg hn, if_neg hr]

/-! ### One line -/

/-- Bytes that are no line breaks are passed over. -/
theorem spansFrom_skip {m : Bytes} (h : ∀ j < m.length, bytes[i + j]? = m[j]?)
    (hn : '\n'.toUInt8 ∉ m) (hr : '\r'.toUInt8 ∉ m) :
    spansFrom bytes start i = spansFrom bytes start (i + m.length) := by
  induction m generalizing i with
  | nil => rfl
  | cons x m ih =>
    rw [List.mem_cons, not_or] at hn hr
    have hx : bytes[i]? = some x := h 0 (Nat.zero_lt_succ _)
    rw [spansFrom_other hx (Ne.symm hn.1) (Ne.symm hr.1), ih _ hn.2 hr.2,
      List.length_cons, Nat.add_right_comm, Nat.add_assoc]
    intro j hj
    rw [Nat.add_assoc, Nat.add_comm 1]
    exact h (j + 1) (Nat.succ_lt_succ hj)

theorem toUInt8_mem_flatMap_encode_iff {c : Char} (hc : c.toNat < 0x80) :
    c.toUInt8 ∈ t.flatMap String.utf8EncodeChar ↔ c ∈ t := by
  simp only [List.mem_flatMap, Utf8.toUInt8_mem_encode_iff hc, exists_eq_right]

theorem spansFrom_unbroken (hb : Unbroken b) (start : Nat) (a u : Text) :
    spansFrom (Text.utf8 (a ++ b ++ u)) start (Text.utf8Length a) =
      spansFrom (Text.utf8 (a ++ b ++ u)) start (Text.utf8Length (a ++ b)) := by
  rw [Text.utf8Length_append, ← Text.length_flatMap_encode b]
  apply spansFrom_skip
  · intro j hj
    rw [List.append_assoc, Text.getElem?_utf8_append, Text.getElem?_utf8, List.flatMap_append,
      List.getElem?_append_left hj]
  · exact mt (toUInt8_mem_flatMap_encode_iff (by decide)).1 hb.1
  · exact mt (toUInt8_mem_flatMap_encode_iff (by decide)).1 hb.2

/-- A line with its terminator ends where the terminator does, unless a line feed comes after its
carriage return. -/
theorem spansFrom_line (hb : Unbroken b) (he : IsTerminator e) (hne : e ≠ [])
    (h : ¬ (e = ['\r'] ∧ '\n' ∈ u.head?)) (a : Text) :
    let stop := Text.utf8Length (a ++ (b ++ e))
    spansFrom (Text.utf8 (a ++ (b ++ e) ++ u)) start (Text.utf8Length a) =
      ⟨start, stop⟩ :: spansFrom (Text.utf8 (a ++ (b ++ e) ++ u)) stop stop := by
  have hskip := spansFrom_unbroken hb start a (e ++ u)
  rw [← List.append_assoc (a ++ b), List.append_assoc a] at hskip
  rw [hskip, ← List.append_assoc a, Text.utf8Length_append (a ++ b)]
  cases he with
  | none => exact absurd rfl hne
  | lf =>
    rw [spansFrom_lf]
    · rfl
    · rw [List.append_assoc, Text.getElem?_utf8_append_eq_iff (by decide)]
      rfl
  | cr =>
    rw [spansFrom_cr]
    · rfl
    · rw [List.append_assoc, Text.getElem?_utf8_append_eq_iff (by decide)]
      rfl
    · have hnext := Text.getElem?_utf8_append_eq_iff (c := '\n') (by decide) (a ++ b ++ ['\r']) u
      rw [Text.utf8Length_append] at hnext
      exact fun hn => h ⟨rfl, hnext.1 hn⟩
  | crlf =>
    rw [spansFrom_crlf]
    · rfl
    · rw [List.append_assoc, Text.getElem?_utf8_append_eq_iff (by decide)]
      rfl
    · have hnext := Text.getElem?_utf8_append_eq_iff (c := '\n') (by decide) (a ++ b ++ ['\r'])
        ('\n' :: u)
      rw [Text.utf8Length_append, List.append_assoc] at hnext
      rw [List.append_assoc]
      exact hnext.2 rfl

/-- What is left at the end of the text is a line if it is not empty. -/
theorem spansFrom_last (hb : Unbroken b) (hne : b ≠ []) (a : Text) :
    spansFrom (Text.utf8 (a ++ b)) (Text.utf8Length a) (Text.utf8Length a) =
      [⟨Text.utf8Length a, Text.utf8Length (a ++ b)⟩] := by
  have hskip := spansFrom_unbroken hb (Text.utf8Length a) a []
  rw [List.append_nil] at hskip
  have hpos : Text.utf8Length b ≠ 0 := mt Text.utf8Length_eq_zero_iff.1 hne
  rw [hskip, spansFrom_of_size_le (Nat.le_of_eq (Text.size_utf8 _)), Text.size_utf8, if_pos]
  rw [Text.utf8Length_append]
  omega

/-! ### All lines -/

theorem IsSegmentation.tail (h : IsSegmentation (l :: ls)) : IsSegmentation ls := by
  obtain ⟨hlines, hne, hc⟩ := isSegmentation_iff.1 h
  exact isSegmentation_iff.2 ⟨(areLines_cons.1 hlines).2, (List.forall_mem_cons.1 hne).2, hc.tail⟩

theorem IsSegmentation.not_tears_flatten (h : IsSegmentation (l :: ls)) : ¬ Tears l ls.flatten := by
  rintro ⟨hl, ht⟩
  cases ls with
  | nil => exact absurd ht (by simp)
  | cons m ms =>
    rw [List.flatten_cons, List.head?_append_of_ne_nil _ (h.filled m (by simp))] at ht
    exact (List.isChain_cons_cons.1 h.whole).1 ⟨hl, ht⟩

theorem spansFrom_flatten (h : IsSegmentation ls) (a : Text) :
    spansFrom (Text.utf8 (a ++ ls.flatten)) (Text.utf8Length a) (Text.utf8Length a) =
      Span.tile (Text.utf8Length a) ls := by
  induction ls generalizing a with
  | nil =>
    rw [List.flatten_nil, List.append_nil, spansFrom_of_size_le (Nat.le_of_eq (Text.size_utf8 _)),
      Text.size_utf8, if_neg (Nat.lt_irrefl _)]
    rfl
  | cons l ls ih =>
    obtain ⟨b, e, hb, he, rfl⟩ := h.parts l List.mem_cons_self
    rw [Span.tile, List.flatten_cons, ← Text.utf8Length_append]
    by_cases hne : e = []
    · -- Only the last line lacks a terminator.
      have hterm := (areLines_cons.1 (isSegmentation_iff.1 h).1).1.2
      rw [terminator, hb.splitTerminator_append he] at hterm
      obtain rfl : ls = [] := by_contra fun hls => hterm hls hne
      have hfilled := h.filled _ List.mem_cons_self
      rw [hne, List.append_nil] at hfilled
      rw [hne, List.append_nil, List.flatten_nil, List.append_nil, spansFrom_last hb hfilled]
      rfl
    · have hu : ¬ (e = ['\r'] ∧ '\n' ∈ ls.flatten.head?) := by
        rintro ⟨rfl, hlf⟩
        exact h.not_tears_flatten ⟨by simp, hlf⟩
      rw [← List.append_assoc, spansFrom_line hb he hne hu, ih h.tail]

theorem spans_utf8 (t : Text) : spans (Text.utf8 t) = Span.tile 0 (split t) := by
  have h := spansFrom_flatten (isSegmentation_split t) []
  rwa [flatten_split] at h

example : spans (Text.utf8 ['é', '\r', '\n', 'ü']) = [⟨0, 4⟩, ⟨4, 6⟩] := by decide +kernel

/-! ### Body and terminator -/

theorem bodySize_eq (line : Text) : bodySize line = Text.utf8Length (body line) := by
  obtain ⟨r, rfl⟩ : ∃ r, line = r.reverse := ⟨line.reverse, line.reverse_reverse.symm⟩
  have hlf : '\n'.utf8Size = 1 := by decide
  have hcr : '\r'.utf8Size = 1 := by decide
  simp only [bodySize, body, splitTerminator, List.isSuffixOf, List.reverse_reverse]
  rcases r with _ | ⟨c, r⟩
  · rfl
  by_cases hn : c = '\n'
  · subst hn
    rcases r with _ | ⟨d, r⟩
    · rfl
    · by_cases hd : d = '\r'
      · subst hd
        simp [hlf, hcr]
      · simp [hd, Ne.symm hd, hlf]
  · by_cases hr : c = '\r'
    · subst hr
      simp [hcr]
    · simp [hn, hr, Ne.symm hn, Ne.symm hr]

/-- The body is cut off at a boundary. -/
theorem splitAt?_bodySize (line : Text) :
    Text.splitAt? line (bodySize line) = some (splitTerminator line) := by
  have h := Text.splitAt?_append (body line) (terminator line)
  rwa [body_append_terminator, ← bodySize_eq] at h
end Quire.Line
