import Quire.Proofs.Cleaning.Clean
import Quire.Proofs.Run

/-!
# Runs that change nothing

If no rule is on (`Rules.off`), every text is normal, and cleaning puts the lines together as they
are (`text_clean_off`). Decoding, cutting into lines and cutting into chunks lose nothing either, so
that a run on the bytes of a text gives this text in pieces (`exists_result_of_rules_off`).
-/

namespace Quire

namespace Rules

/-- No rule is on. -/
def off : Rules := ⟨false, false, false, false, false⟩

theorem isNormal_off (t : Text) : off.IsNormal t where
  links := nofun
  urls := nofun
  emails := nofun
  blanks := nofun

theorem keptLines_off (lines : List Text) : off.keptLines lines = lines :=
  keptLines_eq_self_iff.2 nofun

theorem text_clean_off (lines : List Text) : (off.clean lines).text = lines.flatten :=
  clean_eq_self (keptLines_off lines) fun _ _ => isNormal_off _

end Rules

namespace Run

variable {d : Document} {p : Plan} {t : Text}

theorem ofDocument_of_decode? (hformat : d.format = .plain ∨ d.format = .markdown)
    {chain : List Encoding} {e : Encoding} (hchain : chain.head? = some e)
    (hbytes : e.decode? d.bytes = some t) :
    Extraction.ofDocument chain d = .ok { lines := Line.split t, encoding := some e } := by
  rw [ofDocument_of_text hformat, Extraction.ofPlainText,
    Encoding.decodeFirst?_of_head? hchain hbytes]

/-- With no rule on, a run on the bytes of a plain text, with a byte order mark before them or not,
succeeds, and its chunks put together are the text. It keeps all lines. -/
theorem exists_result_of_rules_off (hrules : p.rules = .off)
    (hchain : p.encodings.head? = some .utf8) (hformat : d.format = .plain ∨ d.format = .markdown)
    (hbytes : d.bytes = ⟨#[0xEF, 0xBB, 0xBF]⟩ ++ Text.utf8 t ∨
      d.bytes = Text.utf8 t ∧ t.head? ≠ some '\uFEFF') :
    ∃ out, (Run.of d p).result = .ok out ∧
      (out.chunks.map Chunk.text).flatten = t ∧
      out.report.linesKept = out.report.linesExtracted ∧
      out.report.linesExtracted = (Line.split t).length := by
  have hdecode : Encoding.utf8.decode? d.bytes = some t := by
    rcases hbytes with hb | ⟨hb, ht⟩
    · rw [hb]
      exact Encoding.decode?_utf8_append t
    · rw [hb]
      exact Encoding.decode?_utf8 ht
  have he := ofDocument_of_decode? hformat hchain hdecode
  have hclean : (p.rules.clean (Line.split t)).text = t := by
    rw [hrules, Rules.text_clean_off, Line.flatten_split]
  have hkept : (p.rules.clean (Line.split t)).linesKept = (Line.split t).length := by
    rw [Rules.clean, hrules, Rules.keptLines_off]
  obtain ⟨a, -, ha⟩ := of_eq_of_ok he
  refine ⟨_, congrArg Run.result ha, ?_, hkept, rfl⟩
  rw [Chunk.map_text_split, Chunk.flatten_texts]
  exact hclean

/-- Of two byte order marks the first is dropped, and every terminator is kept. -/
theorem exists_result_of_two_marks :
    ∃ out, (Run.of ⟨"n.MD".toList, ⟨#[0xEF, 0xBB, 0xBF]⟩ ++
          Text.utf8 ['\uFEFF', 'é', '\r', '\n', '\n', '\r', ' ']⟩
        { rules := .off, division := .byChars ⟨2, by decide⟩, output := { format := .docx } }).result
          = .ok out ∧
      (out.chunks.map Chunk.text).flatten = ['\uFEFF', 'é', '\r', '\n', '\n', '\r', ' '] ∧
      out.report.linesKept = out.report.linesExtracted ∧ out.report.linesExtracted = 4 :=
  exists_result_of_rules_off (t := ['\uFEFF', 'é', '\r', '\n', '\n', '\r', ' ']) rfl rfl
    (Or.inr (by decide)) (Or.inl rfl)

end Run

end Quire
