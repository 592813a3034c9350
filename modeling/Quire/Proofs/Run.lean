import Quire.Proofs.Artifact
import Quire.Proofs.Encoding.Chain
import Quire.Proofs.Plan
import Quire.Run

/-!
# Runs

Chunks of a text are numbered one after the other, so that their artifact is always made
(`exists_render_split`): a run fails only if its document cannot be read, in the first of its phases
(`of_eq_of_error`), and else its steps give notice of all phases and of its report
(`of_eq_of_ok`). If it does not fail, its report gives the sizes of the cleaned text, which those of
the chunks add up to.
-/

namespace Quire

namespace Text

theorem utf8Length_flatten (ts : List Text) : utf8Length ts.flatten = (ts.map utf8Length).sum := by
  induction ts with
  | nil => rfl
  | cons t ts ih => rw [List.flatten_cons, utf8Length_append, ih, List.map_cons, List.sum_cons]

end Text

namespace Chunk

theorem split_eq_nil_iff {t : Text} {d : Division} : split t d = [] ↔ t = [] := by
  constructor
  · intro h
    rw [← flatten_texts t d, ← map_text_split, h]
    rfl
  · rintro rfl
    cases d with
    | byBytes budget => rfl
    | byChars budget =>
      rw [split, texts, slices_nil]
      rfl

end Chunk

namespace Artifact

theorem exists_render_split (t : Text) (d : Division) (o : Output) :
    ∃ a, render (Chunk.split t d) o = .ok a := by
  have hindexes : ((Chunk.split t d).map Chunk.index).Nodup := by
    rw [Chunk.map_index_split]
    exact List.nodup_range'
  obtain ⟨bytes, hb⟩ : ∃ bytes, content (Chunk.split t d) o = .ok bytes := by
    unfold content
    cases o.format with
    | zip => exact ⟨_, archive_eq_ok_iff.2 ⟨hindexes, rfl⟩⟩
    | docx => exact ⟨_, rfl⟩
    | csv => exact ⟨_, rfl⟩
  exact ⟨_, by rw [render, hb]; rfl⟩

end Artifact

namespace Run

variable {d : Document} {p : Plan} {e : Extraction} {fault : Fault}

/-! ### How a run goes -/

theorem ofDocument_of_text {chain : List Encoding} (h : d.format = .plain ∨ d.format = .markdown) :
    Extraction.ofDocument chain d = Extraction.ofPlainText chain d.bytes := by
  rcases h with h | h <;> rw [Extraction.ofDocument_eq_run, h] <;> rfl

section Steps

variable {α β : Type} {a : α} {x : Except Fault α} (ns : List Notice)

theorem run_notify_bind (n : Notice) (f : Unit → ExceptT Fault (StateM (List Notice)) β) :
    (notify n >>= f).run.run ns = (f ()).run.run (ns ++ [n]) := rfl

theorem run_bind_of_ok (h : x = .ok a) (f : α → ExceptT Fault (StateM (List Notice)) β) :
    (liftExcept x >>= f).run.run ns = (f a).run.run ns := by
  rw [h]
  rfl

theorem run_bind_of_error (h : x = .error fault)
    (f : α → ExceptT Fault (StateM (List Notice)) β) :
    (liftExcept x >>= f).run.run ns = (.error fault, ns) := by
  rw [h]
  rfl

end Steps

theorem of_eq_of_error (h : Extraction.ofDocument p.encodings d = .error fault) :
    Run.of d p = ⟨[.phase .extract], .error fault⟩ := by
  rw [Run.of, steps, run_notify_bind, run_bind_of_error _ h]
  rfl

/-- The result of a run that has read `e` and rendered `a`. -/
abbrev outputOf (d : Document) (p : Plan) (e : Extraction) (a : Artifact) : RunOutput :=
  let cleaned := p.rules.clean e.lines
  let cs := Chunk.split cleaned.text p.division
  ⟨a, cs, report d p e cleaned cs a⟩

/-- A run that reads its document goes through the other phases, and its report is the last thing
that it gives notice of. -/
theorem of_eq_of_ok (h : Extraction.ofDocument p.encodings d = .ok e) :
    ∃ a, Artifact.render (outputOf d p e a).chunks p.output = .ok a ∧
      Run.of d p = ⟨[.phase .extract, .phase .clean, .phase .split, .phase .render,
        .done (outputOf d p e a).report], .ok (outputOf d p e a)⟩ := by
  obtain ⟨a, ha⟩ := Artifact.exists_render_split (p.rules.clean e.lines).text p.division p.output
  refine ⟨a, ha, ?_⟩
  rw [Run.of, steps, run_notify_bind, run_bind_of_ok _ h, run_notify_bind]
  dsimp only
  rw [run_notify_bind, run_notify_bind, run_bind_of_ok _ ha, run_notify_bind]
  rfl

theorem render_artifact {out : RunOutput} (h : (Run.of d p).result = .ok out) :
    Artifact.render out.chunks p.output = .ok out.artifact := by
  cases he : Extraction.ofDocument p.encodings d with
  | error fault =>
    rw [of_eq_of_error he] at h
    cases h
  | ok e =>
    obtain ⟨a, ha, hrun⟩ := of_eq_of_ok he
    rw [hrun] at h
    cases h
    exact ha

/-- The artifact of a run has the name that the plan gives it. -/
theorem fileName_artifact {out : RunOutput} (h : (Run.of d p).result = .ok out) :
    out.artifact.fileName = p.output.fileName := by
  obtain ⟨bytes, -, ha⟩ := exists_of_map_eq_ok (render_artifact h)
  rw [← ha]

/-- A run by settings that are not refused fails exactly if its document cannot be read, with the
same fault, in its first phase and without a report; else it gives notice of all four phases in
order, and then of its report. A plain text cannot be read exactly if it is no UTF-8 and no other
encoding is tried. -/
theorem result_eq_error_iff {s : Settings} (h : Plan.ofSettings s = .ok p) (d : Document) :
    (∀ fault, (Run.of d p).result = .error fault ↔
      Extraction.ofDocument p.encodings d = .error fault) ∧
    (∀ fault, (Run.of d p).result = .error fault →
      (Run.of d p).notices = [.phase .extract] ∧
      (Run.of d p).phases.map Phase.label = ["Extracting text".toList] ∧ (Run.of d p).done = []) ∧
    (∀ out, (Run.of d p).result = .ok out →
      (Run.of d p).notices = [.phase .extract, .phase .clean, .phase .split, .phase .render,
        .done out.report] ∧
      (Run.of d p).phases.map Phase.label = ["Extracting text".toList, "Cleaning text".toList,
        "Splitting into chunks".toList, "Rendering artifact".toList] ∧
      (Run.of d p).done = [out.report]) ∧
    (d.format = .plain ∨ d.format = .markdown → ∀ fault, (Run.of d p).result = .error fault ↔
      fault = .unsupportedEncoding (p.encodings.map Encoding.label) ∧
        (∀ e ∈ p.encodings, e = .utf8) ∧
        ¬ (Encoding.dropByteOrderMark d.bytes).IsValidUTF8) := by
  have hiff : ∀ fault, (Run.of d p).result = .error fault ↔
      Extraction.ofDocument p.encodings d = .error fault := by
    intro fault
    cases he : Extraction.ofDocument p.encodings d with
    | error fault' => rw [of_eq_of_error he, Except.error.injEq, Except.error.injEq]
    | ok e =>
      obtain ⟨a, -, ha⟩ := of_eq_of_ok he
      rw [ha]
      exact iff_of_false nofun nofun
  refine ⟨hiff, fun fault hf => ?_, fun out ho => ?_, fun hformat fault => ?_⟩
  · rw [of_eq_of_error ((hiff fault).1 hf)]
    exact ⟨rfl, rfl, rfl⟩
  · cases he : Extraction.ofDocument p.encodings d with
    | error fault =>
      rw [of_eq_of_error he] at ho
      cases ho
    | ok e =>
      obtain ⟨a, -, ha⟩ := of_eq_of_ok he
      rw [ha] at ho ⊢
      cases ho
      exact ⟨rfl, rfl, rfl⟩
  · rw [hiff, ofDocument_of_text hformat, Extraction.ofPlainText_eq_error_iff,
      Encoding.decodeFirst?_eq_none_iff (Plan.encodings_ne_nil h)]

/-- A byte that begins no character is refused if only UTF-8 is tried. -/
theorem result_eq_error_invalid_byte :
    Plan.ofSettings { extract := { encodings := ["UTF8".toList] } } =
        .ok { encodings := [.utf8] } ∧
      (Run.of ⟨"a.md".toList, ⟨#[0xEF, 0xBB, 0xBF, 0x61, 0xFF]⟩⟩ { encodings := [.utf8] }).result =
        .error (.unsupportedEncoding ["utf-8".toList]) := by
  have hs : Plan.ofSettings { extract := { encodings := ["UTF8".toList] } } =
      .ok { encodings := [.utf8] } := rfl
  refine ⟨hs, ((result_eq_error_iff hs _).2.2.2 (Or.inr (by decide)) _).2 ⟨rfl, by decide, ?_⟩⟩
  rw [← ByteArray.validateUTF8_eq_true_iff]
  decide

/-! ### What a report says -/

/-- A report that says what is so about the lines of a document, the text that is left of them, and
the chunks of that text. -/
structure IsReport (rules : Rules) (lines : List Text) (text : Text) (cs : List Chunk)
    (r : Report) : Prop where
  linesExtracted : r.linesExtracted = lines.length
  linesKept : r.linesKept = (rules.keptLines lines).length
  normalized : ((rules.keptLines lines).map rules.normalizeLine).flatten = text
  contentHash : r.contentHash = Sha256.hexDigest text
  cleanedBytes : r.cleanedBytes = (Text.utf8 text).size
  cleanedChars : r.cleanedChars = text.length
  flatten : (cs.map Chunk.text).flatten = text
  indexes : cs.map Chunk.index = List.range' 1 r.chunkCount
  length_chunks : r.chunks.length = r.chunkCount
  chunks : r.chunks = cs.map fun c => ⟨c.index, (Text.utf8 c.text).size, c.text.length⟩
  sum_bytes : (r.chunks.map ChunkStats.bytes).sum = r.cleanedBytes
  sum_chars : (r.chunks.map ChunkStats.chars).sum = r.cleanedChars
  empty_iff : r.chunkCount = 0 ↔ r.cleanedBytes = 0

theorem isReport_report (d : Document) (p : Plan) (e : Extraction) (a : Artifact) :
    IsReport p.rules e.lines (p.rules.clean e.lines).text
      (Chunk.split (p.rules.clean e.lines).text p.division)
      (report d p e (p.rules.clean e.lines)
        (Chunk.split (p.rules.clean e.lines).text p.division) a) where
  linesExtracted := rfl
  linesKept := rfl
  normalized := rfl
  contentHash := rfl
  cleanedBytes := (Text.size_utf8 _).symm
  cleanedChars := rfl
  flatten := by rw [Chunk.map_text_split, Chunk.flatten_texts]
  indexes := Chunk.map_index_split _ _
  length_chunks := List.length_map _
  chunks := List.map_congr_left fun c _ => by rw [Chunk.stats, Text.size_utf8]
  sum_bytes := by
    have h := Text.utf8Length_flatten
      ((Chunk.split (p.rules.clean e.lines).text p.division).map Chunk.text)
    rw [Chunk.map_text_split, Chunk.flatten_texts, ← Chunk.map_text_split] at h
    rw [report, h, List.map_map, List.map_map]
    rfl
  sum_chars := by
    have h := List.length_flatten
      (L := (Chunk.split (p.rules.clean e.lines).text p.division).map Chunk.text)
    rw [Chunk.map_text_split, Chunk.flatten_texts, ← Chunk.map_text_split] at h
    rw [report, h, List.map_map, List.map_map]
    rfl
  empty_iff := by
    rw [report, List.length_eq_zero_iff, Chunk.split_eq_nil_iff, Text.utf8Length_eq_zero_iff]

/-- A run that succeeds ends with a report that says what is so. -/
theorem isReport_of_result_eq_ok {out : RunOutput} (h : (Run.of d p).result = .ok out) :
    ∃ e, Extraction.ofDocument p.encodings d = .ok e ∧
      IsReport p.rules e.lines (p.rules.clean e.lines).text out.chunks out.report := by
  cases he : Extraction.ofDocument p.encodings d with
  | error fault =>
    rw [of_eq_of_error he] at h
    cases h
  | ok e =>
    obtain ⟨a, -, ha⟩ := of_eq_of_ok he
    rw [ha] at h
    cases h
    exact ⟨e, rfl, isReport_report d p e a⟩

/-- Two lines in two chunks. -/
theorem isReport_two_lines :
    ∃ out : RunOutput, out.chunks = [⟨1, ['a', '\n']⟩, ⟨2, ['b', '\n']⟩] ∧
      (Run.of ⟨"a.txt".toList, ⟨#[0x61, 0x0A, 0x62, 0x0A]⟩⟩
        { division := .byBytes ⟨2, by decide⟩ }).result = .ok out ∧
      IsReport {} [['a', '\n'], ['b', '\n']] ['a', '\n', 'b', '\n'] out.chunks out.report := by
  have he : Extraction.ofDocument Encoding.defaultChain
      ⟨"a.txt".toList, ⟨#[0x61, 0x0A, 0x62, 0x0A]⟩⟩ =
        .ok ⟨[['a', '\n'], ['b', '\n']], some .utf8, []⟩ := rfl
  have hclean : (({} : Rules).clean [['a', '\n'], ['b', '\n']]).text = ['a', '\n', 'b', '\n'] := by
    decide +kernel
  obtain ⟨a, -, ha⟩ := of_eq_of_ok (p := { division := .byBytes ⟨2, by decide⟩ }) he
  dsimp only [outputOf] at ha
  rw [hclean] at ha
  have h := congrArg Run.result ha
  obtain ⟨e, he', hr⟩ := isReport_of_result_eq_ok h
  cases he.symm.trans he'
  rw [hclean] at hr
  exact ⟨_, rfl, h, hr⟩

end Run

end Quire
