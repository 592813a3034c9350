import Quire.Extraction
import Quire.Proofs.Command.Execution
import Quire.Proofs.Path.Extension

/-!
# The way of a document to its extractor

The format of a document is that of the extension at the end of its path, in capitals or small
letters (`ofFileName_eq_iff`): directories above, slashes after it and the content of the file have
no part in it. A document that is read from a path has the name at the end of the path, and so the
format of the path (`Command.run_readDocument`). The extractor for that format reads it
(`Document.format_of_path`).
-/

namespace Quire

namespace Document.Format

variable {f : Format} {n p q : Text} {e : Option Text}

/-- The extensions of the documents of a format, in small letters. Plain texts have any other. -/
def extensions : Format → List Text
  | plain => []
  | markdown => ["md".toList, "markdown".toList]
  | docx => ["docx".toList]
  | pdf => ["pdf".toList]

theorem ofExtension_eq_iff (hf : f ≠ plain) :
    ofExtension e = f ↔ ∃ x ∈ f.extensions, e = some x := by
  constructor
  · rintro rfl
    unfold ofExtension at hf ⊢
    split at hf
    · exact ⟨_, .head _, rfl⟩
    · exact ⟨_, .head _, rfl⟩
    · exact ⟨_, .head _, rfl⟩
    · exact ⟨_, .tail _ (.head _), rfl⟩
    · exact absurd rfl hf
  · rintro ⟨x, hx, rfl⟩
    cases f with
    | plain => exact absurd rfl hf
    | markdown =>
      rcases List.mem_pair.1 hx with rfl | rfl <;> rfl
    | docx =>
      obtain rfl := List.mem_singleton.1 hx
      rfl
    | pdf =>
      obtain rfl := List.mem_singleton.1 hx
      rfl

theorem ofFileName_congr (h : Path.fileName? p = Path.fileName? q) :
    ofFileName p = ofFileName q := by
  rw [ofFileName, ofFileName, Path.extension?_congr h]

theorem ofFileName_lowercase (p : Text) : ofFileName (Text.lowercase p) = ofFileName p := by
  rw [ofFileName, ofFileName, Path.extension?_lowercase, Option.map_map]
  refine congrArg ofExtension (Option.map_congr fun e _ => ?_)
  exact Text.lowercase_lowercase e

/-- A path is of another format than plain text exactly if the name at its end has an extension of
that format after something else. -/
theorem ofFileName_eq_iff (hf : f ≠ plain) : ofFileName p = f ↔
    ∃ stem extension, stem ≠ [] ∧ Path.fileName? p = some (stem ++ '.' :: extension) ∧
      Text.lowercase extension ∈ f.extensions := by
  have hdot : ∀ x ∈ f.extensions, '.' ∉ x := by
    cases f <;> decide
  rw [ofFileName, ofExtension_eq_iff hf]
  simp only [Option.map_eq_some_iff, Path.extension?_eq_some_iff]
  constructor
  · rintro ⟨_, hx, extension, ⟨stem, hstem, hname, -⟩, rfl⟩
    exact ⟨stem, extension, hstem, hname, hx⟩
  · rintro ⟨stem, extension, hstem, hname, hx⟩
    refine ⟨_, hx, extension, ⟨stem, hstem, hname, fun hc => ?_⟩, rfl⟩
    exact hdot _ hx ((Text.mem_lowercase_iff (by decide)).2 hc)

/-- A name whose only dot is at its start, or that has none, is that of a plain text. -/
theorem ofFileName_of_name (hn : Path.IsName n) (hdot : '.' ∉ n.tail) : ofFileName n = plain := by
  by_contra hf
  obtain ⟨stem, extension, hstem, hname, -⟩ := (ofFileName_eq_iff hf).1 rfl
  rw [Path.fileName?_of_isName hn, Option.some.injEq] at hname
  obtain ⟨c, stem, rfl⟩ := List.exists_cons_of_ne_nil hstem
  rw [hname] at hdot
  exact hdot (List.mem_append_right stem List.mem_cons_self)

theorem ofFileName_of_fileName?_eq_none (h : Path.fileName? p = none) : ofFileName p = plain := by
  by_contra hf
  obtain ⟨_, _, -, hname, -⟩ := (ofFileName_eq_iff hf).1 rfl
  rw [h] at hname
  cases hname

end Document.Format

/-! ### Reading and extraction -/

theorem Command.run_readDocument {d : Disk} {path : Text} {bytes : Bytes}
    (h : d.read path = .ok bytes) :
    (readDocument path : ExceptT Failure (StateM Disk) Document).run.run d =
      (.ok ⟨(Path.fileName? path).getD [], bytes.toByteArray⟩, d) := by
  have hread : (liftM (FileAccess.read path : StateM Disk _) :
      ExceptT Failure (StateM Disk) _).run.run d = (.ok (.ok bytes), d) := by
    rw [run_lift]
    show (Except.ok (d.read path), d) = _
    rw [h]
  rw [readDocument, run_bind_of_ok hread, orFail_ok, pure_bind]
  rfl

theorem Extraction.ofDocument_of_supports {x : Extractor} {doc : Document}
    (h : x.supports doc.format) (chain : List Encoding) :
    ofDocument chain doc = run chain doc.bytes x := by
  rw [ofDocument_eq_run, Extractor.supports_iff.1 h]

open Document.Format in
/-- The format of a path is that of the name at its end: it is the same under any directory, in
capitals or small letters and with slashes and dots after it, and it is another one than plain text
only if the name has an extension of that format after something else. So dots in directories, at
the start of a name, or in place of one, do not count. A document that is read from a path has the
format of the path, and it goes to the only extractor for that format, whatever its bytes are. -/
theorem Document.format_of_path (d n : Text) (hn : Path.IsName n) :
    ofFileName (d ++ '/' :: n) = ofFileName n ∧
    (∀ p q : Text, Text.lowercase p = Text.lowercase q → ofFileName p = ofFileName q) ∧
    (∀ (p : Text) (ts : List Text), (∀ t ∈ ts, t = ['/'] ∨ t = ['/', '.']) →
      ofFileName (p ++ ts.flatten) = ofFileName p) ∧
    (∀ f ≠ plain, ofFileName n = f ↔ ∃ stem extension, stem ≠ [] ∧ n = stem ++ '.' :: extension ∧
      Text.lowercase extension ∈ f.extensions) ∧
    ('.' ∉ n.tail → ofFileName n = plain) ∧
    ofFileName ['.', '.'] = plain ∧ ofFileName (d ++ ['/', '.', '.']) = plain ∧
    (∀ (disk : Disk) (p : Text) (bytes : Bytes), disk.read p = .ok bytes →
      ∃ doc : Document,
        (Command.readDocument p : ExceptT Command.Failure (StateM Disk) Document).run.run disk =
          (.ok doc, disk) ∧ doc.bytes = bytes.toByteArray ∧
        doc.format = Document.format ⟨p, bytes.toByteArray⟩) ∧
    ∀ f : Format, ∃ x : Extractor, (∀ y : Extractor, y.supports f ↔ y = x) ∧
      Extractor.find Extractor.registered f = .ok x ∧
      ∀ (doc : Document) (chain : List Encoding), doc.format = f →
        Extraction.ofDocument chain doc = Extraction.run chain doc.bytes x := by
  refine ⟨?_, ?_, ?_, ?_, ofFileName_of_name hn, by decide, ?_, ?_, ?_⟩
  · apply ofFileName_congr
    rw [Path.fileName?_append_cons hn, Path.fileName?_of_isName hn]
  · intro p q h
    rw [← ofFileName_lowercase p, h, ofFileName_lowercase]
  · intro p ts h
    apply ofFileName_congr
    rw [Path.fileName?, Path.fileName?, Path.components_append_flatten h]
  · intro f hf
    simp only [ofFileName_eq_iff hf, Path.fileName?_of_isName hn, Option.some.injEq]
  · exact ofFileName_of_fileName?_eq_none (Path.fileName?_append_dots d)
  · intro disk p bytes h
    refine ⟨_, Command.run_readDocument h, rfl, ?_⟩
    exact ofFileName_congr (Path.fileName?_getD p)
  · intro f
    refine ⟨.forFormat f, fun y => Extractor.supports_iff, Extractor.find_registered f, ?_⟩
    rintro doc chain rfl
    exact Extraction.ofDocument_of_supports (Extractor.supports_iff.2 rfl) chain

/-- Dots and other extensions in the directories, and capitals in the extension. -/
theorem Document.format_of_path_capitals :
    let d : Text := "../old.docx/.md".toList
    let n : Text := "Plan.md.Pdf".toList
    let disk : Disk := ⟨[(["old.docx".toList], .directory),
      (["old.docx".toList, ".md".toList], .directory),
      (["old.docx".toList, ".md".toList, n], .file [0x25])], []⟩
    Path.IsName n ∧ Document.Format.ofFileName (d ++ '/' :: n) = .pdf ∧
      Document.Format.ofFileName (n ++ [['/'], ['/', '.'], ['/']].flatten) = .pdf ∧
      disk.read (d ++ '/' :: n) = .ok [0x25] ∧
      ∃ doc : Document, (Command.readDocument (d ++ '/' :: n) :
        ExceptT Command.Failure (StateM Disk) Document).run.run disk = (.ok doc, disk) ∧
          doc.format = .pdf ∧ Extraction.ofDocument [] doc = Extraction.run [] doc.bytes .pdf := by
  intro d n disk
  have hn : Path.IsName n := by
    refine Path.IsName.of_length ?_ ?_ <;> decide
  obtain ⟨hd, -, hend, hf, -, -, -, hdisk, hrun⟩ := Document.format_of_path d n hn
  have hpdf : Document.Format.ofFileName n = .pdf :=
    (hf .pdf (by decide)).2 ⟨"Plan.md".toList, "Pdf".toList, by decide, by decide, by decide⟩
  have hends : Document.Format.ofFileName (n ++ [['/'], ['/', '.'], ['/']].flatten) = .pdf :=
    (hend n [['/'], ['/', '.'], ['/']] (by decide)).trans hpdf
  have hread : disk.read (d ++ '/' :: n) = .ok [0x25] := by decide
  obtain ⟨doc, hdoc, -, hformat⟩ := hdisk disk _ _ hread
  have hpdf' : doc.format = .pdf := hformat.trans (hd.trans hpdf)
  obtain ⟨x, hx, -, hextract⟩ := hrun .pdf
  obtain rfl : Extractor.pdf = x := (hx .pdf).1 rfl
  exact ⟨hn, hd.trans hpdf, hends, hread, doc, hdoc, hpdf', hextract doc [] hpdf'⟩

end Quire
