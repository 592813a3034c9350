import Quire.Line
import Quire.Pdf.Page
import Quire.Report
import Quire.Word.Package

/-!
# Extraction

A document is read by the first registered extractor that supports its format, which gives the lines
of its text (`Extraction.ofDocument`). Plain texts and Markdown are decoded, word processor documents
give the lines of their body, and PDF files give the texts of their pages, each followed by a line
feed; a page that fails counts as an empty one.
-/

namespace Quire

/-- The extractors. -/
inductive Extractor
  | docx
  | pdf
  | text
  deriving DecidableEq, Repr

namespace Extractor

/-- The name of an extractor. -/
def label : Extractor → Text
  | docx => "docx".toList
  | pdf => "pdf".toList
  | text => "text".toList

/-- Whether an extractor reads documents of a format. -/
def supports : Extractor → Document.Format → Bool
  | docx, .docx => true
  | pdf, .pdf => true
  | text, .plain => true
  | text, .markdown => true
  | _, _ => false

/-- The extractors that are registered, in the order in which they are asked. -/
def registered : List Extractor := [docx, pdf, text]

/-- The first of some extractors that reads documents of a format. -/
def find (xs : List Extractor) (f : Document.Format) : Except Fault Extractor :=
  match xs.find? (·.supports f) with
  | some x => .ok x
  | none => .error (.extraction f "no extractor registered".toList)

/-- The extractor for documents of a format. -/
def forFormat : Document.Format → Extractor
  | .docx => docx
  | .pdf => pdf
  | .plain | .markdown => text

variable {xs : List Extractor} {x : Extractor} {f : Document.Format}

theorem supports_iff : x.supports f ↔ x = forFormat f := by
  cases x <;> cases f <;> decide

/-- Formats have one extractor each, so that it does not matter which others are registered. -/
theorem find_of_mem (h : forFormat f ∈ xs) : find xs f = .ok (forFormat f) := by
  unfold find
  cases hx : xs.find? (·.supports f) with
  | some x =>
    have hs := List.find?_some hx
    exact congrArg Except.ok (supports_iff.1 hs)
  | none => exact absurd (supports_iff.2 rfl) (List.find?_eq_none.1 hx _ h)

theorem find_of_not_mem (h : forFormat f ∉ xs) :
    find xs f = .error (.extraction f "no extractor registered".toList) := by
  unfold find
  cases hx : xs.find? (·.supports f) with
  | some x =>
    have hs := List.find?_some hx
    exact absurd (supports_iff.1 hs ▸ List.mem_of_find?_eq_some hx) h
  | none => rfl

theorem find_registered (f : Document.Format) : find registered f = .ok (forFormat f) :=
  find_of_mem (by cases f <;> decide)

end Extractor

/-- What has been read of a document. -/
structure Extraction where
  /-- The lines in order, with their terminators. -/
  lines : List Text
  /-- The encoding of a plain text. -/
  encoding : Option Encoding := none
  pageFailures : List PageFailure := []
  deriving DecidableEq, Repr

/-- A page with its number, and its text or the reason why it has none. -/
structure Page where
  number : Nat
  result : Except Text Text

namespace Page

/-- The texts and failures of pages that have been read, and then those of another page. -/
def addTo (read : Text × List PageFailure) (p : Page) : Text × List PageFailure :=
  match p.result with
  | .ok t => (read.1 ++ t ++ ['\n'], read.2)
  | .error message => (read.1 ++ ['\n'], read.2 ++ [⟨p.number, message⟩])

/-- The texts of pages, each followed by a line feed, and their failures. -/
def join (ps : List Page) : Text × List PageFailure := ps.foldl addTo ([], [])

end Page

namespace Extraction

/-- The lines of a plain text, in the first encoding that fits. -/
def ofPlainText (chain : List Encoding) (bytes : ByteArray) : Except Fault Extraction :=
  match Encoding.decodeFirst? chain bytes with
  | some (t, e) => .ok { lines := Line.split t, encoding := some e }
  | none => .error (.unsupportedEncoding (chain.map Encoding.label))

/-- The lines of a word processor document. The message of the fault is the start of the one that is
shown: a reason follows there that the parser gives, and `Word.Package.read?` gives none. -/
def ofDocx (bytes : ByteArray) : Except Fault Extraction :=
  match Word.Package.read? bytes.data.toList with
  | some b => .ok { lines := b.lines }
  | none => .error (.extraction .docx "parse error".toList)

/-- The lines of some pages. -/
def ofPages (ps : List Page) : Extraction :=
  { lines := Line.split (Page.join ps).1, pageFailures := (Page.join ps).2 }

/-- The lines of a PDF file. The message of the fault has no reason, as in `ofDocx`. -/
def ofPdf (bytes : ByteArray) : Except Fault Extraction :=
  match Pdf.File.read? (bytes.data.toList.map Char.ofUInt8) with
  | some f => .ok (ofPages (f.pageTexts.map fun p => ⟨p.1, p.2⟩))
  | none => .error (.extraction .pdf "failed to load PDF".toList)

/-- What an extractor reads; plain texts are decoded in an encoding of the chain. -/
def run (chain : List Encoding) (bytes : ByteArray) : Extractor → Except Fault Extraction
  | .text => ofPlainText chain bytes
  | .docx => ofDocx bytes
  | .pdf => ofPdf bytes

/-- What is read of a document, by the extractor that is found for its format. -/
def ofDocument (chain : List Encoding) (d : Document) : Except Fault Extraction := do
  run chain d.bytes (← Extractor.find Extractor.registered d.format)

theorem ofDocument_eq_run (chain : List Encoding) (d : Document) :
    ofDocument chain d = run chain d.bytes (.forFormat d.format) := by
  rw [ofDocument, Extractor.find_registered]
  rfl

end Extraction

end Quire
