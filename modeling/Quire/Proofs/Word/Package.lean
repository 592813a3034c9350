import Quire.Extraction
import Quire.Proofs.Archive
import Quire.Proofs.Word.Markup

/-!
# Packages, read again

A part of a package is found in its archive, decoded and read as the tree that was written
(`part?_write`). The relationships of a package lead to the part with the body, so that reading a
package gives the lines of the texts in its body (`ofDocx_write`).
-/

namespace Quire.Word.Package

open Xml (Node Name)

variable {b : Body}

/-! ### Parts -/

theorem decode?_printDocument (n : Node) :
    Encoding.utf8.decode? (Text.utf8 (Xml.printDocument n)) = some (Xml.printDocument n) := by
  -- The document begins with markup, not with a byte order mark.
  obtain ⟨w, -, hw⟩ := Xml.exists_printDocument_eq n
  rw [hw, Encoding.decode?_utf8 (by simp)]

/-- A part of an archive is read as it was written. -/
theorem part?_write {es : List Archive.Entry} (hfits : Archive.Fits es)
    (hnodup : (es.map Archive.Entry.name).Nodup) {name : String} {n : Node}
    (hmem : part name n ∈ es) (hslash : Text.stripPrefix? ['/'] name.toList = none)
    (hn : n.isWritable) : part? (Archive.write es) name.toList = some [n] := by
  have hfile : Archive.file? (Archive.write es) name.toList =
      some (Text.utf8 (Xml.printDocument n)).data.toList := Archive.file?_write hfits hnodup hmem
  rw [part?, hslash, Option.getD_none, hfile]
  dsimp only [Option.bind_eq_bind, Option.bind_some]
  rw [Bytes.toByteArray_toList, decode?_printDocument, Option.bind_some,
    Xml.parse?_printDocument hn]

/-! ### Documents -/

/-- The steps in which a body is found. -/
theorem read?_eq_some {bs : Bytes} {types package relationships nodes : List Node} {name : Text}
    (htypes : part? bs typesName = some types)
    (hpackage : part? bs relationshipsName = some package)
    (hname : relationshipsOf? (mainPart package) = some name)
    (hrelationships : part? bs name = some relationships)
    (hmain : part? bs (mainPart package) = some nodes) :
    read? bs = some (Body.ofNodes nodes) := by
  rw [read?, htypes, hpackage]
  dsimp only [Option.bind_eq_bind, Option.bind_some]
  rw [hname, hmain]
  dsimp only [Option.bind_some]
  rw [hrelationships]
  rfl

theorem map_name_parts (b : Body) : (parts b).map Archive.Entry.name =
    ["[Content_Types].xml".toList, "_rels/.rels".toList, "word/_rels/document.xml.rels".toList,
      "word/styles.xml".toList, "word/document.xml".toList] := rfl

theorem nodup_names_parts (b : Body) : ((parts b).map Archive.Entry.name).Nodup := by
  rw [map_name_parts]
  decide

theorem length_nameBytes_le {e : Archive.Entry} (he : e ∈ parts b) : e.nameBytes.length ≤ 28 := by
  have hnames : ∀ name ∈ (parts b).map Archive.Entry.name,
      (Text.utf8 name).data.toList.length ≤ 28 := by
    rw [map_name_parts]
    decide
  exact hnames e.name (List.mem_map_of_mem he)

theorem fits_parts (h : (write b).length < 2 ^ 32) : Archive.Fits (parts b) :=
  ⟨fun _ he => (length_nameBytes_le he).trans_lt (by decide), h⟩

/-- The relationships of a package that is written. -/
def packageRelationships : Node :=
  relationship "http://schemas.openxmlformats.org/officeDocument/2006/relationships/officeDocument"
    "word/document.xml"

/-- The relationships of the body of a package that is written. -/
def bodyRelationships : Node :=
  relationship "http://schemas.openxmlformats.org/officeDocument/2006/relationships/styles"
    "styles.xml"

-- The facts about one part stand together, since most of their cost is to spell out its long names.
theorem types_fits : types.isWritable ∧ Text.utf8Length (Xml.printDocument types) ≤ 1000 := by
  decide +kernel

theorem packageRelationships_fits : packageRelationships.isWritable ∧
    Text.utf8Length (Xml.printDocument packageRelationships) ≤ 400 ∧
    mainPart [packageRelationships] = "word/document.xml".toList := by
  decide +kernel

theorem bodyRelationships_fits : bodyRelationships.isWritable ∧
    Text.utf8Length (Xml.printDocument bodyRelationships) ≤ 400 := by
  decide +kernel

theorem relationshipsOf?_document : relationshipsOf? "word/document.xml".toList =
    some "word/_rels/document.xml.rels".toList := by
  decide +kernel

theorem length_content_part (name : String) (n : Node) :
    (part name n).content.length = Text.utf8Length (Xml.printDocument n) := by
  rw [← Text.size_utf8, part, Array.length_toList]
  rfl

theorem size_part_le {name : String} {n : Node} {k : Nat} (hmem : part name n ∈ parts b)
    (hn : Text.utf8Length (Xml.printDocument n) ≤ k) : (part name n).size ≤ k + 132 := by
  have hname := length_nameBytes_le hmem
  rw [Archive.Entry.size, length_content_part]
  omega

/-- All parts of a document but its body are short. -/
theorem length_write_le (b : Body) :
    (write b).length ≤ Text.utf8Length (Xml.printDocument b.document) + 4000 := by
  have hstyles : Text.utf8Length (Xml.printDocument styles) ≤ 600 := by decide +kernel
  have htypes := size_part_le (b := b) (.head _) types_fits.2
  have hpackage : (part _ packageRelationships).size ≤ _ :=
    size_part_le (b := b) (.tail _ (.head _)) packageRelationships_fits.2.1
  have hrelationships : (part _ bodyRelationships).size ≤ _ :=
    size_part_le (b := b) (.tail _ (.tail _ (.head _))) bodyRelationships_fits.2
  have hstyles := size_part_le (b := b) (.tail _ (.tail _ (.tail _ (.head _)))) hstyles
  have hbody := size_part_le (b := b) (.tail _ (.tail _ (.tail _ (.tail _ (.head _))))) le_rfl
  have hle : (write b).length ≤ _ := Archive.length_write_le (parts b)
  rw [parts, ← packageRelationships, ← bodyRelationships] at hle
  iterate 5 rw [List.map_cons, List.sum_cons] at hle
  rw [List.map_nil, List.sum_nil] at hle
  exact hle.trans (by omega)

/-- The body of a document that has been written is found in it. -/
theorem read?_write (hlen : (write b).length < 2 ^ 32) (hb : b.document.isWritable) :
    read? (write b) = some (Body.ofNodes [b.document]) := by
  have hfits := fits_parts hlen
  have hnodup := nodup_names_parts b
  have htypes : part? (write b) typesName = some [types] :=
    part?_write hfits hnodup (.head _) (by decide) types_fits.1
  have hpackage : part? (write b) relationshipsName = some [packageRelationships] :=
    part?_write hfits hnodup (.tail _ (.head _)) (by decide) packageRelationships_fits.1
  have hrelationships : part? (write b) "word/_rels/document.xml.rels".toList =
      some [bodyRelationships] :=
    part?_write hfits hnodup (.tail _ (.tail _ (.head _))) (by decide) bodyRelationships_fits.1
  have hmain : part? (write b) "word/document.xml".toList = some [b.document] :=
    part?_write hfits hnodup (.tail _ (.tail _ (.tail _ (.tail _ (.head _))))) (by decide) hb
  have hmainPart := packageRelationships_fits.2.2
  rw [← hmainPart] at hmain
  have hname : relationshipsOf? (mainPart [packageRelationships]) =
      some "word/_rels/document.xml.rels".toList := by
    rw [hmainPart, relationshipsOf?_document]
  exact read?_eq_some htypes hpackage hname hrelationships hmain

theorem ofDocx_of_read? {bytes : ByteArray} (h : read? bytes.data.toList = some b) :
    Extraction.ofDocx bytes = .ok { lines := b.lines } := by
  unfold Extraction.ofDocx
  rewrite [h]
  rfl

/-- A document gives the lines of the texts that are read of its paragraphs. -/
theorem ofDocx_write (hlen : (write b).length < 2 ^ 32) (hb : ∀ block ∈ b, block.isWritable) :
    Extraction.ofDocx (write b).toByteArray =
      .ok { lines := Line.split (Text.joinWith ['\n'] (b.filterMap Block.rereadText?)) } := by
  have hread : read? (write b).toByteArray.data.toList = some (Body.ofNodes [b.document]) := by
    simpa using read?_write hlen (isWritable_document hb)
  rw [ofDocx_of_read? hread, Body.lines, Body.text, paragraphs_ofNodes]

end Quire.Word.Package
