import Quire.Archive.Zip
import Quire.Path
import Quire.Word.Markup

/-!
# Packages of word processor documents

A document is an archive of parts (`Part`). The relationships of the package name the part with the
body, which has relationships of its own beside it. `Package.read?` finds the body in an archive and
`Package.write` makes an archive for a body, with the one style that headings need.
-/

namespace Quire.Word.Package

open Xml (Node Name)

/-- The name of the part with the types of all parts. -/
def typesName : Text := "[Content_Types].xml".toList

/-- The name of the part with the relationships of the package. -/
def relationshipsName : Text := "_rels/.rels".toList

/-- The name of the part with the body if the package does not say otherwise. -/
def mainName : Text := "word/document.xml".toList

/-- The type of the relationship between a package and its main part. -/
def mainType : Text :=
  "http://schemas.openxmlformats.org/officeDocument/2006/relationships/officeDocument".toList

/-! ### Reading -/

mutual

/-- The types and targets of the relationships in a node. -/
def relationships : Node → List (Text × Text)
  | .text _ => []
  | .element name attributes children =>
    (if isNamed ["Relationship"] name then
      [((attributes.value? "Type").getD [], (attributes.value? "Target").getD [])]
    else []) ++ relationshipsOfAll children

/-- The types and targets of the relationships in some nodes. -/
def relationshipsOfAll : List Node → List (Text × Text)
  | [] => []
  | node :: nodes => relationships node ++ relationshipsOfAll nodes

end

/-- The name of the main part, as the relationships of the package give it. -/
def mainPart (nodes : List Node) : Text :=
  ((relationshipsOfAll nodes).lookup mainType).getD mainName

/-- The name of the part with the relationships of another part, if that has a name. -/
def relationshipsOf? (part : Text) : Option Text := do
  let name ← Path.fileName? part
  let folder ← Path.parent? part
  let stem (n : Text) : Text :=
    match Path.splitLastDot? n with
    | some (c :: before, _) => c :: before
    | _ => n
  return Path.join folder (Path.join "_rels".toList (stem (stem name) ++ ".xml.rels".toList))

/-- The nodes of a part of a package. The name of a part may begin with a slash. -/
def part? (bs : Bytes) (name : Text) : Option (List Node) := do
  let content ← Archive.file? bs ((Text.stripPrefix? ['/'] name).getD name)
  let t ← Encoding.utf8.decode? content.toByteArray
  Xml.parse? t

/-- The body of a document. -/
def read? (bs : Bytes) : Option Body := do
  let _ ← part? bs typesName
  let relationships ← part? bs relationshipsName
  let main := mainPart relationships
  let _ ← part? bs (← relationshipsOf? main)
  return Body.ofNodes (← part? bs main)

/-! ### Writing -/

/-- An element without a name space. -/
def plainElement (name : String) (attributes : List (String × String)) (children : List Node) :
    Node :=
  .element ⟨[], name.toList⟩ (attributes.map fun a => (⟨[], a.1.toList⟩, a.2.toList)) children

/-- The types of the parts. -/
def types : Node :=
  plainElement "Types" [("xmlns", "http://schemas.openxmlformats.org/package/2006/content-types")] [
    plainElement "Default" [("Extension", "rels"),
      ("ContentType", "application/vnd.openxmlformats-package.relationships+xml")] [],
    plainElement "Default" [("Extension", "xml"), ("ContentType", "application/xml")] [],
    plainElement "Override" [("PartName", "/word/document.xml"),
      ("ContentType",
        "application/vnd.openxmlformats-officedocument.wordprocessingml.document.main+xml")] [],
    plainElement "Override" [("PartName", "/word/styles.xml"),
      ("ContentType",
        "application/vnd.openxmlformats-officedocument.wordprocessingml.styles+xml")] []]

/-- A part with one relationship. -/
def relationship (type target : String) : Node :=
  plainElement "Relationships"
    [("xmlns", "http://schemas.openxmlformats.org/package/2006/relationships")]
    [plainElement "Relationship" [("Id", "rId1"), ("Type", type), ("Target", target)] []]

/-- The identifier of the style of headings. -/
def headingStyle : Text := "Heading1".toList

/-- The style of headings: bold, of sixteen points. -/
def styles : Node :=
  root "styles" [
    element "style" [("type", "paragraph".toList), ("styleId", headingStyle)] [
      element "name" [("val", "Heading 1".toList)] [],
      element "rPr" [] [element "b" [] [], element "sz" [("val", "32".toList)] []]]]

/-- A part with one element. -/
def part (name : String) (n : Node) : Archive.Entry :=
  ⟨name.toList, (Text.utf8 (Xml.printDocument n)).data.toList⟩

/-- The parts of a document. -/
def parts (b : Body) : List Archive.Entry := [
  part "[Content_Types].xml" types,
  part "_rels/.rels" (relationship
    "http://schemas.openxmlformats.org/officeDocument/2006/relationships/officeDocument"
    "word/document.xml"),
  part "word/_rels/document.xml.rels" (relationship
    "http://schemas.openxmlformats.org/officeDocument/2006/relationships/styles" "styles.xml"),
  part "word/styles.xml" styles,
  part "word/document.xml" b.document]

/-- A document with a body. -/
def write (b : Body) : Bytes := Archive.write (parts b)

end Quire.Word.Package
