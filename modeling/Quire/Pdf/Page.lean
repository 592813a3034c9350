import Quire.Archive.Inflate
import Quire.Pdf.Charset
import Quire.Pdf.Content
import Quire.Pdf.File

/-!
# Text of PDF pages

The pages of a file are the leaves of its page tree (`File.pages`). `File.pageText` goes through the
operations of a page, and shows strings in the character set of the font that has been selected.
A page fails if one of its fonts is malformed or text is shown in a character set that is unknown.
-/

namespace Quire.Pdf

/-! ### The page tree -/

namespace File

/-- The kids of a node of the page tree. -/
def kids (f : File) (id : ObjectId) : List Value :=
  (((f.dictionary? id).bind (·.get? "Kids")).bind Value.array?).getD []

/-- The name of the type of an object. -/
def typeOf? (f : File) (id : ObjectId) : Option Text :=
  ((f.dictionary? id).bind (·.get? "Type")).bind Value.name?

/-- The pages among at most `limit` nodes that begin with those given. -/
def pagesFrom (f : File) : (limit : Nat) → List Value → List ObjectId
  | 0, _ => []
  | _ + 1, [] => []
  | limit + 1, node :: nodes =>
    match node.reference? with
    | none => f.pagesFrom limit nodes
    | some id =>
      match (f.typeOf? id).map String.ofList with
      | some "Page" => id :: f.pagesFrom limit nodes
      | some "Pages" => f.pagesFrom limit (f.kids id ++ nodes)
      | _ => f.pagesFrom limit nodes

/-- The pages of a file in order. -/
def pages (f : File) : List ObjectId :=
  let root := ((f.trailer.get? "Root").bind Value.reference?).bind f.dictionary?
  match (root.bind (·.get? "Pages")).bind Value.reference? with
  | some id => f.pagesFrom f.objects.length (f.kids id)
  | none => []

/-! ### Fonts -/

/-- The resources of a page and those that it inherits, nearest first. A page may hold its
resources; those of a node above it are another object. Nothing is given if the nodes above a page
lead in a circle or are missing. -/
def resources? (f : File) : (fuel : Nat) → (seen : List ObjectId) → Dictionary →
    Option (List Dictionary)
  | 0, _, _ => none
  | fuel + 1, seen, node =>
    let own := ((node.get? "Resources").bind Value.reference?).bind f.dictionary?
    match (node.get? "Parent").bind Value.reference? with
    | none => some own.toList
    | some id =>
      if seen.contains id then none
      else
        match f.dictionary? id with
        | none => none
        | some parent => (f.resources? fuel (id :: seen) parent).map (own.toList ++ ·)

/-- A dictionary that a value holds or refers to. -/
def dictionaryOf? (f : File) : Value → Option Dictionary
  | .dictionary d => some d
  | .reference id => f.dictionary? id
  | _ => none

/-- The fonts that resources name. -/
def fontsOf (f : File) (resources : Dictionary) : List (Text × Dictionary) :=
  match (resources.get? "Font").bind f.dictionaryOf? with
  | some fonts => fonts.filterMap fun e => (f.dictionaryOf? e.2).map fun d => (e.1, d)
  | none => []

/-- The first font of each name. -/
def nearest (fonts : List (Text × Dictionary)) : List (Text × Dictionary) :=
  fonts.foldl (fun kept e => if kept.any (·.1 == e.1) then kept else kept ++ [e]) []

/-- The fonts of a page. -/
def fonts? (f : File) (page : Dictionary) : Option (List (Text × Dictionary)) :=
  (f.resources? (f.objects.length + 2) [] page).map fun inherited =>
    let held := ((page.get? "Resources").bind Value.dictionary?).toList
    nearest ((held ++ inherited).flatMap f.fontsOf)

end File

/-- How the strings of a font are read. -/
inductive FontEncoding
  | charset (s : Charset)
  /-- A character set that is not known. -/
  | unknown
  deriving DecidableEq, Repr

/-- How the strings of a font are read, if it is a font. -/
def FontEncoding.of? (f : File) (font : Dictionary) : Option FontEncoding :=
  if ((font.get? "Type").bind Value.name?) != some "Font".toList then none
  else
    match (((font.get? "Encoding").bind f.resolve?).bind Value.name?).map String.ofList with
    | none => some (.charset .standard)
    | some "StandardEncoding" => some (.charset .standard)
    | some "MacRomanEncoding" => some (.charset .macRoman)
    | some "WinAnsiEncoding" => some (.charset .winAnsi)
    | some "Identity-H" => if (font.get? "ToUnicode").isSome then some .unknown else none
    | some _ => some .unknown

/-! ### Content -/

/-- The data of a stream without its compression; data that no known filter can read stay as they
are, and compressed data that are cut off give what there is. -/
def decompressed (d : Dictionary) (data : Text) : Text :=
  let filters : List Value :=
    match d.get? "Filter" with
    | some (.array items) => items
    | some v => [v]
    | none => []
  let flate (t : Text) : Text :=
    match Inflate.inflateZlib (t.map Char.toUInt8) with
    | (_, .malformed) => []
    | (out, _) => out.map Char.ofUInt8
  if filters.all fun v => v.name? == some "FlateDecode".toList then
    filters.foldl (fun t _ => flate t) data
  else data

/-- The streams that the contents of a page name, through at most `fuel` references. -/
def contentIds (f : File) : (fuel : Nat) → Value → List ObjectId
  | 0, _ => []
  | fuel + 1, .reference id =>
    match f.objects.lookup id with
    | some (.value v) => contentIds f fuel v
    | _ => [id]
  | _ + 1, .array items => items.filterMap Value.reference?
  | _ + 1, _ => []

/-- The content of a page. -/
def File.content (f : File) (page : Dictionary) : Text :=
  match page.get? "Contents" with
  | none => []
  | some v =>
    (contentIds f 128 v).flatMap fun id =>
      match f.object? id with
      | some (.stream d data) => decompressed d data
      | _ => []

/-! ### Text -/

mutual

/-- The text that an operand shows: a string, a space where the next string is moved far, or the
items of an array and a space. -/
def shown (e : FontEncoding) : Value → Option Text
  | .string t =>
    match e with
    | .charset s => some (s.decode t)
    | .unknown => none
  | .array items => (shownAll e items).map (· ++ [' '])
  | .integer n => some (if n < -100 then [' '] else [])
  | _ => some []

/-- The text that some operands show. -/
def shownAll (e : FontEncoding) : List Value → Option Text
  | [] => some []
  | v :: vs =>
    match shown e v, shownAll e vs with
    | some t, some u => some (t ++ u)
    | _, _ => none

end

/-- The text of a page as far as it has been read, reversed, and the font that is selected. -/
structure Drawing where
  reversed : Text
  font : Option FontEncoding

/-- Goes on with one operation. -/
def Drawing.step (fonts : List (Text × FontEncoding)) (d : Drawing) (o : Operation) :
    Except Text Drawing :=
  match String.ofList o.operator with
  | "Tf" =>
    match o.operands.head?.bind Value.name? with
    | some name => .ok { d with font := fonts.lookup name }
    | none => .error "no font is named".toList
  | "Tj" | "TJ" =>
    match d.font with
    | none => .ok d
    | some e =>
      match shownAll e o.operands with
      | some t => .ok { d with reversed := t.reverse ++ d.reversed }
      | none => .error "unknown character set".toList
  | "ET" =>
    if d.reversed.head? = some '\n' then .ok d
    else .ok { d with reversed := '\n' :: d.reversed }
  | _ => .ok d

namespace File

/-- The text of a page, or the reason why it has none. -/
def pageText (f : File) (id : ObjectId) : Except Text Text := do
  let page := (f.dictionary? id).getD []
  let fonts ←
    match f.fonts? page with
    | some fonts => .ok fonts
    | none => .error "malformed page tree".toList
  let encodings ← (fonts.mapM fun e => do
    match FontEncoding.of? f e.2 with
    | some encoding => .ok (e.1, encoding)
    | none => .error ("unreadable font ".toList ++ e.1) : Except Text (List (Text × FontEncoding)))
  let drawn ← (operations (f.content page)).foldlM (Drawing.step encodings) ⟨[], none⟩
  return drawn.reversed.reverse

/-- The texts of the pages, or the reasons why they have none, with their numbers from one. -/
def pageTexts (f : File) : List (Nat × Except Text Text) :=
  f.pages.mapIdx fun i id => (i + 1, f.pageText id)

end File

end Quire.Pdf
