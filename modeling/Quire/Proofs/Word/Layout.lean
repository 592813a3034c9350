import Quire.Proofs.Chunk.Packing
import Quire.Proofs.Paragraph
import Quire.Word.Layout

/-!
# Documents made from chunks

Several chunks are written as sections with page breaks between them (`layout_of_two_le`), and the
blocks of the document are cut by its page breaks into one section for each chunk, whatever the
chunks say (`splitOnP_bodyOf`). The other paragraphs are those
of the chunks (`filter_layout`). Lines in packed chunks are whole, and so are their words:
the words of these paragraphs are the words of the text (`flatMap_words_split`).
-/

namespace Quire

namespace Chunk

/-- The words of the chunks of a text are its words, if lines stay whole. -/
theorem flatMap_words_split (t : Text) (budget : Budget) :
    (split t (.byBytes budget)).flatMap (fun c => Text.words c.text) = Text.words t := by
  have hlines : (split t (.byBytes budget)).flatMap (fun c => Line.split c.text) =
      Line.split t := by
    rw [List.flatMap_def, map_split_text_split, flatten_packLines]
  rw [← Line.flatMap_words_split t, ← hlines, List.flatMap_assoc]
  exact congrArg (split t (.byBytes budget)).flatMap
    (funext fun c => (Line.flatMap_words_split c.text).symm)

end Chunk

namespace Word

variable {cs : List Chunk}

namespace Block

/-- The leaves of a block in order. -/
def leaves : Block → List Leaf
  | .paragraph _ children => Inline.leavesOfAll children
  | .other => []

/-- The characters of a block as they are. -/
def raw (b : Block) : Text := b.leaves.flatMap Leaf.raw

/-- Whether a block has a page break. -/
def isPageBreak (b : Block) : Bool := b.leaves.contains .pageBreak

/-- Whether a block is a heading. -/
def isHeading : Block → Bool
  | .paragraph style _ => style == some Package.headingStyle
  | .other => false

/-- Whether a block is neither a heading nor has a page break. -/
def isPlain (b : Block) : Bool := !b.isHeading && !b.isPageBreak

end Block

/-! ### Sections -/

/-- The paragraphs of a chunk among others. -/
def sectionOf (c : Chunk) : List Written := .heading (headingOf c) :: plainOf c

theorem layout_singleton (c : Chunk) : layout [c] = plainOf c := List.append_nil (plainOf c)

theorem writeChunk_of_lt {count position : Nat} (h : position + 1 < count)
    (written : List Written) (c : Chunk) :
    writeChunk count written (c, position) = written ++ sectionOf c ++ [.pageBreak] := by
  rw [writeChunk, if_pos (by omega), if_pos ⟨by omega, h⟩, List.append_assoc written]
  rfl

theorem writeChunk_last {count position : Nat} (h : position + 1 = count) (hcount : 1 < count)
    (written : List Written) (c : Chunk) :
    writeChunk count written (c, position) = written ++ sectionOf c := by
  rw [writeChunk, if_pos hcount, if_neg (by omega), List.append_nil, List.append_assoc]
  rfl

/-- From a position on, sections are written with page breaks between them up to the last chunk. -/
theorem foldl_writeChunk {count position : Nat} (hcount : 1 < count)
    (h : position + cs.length = count) (written : List Written) :
    (cs.zipIdx position).foldl (writeChunk count) written =
      written ++ [Written.pageBreak].intercalate (cs.map sectionOf) := by
  induction cs generalizing position written with
  | nil => exact (List.append_nil written).symm
  | cons c cs ih =>
    rw [List.zipIdx_cons, List.foldl_cons]
    cases cs with
    | nil =>
      rw [List.map_singleton, List.intercalate_singleton]
      exact writeChunk_last h hcount written c
    | cons d cs =>
      rw [List.length_cons, List.length_cons] at h
      rw [ih (by rw [List.length_cons]; omega), writeChunk_of_lt (by omega)]
      simp only [List.map_cons, List.intercalate_cons_cons, List.append_assoc]

/-- Two chunks or more are written as sections with page breaks between them. -/
theorem layout_of_two_le (h : 2 ≤ cs.length) :
    layout cs = [Written.pageBreak].intercalate (cs.map sectionOf) :=
  foldl_writeChunk h (Nat.zero_add _) []

theorem not_mem_sectionOf (c : Chunk) : Written.pageBreak ∉ sectionOf c := by
  simp [sectionOf, plainOf]

theorem splitOn_layout (h : 2 ≤ cs.length) :
    (layout cs).splitOn .pageBreak = cs.map sectionOf := by
  rw [layout_of_two_le h]
  apply List.splitOn_intercalate
  · simp only [List.forall_mem_map]
    exact fun c _ => not_mem_sectionOf c
  · rintro hnil
    rw [List.map_eq_nil_iff] at hnil
    subst hnil
    exact absurd h (by decide)

theorem isPageBreak_block (w : Written) : w.block.isPageBreak = (w == .pageBreak) := by
  cases w <;> rfl

theorem splitOnP_bodyOf (h : 2 ≤ cs.length) :
    (bodyOf cs).splitOnP Block.isPageBreak = cs.map fun c => (sectionOf c).map Written.block := by
  have hp : Block.isPageBreak ∘ Written.block = (· == .pageBreak) := funext isPageBreak_block
  rw [bodyOf, List.splitOnP_map, hp, ← List.splitOn_eq_splitOnP, splitOn_layout h, List.map_map]
  rfl

/-! ### Words -/

theorem filter_plainOf (c : Chunk) :
    (plainOf c).filter (Block.isPlain ∘ Written.block) = plainOf c := by
  rw [List.filter_eq_self, plainOf, List.forall_mem_map]
  exact fun _ _ => rfl

theorem filter_layout (cs : List Chunk) :
    (layout cs).filter (Block.isPlain ∘ Written.block) = cs.flatMap plainOf := by
  match cs with
  | [] => rfl
  | [c] => rw [layout_singleton, filter_plainOf, List.flatMap_singleton]
  | c :: d :: cs =>
    rw [layout_of_two_le (by simp), List.filter_intercalate rfl,
      ← List.flatMap_def, List.filter_flatMap]
    exact congrArg (c :: d :: cs).flatMap (funext filter_plainOf)

/-- The words of the paragraphs that are neither headings nor page breaks are the words of the text,
in order, and page breaks cut the blocks for two or more chunks into the sections of the chunks,
each with its heading. -/
theorem flatMap_words_bodyOf (t : Text) (budget : Budget) :
    ((bodyOf (Chunk.split t (.byBytes budget))).filter Block.isPlain).flatMap
        (fun b => Text.words b.raw) = Text.words t ∧
    ∀ cs : List Chunk, 2 ≤ cs.length →
      (bodyOf cs).splitOnP Block.isPageBreak = cs.map fun c =>
        .paragraph (some "Heading1".toList)
            [.run [.text ("Part ".toList ++ Text.decimal c.index)]] ::
          (Paragraph.split c.text).map fun p => .paragraph none [.run [.text p]] := by
  refine ⟨?_, fun cs h => ?_⟩
  · rw [bodyOf, List.filter_map, filter_layout, List.flatMap_map, List.flatMap_assoc,
      ← Chunk.flatMap_words_split t budget]
    refine congrArg (Chunk.split t (.byBytes budget)).flatMap (funext fun c => ?_)
    rw [plainOf, List.flatMap_map, ← Paragraph.flatMap_words_split]
    refine congrArg (Paragraph.split c.text).flatMap (funext fun p => ?_)
    exact congrArg Text.words (List.append_nil p)
  · rw [splitOnP_bodyOf h]
    refine List.map_congr_left fun c _ => ?_
    rw [sectionOf, List.map_cons, plainOf, List.map_map]
    rfl

end Word

end Quire
