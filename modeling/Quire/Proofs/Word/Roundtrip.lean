import Quire.Proofs.Text.Decimal
import Quire.Proofs.Word.Body
import Quire.Proofs.Word.Layout
import Quire.Proofs.Word.Legal
import Quire.Proofs.Word.Package

/-!
# Documents made from chunks, read again

A document that is made from chunks holds the texts `writtenTexts` in its paragraphs. What is read
of it are the lines of these texts, with the names of characters in them replaced once more
(`ofDocx_write_bodyOf`). So the texts are read as they were written exactly if no chunk has such a
name in it (`ofDocx_write_bodyOf_eq_iff`). The markup has only characters that XML allows if the
chunks have no others.
-/

namespace Quire.Word

variable {cs : List Chunk} {w : Written} {c : Char}

/-! ### What is written -/

/-- The text of a paragraph; that of a page break is a line feed. -/
def Written.text : Written → Text
  | heading t | plain t => t
  | pageBreak => ['\n']

/-- The texts of the paragraphs that are written for some chunks. -/
def writtenTexts (cs : List Chunk) : List Text :=
  if 2 ≤ cs.length then
    [['\n']].intercalate (cs.map fun c =>
      ("Part ".toList ++ Text.decimal c.index) :: Paragraph.split c.text)
  else cs.flatMap fun c => Paragraph.split c.text

theorem map_text_plainOf (c : Chunk) : (plainOf c).map Written.text = Paragraph.split c.text := by
  rw [plainOf, List.map_map]
  exact List.map_id' _

theorem map_text_layout (cs : List Chunk) : (layout cs).map Written.text = writtenTexts cs := by
  match cs with
  | [] => rfl
  | [c] => rw [layout_singleton, map_text_plainOf, writtenTexts, if_neg (by simp), List.flatMap_singleton]
  | c :: d :: cs =>
    have hlen : 2 ≤ (c :: d :: cs).length := by simp
    rw [layout_of_two_le hlen, List.map_intercalate, List.map_map, writtenTexts, if_pos hlen]
    refine congrArg [['\n']].intercalate (List.map_congr_left fun c _ => ?_)
    exact congrArg (headingOf c :: ·) (map_text_plainOf c)

theorem mem_layout (h : w ∈ layout cs) : w = .pageBreak ∨
    ∃ c ∈ cs, w = .heading (headingOf c) ∨ ∃ p ∈ Paragraph.split c.text, w = .plain p := by
  have hplain {c : Chunk} (hw : w ∈ plainOf c) : ∃ p ∈ Paragraph.split c.text, w = .plain p := by
    obtain ⟨p, hp, rfl⟩ := List.mem_map.1 hw
    exact ⟨p, hp, rfl⟩
  match cs with
  | [] => exact absurd h List.not_mem_nil
  | [c] =>
    rw [layout_singleton] at h
    exact Or.inr ⟨c, List.mem_cons_self, Or.inr (hplain h)⟩
  | c :: d :: cs =>
    rw [layout_of_two_le (by simp)] at h
    rcases List.mem_intercalate h with hw | ⟨l, hl, hw⟩
    · exact Or.inl (List.mem_singleton.1 hw)
    · obtain ⟨c, hc, rfl⟩ := List.mem_map.1 hl
      exact Or.inr ⟨c, hc, (List.mem_cons.1 hw).imp_right hplain⟩

theorem plain_mem_layout {d : Chunk} {p : Text} (hd : d ∈ cs) (hp : p ∈ Paragraph.split d.text) :
    .plain p ∈ layout cs := by
  have hmem : Written.plain p ∈ cs.flatMap plainOf :=
    List.mem_flatMap.2 ⟨d, hd, List.mem_map_of_mem hp⟩
  rw [← filter_layout] at hmem
  exact (List.mem_filter.1 hmem).1

theorem ne_of_mem_headingOf {d : Chunk} (h : c ∈ headingOf d) : c ≠ '&' ∧ c ≠ '\n' ∧ c ≠ '\r' := by
  rcases List.mem_append.1 h with h | h
  · have hc : c = 'P' ∨ c = 'a' ∨ c = 'r' ∨ c = 't' ∨ c = ' ' := by simpa using h
    rcases hc with rfl | rfl | rfl | rfl | rfl <;> decide
  · have hdigit := Nat.isDigit_of_mem_toDigits (by decide) (by decide) h
    refine ⟨?_, ?_, ?_⟩ <;> rintro rfl <;> exact absurd hdigit (by decide)

/-- A paragraph is a page break, or it can be written and has no line break. -/
theorem eq_pageBreak_or_of_mem_layout (h : w ∈ layout cs) :
    w = .pageBreak ∨ w.text ≠ [] ∧ Line.Unbroken w.text := by
  rcases mem_layout h with rfl | ⟨d, -, rfl | ⟨p, hp, rfl⟩⟩
  · exact Or.inl rfl
  · refine Or.inr ⟨by simp [Written.text, headingOf], fun hc => ?_, fun hc => ?_⟩
    · exact (ne_of_mem_headingOf hc).2.1 rfl
    · exact (ne_of_mem_headingOf hc).2.2 rfl
  · exact Or.inr ⟨Paragraph.ne_nil_of_mem_split hp, Paragraph.unbroken_of_mem_split hp⟩

theorem isLegal_headingOf (d : Chunk) : Xml.IsLegal (headingOf d) := by
  have hstart : Xml.IsLegal "Part ".toList := by decide
  refine hstart.append fun c hc => ?_
  have hdigit : 48 ≤ c.toNat ∧ c.toNat ≤ 57 :=
    Char.isDigit_iff_toNat.1 (Text.isDigit_of_mem_decimal hc)
  simp only [Xml.isLegal, Bool.or_eq_true, Bool.and_eq_true, decide_eq_true_eq]
  omega

theorem isLegal_of_mem_split {t p : Text} (h : Xml.IsLegal t) (hp : p ∈ Paragraph.split t) :
    Xml.IsLegal p := by
  intro c hc
  rcases Paragraph.eq_space_or_mem_of_mem_split hp hc with rfl | hc
  · decide
  · exact h c hc

/-- The markup that is written has no characters but those that XML allows if the chunks have no
others. -/
theorem isLegal_printDocument_bodyOf (h : ∀ d ∈ cs, Xml.IsLegal d.text) :
    Xml.IsLegal (Xml.printDocument (bodyOf cs).document) := by
  have hleaf {t : Text} (ht : Xml.IsLegal t) : ∀ leaf ∈ [Leaf.text t], Xml.IsLegal leaf.raw :=
    List.forall_mem_singleton.2 ht
  refine Body.isLegal_printDocument (List.forall_mem_map.2 fun w hw => ?_)
  rcases mem_layout hw with rfl | ⟨d, hd, rfl | ⟨p, hp, rfl⟩⟩
  · exact ⟨by simp, by decide⟩
  · exact ⟨by decide, hleaf (isLegal_headingOf d)⟩
  · exact ⟨by simp, hleaf (isLegal_of_mem_split (h d hd) hp)⟩

/-! ### What is read -/

theorem isWritable_block (h : w ∈ layout cs) : w.block.isWritable := by
  have hleaf {t : Text} (hne : t ≠ []) (hr : '\r' ∉ t) : (Leaf.text t).isWritable := by
    simp [Leaf.isWritable, hne, hr]
  rcases eq_pageBreak_or_of_mem_layout h with rfl | ⟨hne, -, hr⟩
  · rfl
  · cases w with
    | heading t => exact (Bool.and_true _).trans (hleaf hne hr)
    | plain t => exact (Bool.and_true _).trans (hleaf hne hr)
    | pageBreak => rfl

theorem rereadText?_block (h : w ∈ layout cs) : w.block.rereadText? = some (unescape w.text) := by
  have htext {t : Text} (hn : '\n' ∉ t) :
      ([Leaf.text t].flatMap fun leaf => leaf.reread.content) = unescape t := by
    have hfilter : t.filter (· != '\n') = t :=
      List.filter_eq_self.2 fun c hc => bne_iff_ne.2 fun hcn => hn (hcn ▸ hc)
    rw [List.flatMap_singleton, Leaf.reread, Leaf.ofCharacters, Leaf.content, hfilter]
  rcases eq_pageBreak_or_of_mem_layout h with rfl | ⟨-, hn, -⟩
  · rfl
  · cases w with
    | heading t => exact congrArg some (htext hn)
    | plain t => exact congrArg some (htext hn)
    | pageBreak => rfl

theorem filterMap_rereadText?_bodyOf (cs : List Chunk) :
    (bodyOf cs).filterMap Block.rereadText? = (writtenTexts cs).map unescape := by
  rw [bodyOf, List.filterMap_map, ← map_text_layout, List.map_map, ← List.filterMap_eq_map]
  exact List.filterMap_congr fun w hw => rereadText?_block hw

/-- What is read of a document are the lines of the texts that were written, with the names of
characters in them replaced. -/
theorem ofDocx_write_bodyOf (h : (Package.write (bodyOf cs)).length < 2 ^ 32) :
    Extraction.ofDocx (Package.write (bodyOf cs)).toByteArray =
      .ok { lines := Line.split (Text.joinWith ['\n'] ((writtenTexts cs).map unescape)) } := by
  have hwritable : ∀ block ∈ bodyOf cs, block.isWritable :=
    List.forall_mem_map.2 fun w hw => isWritable_block hw
  rw [Package.ofDocx_write h hwritable, filterMap_rereadText?_bodyOf]

theorem mem_writtenTexts {t : Text} (h : t ∈ writtenTexts cs) :
    '&' ∉ t ∨ ∃ d ∈ cs, t ∈ Paragraph.split d.text := by
  rw [← map_text_layout] at h
  obtain ⟨w, hw, rfl⟩ := List.mem_map.1 h
  rcases mem_layout hw with rfl | ⟨d, hd, rfl | ⟨p, hp, rfl⟩⟩
  · exact Or.inl (by decide)
  · exact Or.inl fun hc => (ne_of_mem_headingOf hc).1 rfl
  · exact Or.inr ⟨d, hd, hp⟩

theorem mem_writtenTexts_of_mem_split {d : Chunk} {p : Text} (hd : d ∈ cs)
    (hp : p ∈ Paragraph.split d.text) : p ∈ writtenTexts cs := by
  rw [← map_text_layout]
  exact List.mem_map.2 ⟨.plain p, plain_mem_layout hd hp, rfl⟩

theorem isSolid_of_mem_references {r : Text} (h : r ∈ references) : Text.IsSolid r := by
  have hall : references.all fun r => !r.isEmpty && r.all (!isBlank ·) := by decide
  have hr := List.all_eq_true.1 hall r h
  rw [Bool.and_eq_true, Bool.not_eq_true', List.isEmpty_eq_false_iff, List.all_eq_true] at hr
  exact ⟨hr.1, fun c hc => by simpa using hr.2 c hc⟩

/-- Every text is left as it was written exactly if no chunk has the name of a character in it. -/
theorem forall_unescape_writtenTexts_iff (cs : List Chunk) :
    (∀ t ∈ writtenTexts cs, unescape t = t) ↔ ∀ d ∈ cs, ∀ r ∈ references, ¬ r <:+: d.text := by
  constructor
  · intro h d hd r hr hi
    obtain ⟨p, hp, hrp⟩ :=
      (Paragraph.exists_infix_paragraph_iff (isSolid_of_mem_references hr)).2 hi
    exact unescape_eq_self_iff.1 (h p (mem_writtenTexts_of_mem_split hd hp)) r hr hrp
  · intro h t ht
    rcases mem_writtenTexts ht with hamp | ⟨d, hd, hp⟩
    · exact unescape_of_not_mem hamp
    · refine unescape_eq_self_iff.2 fun r hr hrp => h d hd r hr ?_
      exact (Paragraph.exists_infix_paragraph_iff (isSolid_of_mem_references hr)).1 ⟨t, hp, hrp⟩

theorem ofDocx_write_bodyOf_eq_writtenTexts_iff
    (h : (Package.write (bodyOf cs)).length < 2 ^ 32) :
    Extraction.ofDocx (Package.write (bodyOf cs)).toByteArray =
        .ok { lines := Line.split (Text.joinWith ['\n'] (writtenTexts cs)) } ↔
      ∀ d ∈ cs, ∀ r ∈ references, ¬ r <:+: d.text := by
  rw [ofDocx_write_bodyOf h, ← forall_unescape_writtenTexts_iff,
    ← Text.joinWith_map_eq_iff length_unescape_le ['\n'], ← Line.split_inj]
  simp

/-- A document that is made from chunks of characters that XML allows has markup of such characters.
It is read, and its lines are those of the texts that were written, with the names of characters in
them replaced once more; that is, those of the texts themselves exactly if no chunk has such a name
in it. -/
theorem ofDocx_write_bodyOf_eq_iff (cs : List Chunk) (hlegal : ∀ d ∈ cs, Xml.IsLegal d.text)
    (h : (Package.write (bodyOf cs)).length < 2 ^ 32) :
    Xml.IsLegal (Xml.printDocument (bodyOf cs).document) ∧
      Extraction.ofDocx (Package.write (bodyOf cs)).toByteArray =
        .ok { lines := Line.split (Text.joinWith ['\n'] ((writtenTexts cs).map unescape)) } ∧
      (Extraction.ofDocx (Package.write (bodyOf cs)).toByteArray =
          .ok { lines := Line.split (Text.joinWith ['\n'] (writtenTexts cs)) } ↔
        ∀ d ∈ cs, ∀ r ∈ references, ¬ r <:+: d.text) :=
  ⟨isLegal_printDocument_bodyOf hlegal, ofDocx_write_bodyOf h,
    ofDocx_write_bodyOf_eq_writtenTexts_iff h⟩

/-- Two chunks, with a reference in neither. -/
theorem ofDocx_write_bodyOf_two_chunks :
    (∀ d ∈ [(⟨1, "a".toList⟩ : Chunk), ⟨2, "b & c".toList⟩], Xml.IsLegal d.text) ∧
      (Package.write (bodyOf [⟨1, "a".toList⟩, ⟨2, "b & c".toList⟩])).length < 2 ^ 32 ∧
      Extraction.ofDocx
          (Package.write (bodyOf [⟨1, "a".toList⟩, ⟨2, "b & c".toList⟩])).toByteArray =
        .ok { lines := ["Part 1\n".toList, "a\n".toList, "\n".toList, "\n".toList,
          "Part 2\n".toList, "b & c".toList] } := by
  have hlegal : ∀ d ∈ [(⟨1, "a".toList⟩ : Chunk), ⟨2, "b & c".toList⟩], Xml.IsLegal d.text := by
    decide
  have hlen : (Package.write (bodyOf [⟨1, "a".toList⟩, ⟨2, "b & c".toList⟩])).length < 2 ^ 32 :=
    (Package.length_write_le _).trans_lt (Nat.add_lt_of_lt_sub (by decide +kernel))
  have hnone : ∀ d ∈ [(⟨1, "a".toList⟩ : Chunk), ⟨2, "b & c".toList⟩], ∀ r ∈ references,
      ¬ r <:+: d.text := by decide +kernel
  obtain ⟨-, -, hiff⟩ := ofDocx_write_bodyOf_eq_iff _ hlegal hlen
  refine ⟨hlegal, hlen, (hiff.2 hnone).trans ?_⟩
  decide +kernel

/-- A chunk that is a reference is not read as it was written, although XML allows its
characters. -/
theorem ofDocx_write_bodyOf_reference_ne : Xml.IsLegal "&lt;".toList ∧
    Extraction.ofDocx (Package.write (bodyOf [⟨1, "&lt;".toList⟩])).toByteArray ≠
      .ok { lines := Line.split (Text.joinWith ['\n'] (writtenTexts [⟨1, "&lt;".toList⟩])) } := by
  have hlen : (Package.write (bodyOf [⟨1, "&lt;".toList⟩])).length < 2 ^ 32 :=
    (Package.length_write_le _).trans_lt (Nat.add_lt_of_lt_sub (by decide +kernel))
  refine ⟨by decide, fun h => ?_⟩
  have hnone := (ofDocx_write_bodyOf_eq_writtenTexts_iff hlen).1 h
  exact hnone _ (.head _) "&lt;".toList (by decide) (List.infix_refl _)

end Quire.Word
