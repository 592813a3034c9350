import Quire.Proofs.Cleaning.Clean
import Quire.Proofs.Paragraph.Canonical

/-!
# Paragraphs of cleaned texts

Collapsing a text and making a paragraph of some lines are the same: the paragraph is the lines put
together and collapsed (`ofLines_eq_collapse`). If a cleaned text had its white space collapsed line
by line, nothing is left to do inside a line, and a paragraph is made of the bodies of its lines as
they are (`ofLines_eq_joinWith_body`).
-/

namespace Quire

theorem Line.words_body (l : Text) : Text.words (body l) = Text.words l := by
  rw [← Text.words_append_right (isBlank_of_mem_terminator l), body_append_terminator]

/-- Whatever line of the cleaned text is looked at, no rule has anything left to do in it. -/
theorem Rules.isNormal_body_of_mem_split_clean {r : Rules} {l t : Text}
    (h : l ∈ Line.split (r.clean (Line.split t)).text) : r.IsNormal (Line.body l) := by
  rw [split_clean] at h
  obtain ⟨m, hm, he⟩ := Line.exists_body_eq_of_mem_fuse (r.areLines_filledLines t) h
  rw [he]
  exact isNormal_body_of_mem_normalLines (mem_filledLines_iff.1 hm).1

namespace Paragraph

variable {l t : Text} {g ls : List Text}

/-! ### Lines that become a paragraph -/

theorem ofLines_eq_collapse (h : Line.AreLines g) : ofLines g = Text.collapse g.flatten := by
  rw [ofLines, Text.collapse_eq_joinWith, h.words_flatten]

/-- The words of a line with a collapsed body are the body again when they are put together. -/
theorem ofLines_eq_joinWith_body (hb : ∀ l ∈ g, Text.IsCollapsed (Line.body l))
    (hw : ∀ l ∈ g, ¬ isBlankLine l) : ofLines g = Text.joinWith [' '] (g.map Line.body) := by
  have hne : ∀ ws ∈ g.map Text.words, ws ≠ [] := by
    rw [List.forall_mem_map]
    exact fun l hl hnil => hw l hl (isBlankLine_iff.2 hnil)
  rw [ofLines, Text.joinWith, List.flatMap_def, List.intercalate_flatten hne, List.map_map]
  refine congrArg [' '].intercalate (List.map_congr_left fun l hl => ?_)
  rw [Function.comp_apply, ← Line.words_body]
  exact (hb l hl).joinWith_words

/-! ### Runs of lines that are not blank -/

theorem areLines_of_mem_runs (h : g ∈ runs isBlankLine (Line.split t)) : Line.AreLines g := by
  have hg := List.infix_of_mem_flatten h
  rw [flatten_runs] at hg
  exact (Line.areLines_split t).sublist hg.sublist

theorem not_isBlankLine_of_mem_run (h : g ∈ (runs isBlankLine ls).filter (!·.all isBlankLine))
    (hl : l ∈ g) : ¬ isBlankLine l := by
  obtain ⟨hg, hall⟩ := List.mem_filter.1 h
  intro hb
  rw [(areRuns_runs isBlankLine ls).all_eq hg hl, hb] at hall
  exact absurd hall (by decide)

/-- A text is collapsed by putting its words together with single spaces, and its paragraphs are the
runs of lines that are not blank, collapsed. In a text that was cleaned and had its white space
collapsed, they are the bodies of these lines, unchanged, with single spaces between them. -/
theorem collapse_agrees (r : Rules) (t : Text) :
    Text.collapse t = Text.joinWith [' '] (Text.words t) ∧
    split t = ((runs isBlankLine (Line.split t)).filter (!·.all isBlankLine)).map
      (fun g => Text.collapse g.flatten) ∧
    (r.collapseBlanks → split (r.clean (Line.split t)).text =
      ((runs isBlankLine (Line.split (r.clean (Line.split t)).text)).filter
        (!·.all isBlankLine)).map fun g => Text.joinWith [' '] (g.map Line.body)) := by
  refine ⟨Text.collapse_eq_joinWith t, ?_, fun hr => ?_⟩
  · rw [split_eq_map_groups, groups_eq_filter_runs]
    refine List.map_congr_left fun g hg => ofLines_eq_collapse ?_
    exact areLines_of_mem_runs (List.mem_filter.1 hg).1
  · rw [split_eq_map_groups, groups_eq_filter_runs]
    refine List.map_congr_left fun g hg => ofLines_eq_joinWith_body (fun l hl => ?_) fun l hl => ?_
    · have hrun := List.infix_of_mem_flatten (List.mem_filter.1 hg).1
      rw [flatten_runs] at hrun
      exact (Rules.isNormal_body_of_mem_split_clean (hrun.subset hl)).blanks hr
    · exact not_isBlankLine_of_mem_run hg hl

/-- Two lines make the first paragraph; what separates it from the next one is a line of white
space, of which cleaning leaves the line feed. -/
theorem collapse_agrees_two_runs :
    let r : Rules := {}
    let t : Text := ['[', '[', 'a', ']', ']', '\t', '\u00A0', 'b', ' ', '\r', '\n', 'c', '\r', '\n',
      '\u3000', '\n', ' ', 'd', ' ', ' ', 'e']
    let cleaned := (r.clean (Line.split t)).text
    r.collapseBlanks ∧
      split cleaned = ((runs isBlankLine (Line.split cleaned)).filter (!·.all isBlankLine)).map
        (fun g => Text.joinWith [' '] (g.map Line.body)) ∧
      split cleaned = [['a', ' ', 'b', ' ', 'c'], ['d', ' ', 'e']] := by
  intro r t cleaned
  have hr : r.collapseBlanks := by decide
  exact ⟨hr, (collapse_agrees r t).2.2 hr, by decide +kernel⟩

end Paragraph

end Quire
