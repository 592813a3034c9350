import Mathlib.Data.List.Infix
import Mathlib.Data.List.TakeWhile
import Quire.Paragraph
import Quire.Proofs.Intercalate
import Quire.Proofs.Line
import Quire.Proofs.Text.Words

/-!
# Paragraphs and their words

Lines end in white space, so that the words of a text are those of its lines
(`Line.flatMap_words_split`). The paragraphs are gathered from the groups of lines between the blank
ones (`split_eq_map_groups`). Blank lines have no words, and the groups put together are the other
lines (`flatten_groups`), so the words of a text are also those of its paragraphs
(`flatMap_words_split`). A paragraph has words and no line breaks.
-/

namespace Quire

namespace Text

variable {t : Text}

theorem trim_eq_nil_iff : trim t = [] ↔ ∀ c ∈ t, isBlank c := by
  have hend (u : Text) : trimEnd u = [] ↔ ∀ c ∈ u, isBlank c := by
    rw [trimEnd, List.reverse_eq_nil_iff, List.dropWhile_eq_nil_iff]
    simp only [List.mem_reverse]
  rw [trim, hend]
  constructor
  · intro h
    apply List.dropWhile_eq_nil_iff.1
    by_contra hne
    exact head?_trimStart t _ (List.head_mem_head? hne) (h _ (List.head_mem hne))
  · exact fun h c hc => h c ((trimStart_isSuffix t).subset hc)

end Text

namespace Line

theorem AreLines.words_flatten {ls : List Text} (h : AreLines ls) :
    Text.words ls.flatten = ls.flatMap Text.words := by
  induction ls with
  | nil => rfl
  | cons l ls ih =>
    obtain ⟨⟨-, ht⟩, hls⟩ := areLines_cons.1 h
    rw [List.flatten_cons, List.flatMap_cons, ← ih hls]
    by_cases hne : ls = []
    · subst hne
      rw [List.flatten_nil, List.append_nil, Text.words_nil, List.append_nil]
    · have hb := isBlank_of_mem_terminator l
      have hl : Text.words l = Text.words (body l) := by
        have := Text.words_append_of_blank hb (ht hne) (body l) []
        rwa [List.append_nil, body_append_terminator, Text.words_nil, List.append_nil] at this
      rw [hl, ← Text.words_append_of_blank hb (ht hne), body_append_terminator]

theorem flatMap_words_split (t : Text) : (split t).flatMap Text.words = Text.words t := by
  rw [← (areLines_split t).words_flatten, flatten_split]

end Line

namespace Paragraph

variable {m p t w : Text} {g lines : List Text} {s : Reading}

theorem isBlankLine_iff {line : Text} : isBlankLine line ↔ Text.words line = [] := by
  rw [isBlankLine, List.isEmpty_iff, Text.trim_eq_nil_iff, Text.words_eq_nil_iff]

/-! ### Groups -/

/-- The maximal runs of lines that are not blank. -/
def groups (lines : List Text) : List (List Text) :=
  (lines.splitOnP isBlankLine).filter (!·.isEmpty)

theorem groups_append_cons (hm : isBlankLine m) (ls ls' : List Text) :
    groups (ls ++ m :: ls') = groups ls ++ groups ls' := by
  rw [groups, List.splitOnP_append_cons ls ls' hm, List.filter_append]
  rfl

theorem groups_of_not_blank (h : ∀ l ∈ lines, ¬ isBlankLine l) (hne : lines ≠ []) :
    groups lines = [lines] := by
  rw [groups, List.splitOnP_eq_singleton fun l hl => eq_false_of_ne_true (h l hl)]
  simpa using hne

theorem flatten_groups (lines : List Text) :
    (groups lines).flatten = lines.filter (!isBlankLine ·) := by
  rw [groups, List.flatten_filter_not_isEmpty, List.flatten_splitOnP]

theorem flatMap_words_groups (lines : List Text) :
    (groups lines).flatten.flatMap Text.words = lines.flatMap Text.words := by
  rw [flatten_groups]
  induction lines with
  | nil => rfl
  | cons line lines ih =>
    rw [List.filter_cons, List.flatMap_cons, ← ih]
    cases hb : isBlankLine line
    · rfl
    · rw [isBlankLine_iff.1 hb]
      rfl

/-- A group has words. -/
theorem flatMap_words_ne_nil_of_mem_groups (h : g ∈ groups lines) : g.flatMap Text.words ≠ [] := by
  have hne : g ≠ [] := by simpa using (List.mem_filter.1 h).2
  obtain ⟨line, hl⟩ := List.exists_mem_of_ne_nil g hne
  have hm := List.mem_flatten_of_mem h hl
  rw [flatten_groups] at hm
  intro hw
  have hblank := isBlankLine_iff.2 (List.flatMap_eq_nil_iff.1 hw line hl)
  simp [hblank] at hm

/-! ### The paragraphs of a text -/

theorem Reading.done_flush (h : ∀ l ∈ s.current, ¬ isBlankLine l) :
    s.flush.done = s.done ++ (groups s.current).map ofLines := by
  obtain ⟨done, current⟩ := s
  cases current with
  | nil => exact (List.append_nil done).symm
  | cons l ls =>
    rw [groups_of_not_blank h (List.cons_ne_nil l ls)]
    rfl

theorem Reading.current_flush (s : Reading) : s.flush.current = [] := by
  unfold flush
  split
  · next h => exact List.isEmpty_iff.1 h
  · rfl

/-- The lines that are gathered are those after the last blank one. -/
theorem Reading.done_flush_foldl_push (lines : List Text) (h : ∀ l ∈ s.current, ¬ isBlankLine l) :
    (lines.foldl push s).flush.done = s.done ++ (groups (s.current ++ lines)).map ofLines := by
  induction lines generalizing s with
  | nil => rw [List.foldl_nil, done_flush h, List.append_nil]
  | cons line lines ih =>
    rw [List.foldl_cons, push]
    by_cases hb : isBlankLine line
    · have hcurrent : ∀ l ∈ s.flush.current, ¬ isBlankLine l := by
        rw [current_flush]
        exact List.forall_mem_nil _
      rw [if_pos hb, ih hcurrent, current_flush, done_flush h, groups_append_cons hb,
        List.nil_append, List.map_append, List.append_assoc]
    · have hcurrent : ∀ l ∈ s.current ++ [line], ¬ isBlankLine l :=
        List.forall_mem_append.2 ⟨h, List.forall_mem_singleton.2 hb⟩
      rw [if_neg hb, ih hcurrent, List.append_assoc, List.singleton_append]

/-- The paragraphs are made from the groups of lines that are not blank. -/
theorem split_eq_map_groups (t : Text) : split t = (groups (Line.split t)).map ofLines :=
  Reading.done_flush_foldl_push (Line.split t) (List.forall_mem_nil _)

theorem exists_of_mem_split (h : p ∈ split t) : ∃ g ∈ groups (Line.split t), ofLines g = p := by
  rw [split_eq_map_groups] at h
  exact List.mem_map.1 h

theorem isSolid_of_mem_flatMap_words (h : w ∈ lines.flatMap Text.words) : Text.IsSolid w := by
  obtain ⟨line, -, hw⟩ := List.mem_flatMap.1 h
  exact Text.isSolid_of_mem_words hw

theorem words_ofLines (lines : List Text) :
    Text.words (ofLines lines) = lines.flatMap Text.words :=
  Text.words_joinWith fun _ => isSolid_of_mem_flatMap_words

theorem flatMap_words_split (t : Text) : (split t).flatMap Text.words = Text.words t := by
  rw [split_eq_map_groups, List.flatMap_map, ← Line.flatMap_words_split, ← flatMap_words_groups,
    ← List.flatMap_id', List.flatMap_assoc]
  exact congrArg (groups (Line.split t)).flatMap (funext words_ofLines)

theorem words_ne_nil_of_mem_split (h : p ∈ split t) : Text.words p ≠ [] := by
  obtain ⟨g, hg, rfl⟩ := exists_of_mem_split h
  rw [words_ofLines]
  exact flatMap_words_ne_nil_of_mem_groups hg

theorem ne_nil_of_mem_split (h : p ∈ split t) : p ≠ [] := by
  rintro rfl
  exact words_ne_nil_of_mem_split h rfl

/-- The only white space of a paragraph is spaces. -/
theorem eq_space_of_mem_split {c : Char} (h : p ∈ split t) (hc : c ∈ p) (hb : isBlank c) :
    c = ' ' := by
  obtain ⟨g, -, rfl⟩ := exists_of_mem_split h
  rcases List.mem_intercalate hc with hc | ⟨w, hw, hc⟩
  · exact List.mem_singleton.1 hc
  · exact absurd hb ((isSolid_of_mem_flatMap_words hw).visible c hc)

theorem unbroken_of_mem_split (h : p ∈ split t) : Line.Unbroken p :=
  Line.unbroken_of_spaces fun _ => eq_space_of_mem_split h

/-- A solid text is a piece of a paragraph exactly if it is one of the text. -/
theorem exists_infix_paragraph_iff (h : Text.IsSolid w) :
    (∃ p ∈ split t, w <:+: p) ↔ w <:+: t := by
  rw [← Text.exists_infix_word_iff h, ← flatMap_words_split]
  constructor
  · rintro ⟨p, hp, hw⟩
    obtain ⟨v, hv, hwv⟩ := (Text.exists_infix_word_iff h).2 hw
    exact ⟨v, List.mem_flatMap.2 ⟨p, hp, hv⟩, hwv⟩
  · rintro ⟨v, hv, hwv⟩
    obtain ⟨p, hp, hv⟩ := List.mem_flatMap.1 hv
    exact ⟨p, hp, (Text.exists_infix_word_iff h).1 ⟨v, hv, hwv⟩⟩

/-- What a paragraph has besides spaces is in the text. -/
theorem eq_space_or_mem_of_mem_split {c : Char} (h : p ∈ split t) (hc : c ∈ p) :
    c = ' ' ∨ c ∈ t := by
  by_cases hb : isBlank c
  · exact Or.inl (eq_space_of_mem_split h hc hb)
  · have hsolid : Text.IsSolid [c] := ⟨List.cons_ne_nil c [], List.forall_mem_singleton.2 hb⟩
    have hinfix := (exists_infix_paragraph_iff hsolid).1 ⟨p, h, (List.singleton_infix_iff c p).2 hc⟩
    exact Or.inr ((List.singleton_infix_iff c t).1 hinfix)

end Paragraph

end Quire
