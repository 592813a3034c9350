import Quire.Proofs.Line.Segmentation
import Quire.Proofs.Paragraph
import Quire.Proofs.Runs
import Quire.Proofs.Text.Collapse

/-!
# Paragraphs as a normal form

The groups of lines that become paragraphs are the runs of lines that are not blank
(`groups_eq_filter_runs`), and a paragraph is a collapsed text that is not empty
(`isCollapsed_of_mem_split`). Every list of such texts, put together with blank lines in between, has
these texts as its paragraphs (`split_joinWith`). A blank line at the end of a text keeps its
paragraphs apart from those of what follows (`split_append`).
-/

namespace Quire.Paragraph

variable {a b p t : Text} {l m : Text} {g ls ls' : List Text} {ps : List Text}

/-! ### Groups -/

theorem groups_eq_filter_runs (ls : List Text) :
    groups ls = (runs isBlankLine ls).filter (!·.all isBlankLine) :=
  filter_splitOnP isBlankLine ls

theorem groups_of_blank (h : ∀ l ∈ ls, isBlankLine l) : groups ls = [] := by
  rw [groups_eq_filter_runs, List.filter_eq_nil_iff]
  intro g hg
  have hall : g.all isBlankLine := List.all_eq_true.2 fun l hl => by
    apply h l
    rw [← flatten_runs isBlankLine ls]
    exact List.mem_flatten_of_mem hg hl
  simp [hall]

/-- The groups of some lines are kept apart from those of the next ones by a blank line at the
end. -/
theorem groups_append (h : ∀ l ∈ ls.getLast?, isBlankLine l) (ls' : List Text) :
    groups (ls ++ ls') = groups ls ++ groups ls' := by
  rcases List.eq_nil_or_concat' ls with rfl | ⟨init, l, rfl⟩
  · rfl
  · have hl : isBlankLine l := h l (by simp)
    have hinit : groups (init ++ [l]) = groups init ++ groups [] := groups_append_cons hl init []
    rw [List.append_assoc, List.singleton_append, groups_append_cons hl, hinit,
      groups_of_blank (fun _ h => absurd h List.not_mem_nil), List.append_nil]

/-- A line that is not blank is a group if only blank lines follow it. -/
theorem groups_cons_of_blank (hl : ¬ isBlankLine l) (hls : ∀ m ∈ ls, isBlankLine m) :
    groups (l :: ls) = [[l]] := by
  have hsingle : groups [l] = [[l]] :=
    groups_of_not_blank (List.forall_mem_singleton.2 hl) (List.cons_ne_nil l [])
  cases ls with
  | nil => exact hsingle
  | cons m ls =>
    obtain ⟨hm, hls⟩ := List.forall_mem_cons.1 hls
    have happ := groups_append_cons hm [l] ls
    rwa [hsingle, groups_of_blank hls, List.append_nil] at happ

/-! ### Paragraphs of texts in a row -/

theorem split_append (hab : Line.split (a ++ b) = Line.split a ++ Line.split b)
    (ha : ∀ l ∈ (Line.split a).getLast?, isBlankLine l) : split (a ++ b) = split a ++ split b := by
  rw [split_eq_map_groups, hab, groups_append ha, List.map_append, ← split_eq_map_groups,
    ← split_eq_map_groups]

theorem split_of_split_eq_cons (h : Line.split t = l :: ls) (hl : ¬ isBlankLine l)
    (hls : ∀ m ∈ ls, isBlankLine m) : split t = [Text.joinWith [' '] (Text.words l)] := by
  rw [split_eq_map_groups, h, groups_cons_of_blank hl hls, List.map_singleton, ofLines, List.flatMap_singleton]

/-! ### Texts that are paragraphs -/

theorem isCollapsed_of_mem_split (h : p ∈ split t) : Text.IsCollapsed p := by
  obtain ⟨g, -, rfl⟩ := exists_of_mem_split h
  exact Text.isCollapsed_joinWith fun _ => isSolid_of_mem_flatMap_words

theorem words_ne_nil_of_isCollapsed (h : Text.IsCollapsed p) (hne : p ≠ []) :
    Text.words p ≠ [] := by
  intro hw
  have hp := h.joinWith_words
  rw [hw] at hp
  exact hne hp.symm

/-- A collapsed text is its own only paragraph, also when blank lines follow it. -/
theorem split_append_of_split_eq_cons {e : Text} (h : Text.IsCollapsed p) (hne : p ≠ [])
    (he : Line.split (p ++ e) = (p ++ m) :: ls) (hm : ∀ c ∈ m, isBlank c)
    (hls : ∀ l ∈ ls, isBlankLine l) : split (p ++ e) = [p] := by
  have hw : Text.words (p ++ m) = Text.words p := Text.words_append_right hm p
  rw [split_of_split_eq_cons he _ hls, hw, h.joinWith_words]
  rw [isBlankLine_iff, hw]
  exact words_ne_nil_of_isCollapsed h hne

theorem split_of_isCollapsed (h : Text.IsCollapsed p) (hne : p ≠ []) : split p = [p] := by
  have hline : Line.split (p ++ []) = [p ++ []] := by
    rw [List.append_nil]
    exact Line.split_of_unbroken (Line.unbroken_of_spaces h.spaces) hne
  have hp := split_append_of_split_eq_cons h hne hline (fun _ h => absurd h List.not_mem_nil)
    fun _ h => absurd h List.not_mem_nil
  rwa [List.append_nil] at hp

theorem split_line_feeds (h : Text.IsCollapsed p) :
    Line.split (p ++ ['\n', '\n']) = [p ++ ['\n'], ['\n']] :=
  Line.split_append (Line.unbroken_of_spaces h.spaces) rfl

theorem split_append_line_feeds (h : Text.IsCollapsed p) (hne : p ≠ []) :
    split (p ++ ['\n', '\n']) = [p] :=
  split_append_of_split_eq_cons h hne (split_line_feeds h)
    (List.forall_mem_singleton.2 (by decide)) (List.forall_mem_singleton.2 (by decide))

/-- Texts that are collapsed and not empty are the paragraphs of the text that they make with blank
lines in between. -/
theorem split_joinWith (h : ∀ p ∈ ps, p ≠ [] ∧ Text.IsCollapsed p) :
    split (Text.joinWith ['\n', '\n'] ps) = ps := by
  induction ps with
  | nil => rfl
  | cons p ps ih =>
    obtain ⟨⟨hne, hp⟩, hps⟩ := List.forall_mem_cons.1 h
    cases ps with
    | nil => rw [Text.joinWith_singleton, split_of_isCollapsed hp hne]
    | cons q ps =>
      have hseam : ∀ u, Line.split (p ++ ['\n', '\n'] ++ u) =
          Line.split (p ++ ['\n', '\n']) ++ Line.split u := by
        intro u
        apply Line.split_append_iff.2
        refine Or.inr ⟨Or.inr (Or.inl (by simp)), fun ht => ?_⟩
        exact absurd ht.1 (by simp)
      have hlast : ∀ l ∈ (Line.split (p ++ ['\n', '\n'])).getLast?, isBlankLine l := by
        rw [split_line_feeds hp, List.getLast?_cons_cons]
        exact fun l hl => Option.mem_some_iff.1 hl ▸ by decide
      rw [Text.joinWith_cons_cons, split_append (hseam _) hlast, split_append_line_feeds hp hne,
        ih hps]
      rfl

/-- A text has one paragraph for each run of lines that are not blank, made of the words of that
run, and the paragraphs are collapsed and not empty; put together with blank lines in between they
are the paragraphs of the text that this gives. If the lines of two texts are those of the first and
then those of the second, and the first one ends in a blank line, the same is true of their
paragraphs. -/
theorem split_canonical (t a b : Text) :
    split t = (((runs isBlankLine (Line.split t)).filter (!·.all isBlankLine)).map fun g =>
      Text.joinWith [' '] (g.flatMap Text.words)) ∧
    (∀ p ∈ split t, p ≠ [] ∧ Text.IsCollapsed p) ∧
    split (Text.joinWith ['\n', '\n'] (split t)) = split t ∧
    (Line.split (a ++ b) = Line.split a ++ Line.split b →
      (∀ l ∈ (Line.split a).getLast?, isBlankLine l) → split (a ++ b) = split a ++ split b) := by
  have hp : ∀ p ∈ split t, p ≠ [] ∧ Text.IsCollapsed p := fun p hp =>
    ⟨ne_nil_of_mem_split hp, isCollapsed_of_mem_split hp⟩
  refine ⟨?_, hp, split_joinWith hp, fun hab ha => split_append hab ha⟩
  rw [split_eq_map_groups, groups_eq_filter_runs]
  rfl

/-- A line of spaces keeps the two apart, and the empty line after it adds nothing. -/
theorem split_canonical_blank_line :
    let a : Text := ['o', 'n', 'e', '\r', '\n', ' ', '\r', '\n']
    let b : Text := ['\n', 't', 'w', 'o', '\r', '\t', '3', '\u00A0']
    Line.split (a ++ b) = Line.split a ++ Line.split b ∧
      (∀ l ∈ (Line.split a).getLast?, isBlankLine l) ∧
      split (a ++ b) = split a ++ split b ∧
      split a = [['o', 'n', 'e']] ∧ split b = [['t', 'w', 'o', ' ', '3']] := by
  intro a b
  have hab : Line.split (a ++ b) = Line.split a ++ Line.split b := by decide
  have ha : ∀ l ∈ (Line.split a).getLast?, isBlankLine l := by decide
  exact ⟨hab, ha, (split_canonical a a b).2.2.2 hab ha, by decide, by decide⟩

end Quire.Paragraph
