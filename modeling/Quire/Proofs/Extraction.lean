import Quire.Extraction
import Quire.Proofs.Line.Segmentation
import Quire.Proofs.Text.Words

/-!
# The lines of pages and of paragraphs

A line feed after a text ends a line, whatever the text ends in and whatever comes next
(`Line.split_append_lf_append`). Pages are followed by line feeds and paragraphs have them in
between, so that no line has text of two of them: the lines of a file are those of its pages
(`Page.lines`), and the lines of a body those of its paragraphs (`Extraction.lines_apart`).
-/

namespace Quire

theorem Line.split_append_lf_append (t u : Text) :
    split (t ++ '\n' :: u) = split (t ++ ['\n']) ++ split u := by
  rw [List.append_cons, split_append_iff]
  refine Or.inr ⟨Or.inr (Or.inl (by simp)), fun h => ?_⟩
  exact absurd h.1 (by simp)

/-- A text in which a line feed follows has a last line, which ends in that line feed. -/
theorem Line.exists_split_append_lf (t : Text) :
    ∃ ls l, split (t ++ ['\n']) = ls ++ [l ++ ['\n']] := by
  obtain ⟨ls, l, hl⟩ := (List.eq_nil_or_concat' (split (t ++ ['\n']))).resolve_left
    fun h => List.concat_ne_nil '\n' t (split_eq_nil_iff.1 h)
  have hne : l ≠ [] := ne_nil_of_mem_split (t := t ++ ['\n']) (by simp [hl])
  obtain ⟨init, c, rfl⟩ := (List.eq_nil_or_concat' l).resolve_left hne
  have hflatten := flatten_split (t ++ ['\n'])
  rw [hl, List.flatten_append, List.flatten_singleton, ← List.append_assoc] at hflatten
  obtain rfl : c = '\n' := by simpa using congrArg List.getLast? hflatten
  exact ⟨ls, init, hl⟩

namespace Page

variable {p : Page}

/-- The text of a page, which is empty if the page failed. -/
def text (p : Page) : Text :=
  match p.result with
  | .ok t => t
  | .error _ => []

/-- The failure of a page, if it failed. -/
def failure? (p : Page) : Option PageFailure :=
  match p.result with
  | .ok _ => none
  | .error message => some ⟨p.number, message⟩

theorem addTo_eq (read : Text × List PageFailure) (p : Page) :
    addTo read p = (read.1 ++ p.text ++ ['\n'], read.2 ++ p.failure?.toList) := by
  obtain ⟨number, result⟩ := p
  cases result with
  | ok t => exact congrArg (_, ·) (List.append_nil read.2).symm
  | error message => exact congrArg (· ++ ['\n'], _) (List.append_nil read.1).symm

theorem foldl_addTo (ps : List Page) (read : Text × List PageFailure) :
    ps.foldl addTo read =
      (read.1 ++ ps.flatMap (fun p => p.text ++ ['\n']), read.2 ++ ps.filterMap failure?) := by
  induction ps generalizing read with
  | nil => rw [List.foldl_nil, List.flatMap_nil, List.filterMap_nil, List.append_nil, List.append_nil]
  | cons p ps ih =>
    rw [List.foldl_cons, ih, addTo_eq, List.flatMap_cons, List.filterMap_cons]
    cases p.failure? <;> simp

/-- Pages are joined as their texts with line feeds, and the failures of those that failed. -/
theorem join_eq (ps : List Page) :
    join ps = (ps.flatMap fun p => p.text ++ ['\n'], ps.filterMap failure?) := foldl_addTo ps ([], [])

/-- The lines of a page: those of its text, or of the empty text if it failed, and a line feed. -/
def lines (p : Page) : List Text := Line.split (p.text ++ ['\n'])

/-- Whether a page has no text. -/
def failed (p : Page) : Bool :=
  match p.result with
  | .ok _ => false
  | .error _ => true

theorem split_join (ps : List Page) : Line.split (join ps).1 = ps.flatMap lines := by
  induction ps with
  | nil => rfl
  | cons p ps ih =>
    have hjoin : (join (p :: ps)).1 = p.text ++ '\n' :: (join ps).1 := by
      simp [join_eq]
    rw [hjoin, Line.split_append_lf_append, ih]
    rfl

theorem split_join_append_cons (before after : List Page) (p : Page) :
    Line.split (join (before ++ p :: after)).1 =
      before.flatMap lines ++ (p.lines ++ after.flatMap lines) := by
  rw [split_join, List.flatMap_append, List.flatMap_cons]

/-- The failures are those of the pages that failed, in order. -/
theorem forall₂_failures (ps : List Page) :
    List.Forall₂ (fun p f => p.result = .error f.message ∧ p.number = f.page)
      (ps.filter failed) (join ps).2 := by
  rw [join_eq]
  induction ps with
  | nil => exact .nil
  | cons p ps ih =>
    obtain ⟨number, result⟩ := p
    cases result with
    | ok t => exact ih
    | error message => exact .cons ⟨rfl, rfl⟩ ih

end Page

/-- The lines of texts with line feeds in between. -/
theorem Line.split_joinWith_lf (ts : List Text) :
    split (Text.joinWith ['\n'] ts) =
      ts.dropLast.flatMap (fun t => split (t ++ ['\n'])) ++ ts.getLast?.toList.flatMap split := by
  induction ts with
  | nil => rfl
  | cons t ts ih =>
    cases ts with
    | nil => simp [Text.joinWith_singleton]
    | cons u ts =>
      have hseam : split (Text.joinWith ['\n'] (t :: u :: ts)) =
          split (t ++ ['\n']) ++ split (Text.joinWith ['\n'] (u :: ts)) := by
        rw [Text.joinWith_cons_cons, ← split_append_lf_append, List.append_assoc]
        rfl
      rw [hseam, ih, List.dropLast_cons_cons, List.flatMap_cons, List.append_assoc,
        List.getLast?_cons_cons]

namespace Extraction

theorem toOption_ofDocx (bytes : ByteArray) :
    (ofDocx bytes).toOption.map lines =
      (Word.Package.read? bytes.data.toList).map Word.Body.lines := by
  unfold ofDocx
  generalize Word.Package.read? bytes.data.toList = b
  cases b with
  | none => rfl
  | some b => rfl

/-- No line has text of two pages. The lines of pages are those of each page in order, of which it
has at least one, and the last one ends in a line feed. Another result of one page changes its lines
and no others, and a page that failed has the line of an empty one. The failures are those of the
pages that failed, each with its number and its message. And no line of a document has text of two
paragraphs: its lines are those of each paragraph with a line feed, without one for the last. -/
theorem lines_apart (ps : List Page) :
    Line.split (Page.join ps).1 = ps.flatMap Page.lines ∧
    (∀ p : Page, ∃ ls l, p.lines = ls ++ [l ++ ['\n']]) ∧
    (∀ before number after, ∀ result : Except Text Text,
      Line.split (Page.join (before ++ ⟨number, result⟩ :: after)).1 =
        before.flatMap Page.lines ++ (Page.lines ⟨number, result⟩ ++ after.flatMap Page.lines)) ∧
    (∀ number message, Page.lines ⟨number, .error message⟩ = Page.lines ⟨number, .ok []⟩) ∧
    List.Forall₂ (fun p f => p.result = .error f.message ∧ p.number = f.page)
      (ps.filter Page.failed) (Page.join ps).2 ∧
    ∀ bytes, (ofDocx bytes).toOption.map lines =
      (Word.Package.read? bytes.data.toList).map fun b =>
        b.paragraphs.dropLast.flatMap (fun t => Line.split (t ++ ['\n'])) ++
          b.paragraphs.getLast?.toList.flatMap Line.split := by
  refine ⟨Page.split_join ps, fun p => Line.exists_split_append_lf p.text, ?_, fun _ _ => rfl,
    Page.forall₂_failures ps, fun bytes => ?_⟩
  · exact fun before number after result => Page.split_join_append_cons before after _
  · have hlines : (Word.Body.lines : Word.Body → List Text) = fun b =>
        b.paragraphs.dropLast.flatMap (fun t => Line.split (t ++ ['\n'])) ++
          b.paragraphs.getLast?.toList.flatMap Line.split :=
      funext fun b => Line.split_joinWith_lf b.paragraphs
    rw [toOption_ofDocx, hlines]

/-- A page that ends in a carriage return, one that failed, and one that begins with a line feed. -/
example :
    let ps : List Page := [⟨1, .ok ['a', '\r']⟩, ⟨2, .error ['?']⟩, ⟨3, .ok ['\n', 'b']⟩]
    Line.split (Page.join ps).1 = [['a', '\r', '\n'], ['\n'], ['\n'], ['b', '\n']] := by
  decide

end Extraction

end Quire
