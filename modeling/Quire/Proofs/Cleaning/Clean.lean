import Quire.Proofs.Chunk
import Quire.Proofs.Cleaning.FrontMatter
import Quire.Proofs.Cleaning.Normal

/-!
# Cleaned texts

`normalLines r t` are the lines of a text that are kept, normalized; put together they are the
cleaned text. They are lines (`areLines_normalLines`) with normal bodies
(`isNormal_body_of_mem_normalLines`), so that no token is left in a line, across lines or in a
chunk. Cut again, the cleaned text gives these lines but for those that fuse (`split_clean`), each
with the body of one of them. So cleaning it again changes no body, and it drops a line only if
one of the bodies is a delimiter.
-/

namespace Quire.Rules

variable {r : Rules} {t line : Text} {lines : List Text}

/-- The lines of a text that are no front matter, normalized. -/
def normalLines (r : Rules) (t : Text) : List Text :=
  (r.keptLines (Line.split t)).map r.normalizeLine

theorem text_clean_split (r : Rules) (t : Text) :
    (r.clean (Line.split t)).text = (r.normalLines t).flatten := rfl

theorem keptLines_sublist (r : Rules) (lines : List Text) : (r.keptLines lines).Sublist lines := by
  unfold keptLines
  split
  · exact FrontMatter.strip_sublist lines
  · exact List.Sublist.refl lines

theorem areLines_keptLines (r : Rules) (t : Text) : Line.AreLines (r.keptLines (Line.split t)) :=
  (Line.areLines_split t).sublist (r.keptLines_sublist _)

/-! ### Normalized lines -/

theorem splitTerminator_normalizeLine (h : Line.Unbroken (Line.body line)) :
    Line.splitTerminator (r.normalizeLine line) =
      (r.normalizeBody (Line.body line), Line.terminator line) :=
  (r.unbroken_normalizeBody h).splitTerminator_append (Line.isTerminator_terminator line)

theorem body_normalizeLine (h : Line.Unbroken (Line.body line)) :
    Line.body (r.normalizeLine line) = r.normalizeBody (Line.body line) := by
  rw [Line.body, splitTerminator_normalizeLine h]

theorem terminator_normalizeLine (h : Line.Unbroken (Line.body line)) :
    Line.terminator (r.normalizeLine line) = Line.terminator line := by
  rw [Line.terminator, splitTerminator_normalizeLine h]

theorem areLines_map_normalizeLine (h : Line.AreLines lines) :
    Line.AreLines (lines.map r.normalizeLine) where
  unbroken := by
    rw [List.forall_mem_map]
    intro line hl
    rw [body_normalizeLine (h.unbroken line hl)]
    exact r.unbroken_normalizeBody (h.unbroken line hl)
  terminated := by
    rw [List.pairwise_map]
    refine h.terminated.imp_of_mem fun hl _ ht => ?_
    rwa [terminator_normalizeLine (h.unbroken _ hl)]

theorem areLines_normalLines (r : Rules) (t : Text) : Line.AreLines (r.normalLines t) :=
  areLines_map_normalizeLine (r.areLines_keptLines t)

theorem isNormal_body_of_mem_normalLines (h : line ∈ r.normalLines t) :
    r.IsNormal (Line.body line) := by
  obtain ⟨l, hl, rfl⟩ := List.mem_map.1 h
  rw [body_normalizeLine ((r.areLines_keptLines t).unbroken l hl)]
  exact isNormal_normalizeBody r _

/-! ### No token is left -/

theorem free_clean_of_free_body {P : Text → Prop} (hP : ∀ w, P w → Text.IsSolid w)
    (h : ∀ line ∈ r.normalLines t, Text.Free P (Line.body line)) (d : Division) :
    Text.Free P (r.clean (Line.split t)).text ∧
      ∀ chunk ∈ Chunk.split (r.clean (Line.split t)).text d, Text.Free P chunk.text := by
  have hc : Text.Free P (r.clean (Line.split t)).text :=
    (r.areLines_normalLines t).free_flatten hP h
  exact ⟨hc, fun chunk hm => hc.of_piece (Chunk.text_infix_of_mem_split hm)⟩

theorem not_mem_terminator (line : Text) : ']' ∉ Line.terminator line := fun h =>
  absurd (Line.isBlank_of_mem_terminator line _ h) (by decide)

/-- Of the tokens that the rules remove none is left: no address and no URL in the cleaned text and
in its chunks, no closed link in a line, and no white space but single spaces inside a line. -/
theorem clean_free (r : Rules) (t : Text) (d : Division) :
    (r.removeEmails → Text.Free Email.Matches (r.clean (Line.split t)).text ∧
      ∀ chunk ∈ Chunk.split (r.clean (Line.split t)).text d, Text.Free Email.Matches chunk.text) ∧
    (r.removeUrls → Text.Free Url.Matches (r.clean (Line.split t)).text ∧
      ∀ chunk ∈ Chunk.split (r.clean (Line.split t)).text d, Text.Free Url.Matches chunk.text) ∧
    (r.removeLinks → ∀ line ∈ r.normalLines t, Text.Free Link.Closed line) ∧
    (r.collapseBlanks → ∀ line ∈ r.normalLines t, Text.IsCollapsed (Line.body line)) := by
  have hn : ∀ line ∈ r.normalLines t, r.IsNormal (Line.body line) :=
    fun line hl => isNormal_body_of_mem_normalLines hl
  refine ⟨fun hr => ?_, fun hr => ?_, fun hr line hl => ?_, fun hr line hl => ?_⟩
  · exact free_clean_of_free_body (fun _ => Email.Matches.isSolid)
      (fun line hl => (hn line hl).emails hr) d
  · exact free_clean_of_free_body (fun _ => Url.Matches.isSolid)
      (fun line hl => (hn line hl).urls hr) d
  · rw [← Line.body_append_terminator line]
    exact Link.free_closed_append ((hn line hl).links hr) (not_mem_terminator line)
  · exact (hn line hl).blanks hr

/-! ### Cutting the cleaned text -/

/-- The normalized lines that are not empty. -/
def filledLines (r : Rules) (t : Text) : List Text := (r.normalLines t).filter (!·.isEmpty)

theorem areLines_filledLines (r : Rules) (t : Text) : Line.AreLines (r.filledLines t) :=
  (r.areLines_normalLines t).sublist List.filter_sublist

theorem mem_filledLines_iff : line ∈ r.filledLines t ↔ line ∈ r.normalLines t ∧ line ≠ [] := by
  simp [filledLines]

/-- Cut again, the cleaned text gives the normalized lines, up to a carriage return and a line feed
that have become neighbours. -/
theorem split_clean (r : Rules) (t : Text) :
    Line.split (r.clean (Line.split t)).text = Line.fuse (r.filledLines t) := by
  have h := Line.split_flatten (r.areLines_filledLines t) fun l hl => (mem_filledLines_iff.1 hl).2
  rwa [filledLines, List.flatten_filter_not_isEmpty, ← text_clean_split] at h

/-- Line structure survives exactly where no kept line ends in a carriage return while all of the
next one, normalized, is a line feed. -/
theorem split_clean_eq_filledLines_iff (r : Rules) (t : Text) :
    (∀ line ∈ (r.normalLines t).dropLast, line ≠ []) ∧
    (Line.split (r.clean (Line.split t)).text = (r.normalLines t).filter (!·.isEmpty) ↔
      ((r.normalLines t).filter (!·.isEmpty)).IsChain fun l m => ¬ Line.Fuses l m) := by
  refine ⟨fun line hl => (r.areLines_normalLines t).ne_nil_of_mem_dropLast hl, ?_⟩
  rw [split_clean, ← filledLines]
  exact Line.fuse_eq_self_iff

/-- Two kept lines become one: collapsing leaves nothing between the carriage return and the line
feed. -/
theorem split_clean_ne_filledLines :
    Line.split (({} : Rules).clean (Line.split ['a', '\r', ' ', '\n', 'b'])).text ≠
      (({} : Rules).normalLines ['a', '\r', ' ', '\n', 'b']).filter (!·.isEmpty) := by
  decide +kernel

/-! ### Cleaning again -/

theorem normalizeLine_eq_self (h : r.IsNormal (Line.body line)) : r.normalizeLine line = line := by
  rw [normalizeLine_eq, h.normalizeBody_eq, Line.body_append_terminator]

theorem length_normalizeLine_le (r : Rules) (line : Text) :
    (r.normalizeLine line).length ≤ line.length := by
  have h := congrArg List.length (Line.body_append_terminator line)
  have := r.length_normalizeBody_le (Line.body line)
  rw [List.length_append] at h
  rw [normalizeLine_eq, List.length_append]
  omega

theorem length_clean_le (r : Rules) (lines : List Text) :
    (r.clean lines).text.length ≤ (r.keptLines lines).flatten.length := by
  show ((r.keptLines lines).map r.normalizeLine).flatten.length ≤ _
  induction r.keptLines lines with
  | nil => exact Nat.le_refl 0
  | cons line lines ih =>
    have := r.length_normalizeLine_le line
    rw [List.map_cons, List.flatten_cons, List.flatten_cons, List.length_append,
      List.length_append]
    omega

theorem clean_eq_self (hk : r.keptLines lines = lines)
    (hn : ∀ line ∈ lines, r.IsNormal (Line.body line)) : (r.clean lines).text = lines.flatten := by
  show ((r.keptLines lines).map r.normalizeLine).flatten = _
  rw [hk, List.map_congr_left fun line hl => normalizeLine_eq_self (hn line hl), List.map_id']

/-- Each non-empty text that is dropped takes a character with it. -/
theorem length_flatten_add_le_of_sublist {ls ls' : List Text} (h : ls'.Sublist ls)
    (hls : ∀ l ∈ ls, l ≠ []) : ls'.flatten.length + ls.length ≤ ls.flatten.length + ls'.length := by
  induction h with
  | slnil => exact Nat.le_refl 0
  | @cons ls' ls l _ ih =>
    obtain ⟨hl, hls⟩ := List.forall_mem_cons.1 hls
    have := ih hls
    have := List.length_pos_iff.2 hl
    simp only [List.flatten_cons, List.length_append, List.length_cons]
    omega
  | @cons_cons ls' ls l _ ih =>
    have := ih (List.forall_mem_cons.1 hls).2
    simp only [List.flatten_cons, List.length_append, List.length_cons]
    omega

/-- Dropping a line makes the cleaned text shorter. -/
theorem keptLines_eq_self_of_clean_eq (h : (r.clean (Line.split t)).text = t) :
    r.keptLines (Line.split t) = Line.split t := by
  have hs := r.keptLines_sublist (Line.split t)
  have h1 := r.length_clean_le (Line.split t)
  have h2 := length_flatten_add_le_of_sublist hs fun l hl => Line.ne_nil_of_mem_split hl
  rw [h] at h1
  rw [Line.flatten_split] at h2
  exact hs.eq_of_length_le (by omega)

theorem keptLines_eq_self_iff : r.keptLines lines = lines ↔
    (r.stripFrontMatter → ∀ line ∈ lines, ¬ FrontMatter.isDelimiter line) := by
  unfold keptLines
  split
  · next hr => exact FrontMatter.strip_eq_self_iff.trans ⟨fun h _ => h, fun h => h hr⟩
  · next hr => exact iff_of_true rfl fun h => absurd h hr

/-- The cleaned text stays as it is when it is cleaned again, unless normalizing has made a kept
line a delimiter of front matter. -/
theorem clean_clean_eq_iff (r : Rules) (t : Text) :
    (r.clean (Line.split (r.clean (Line.split t)).text)).text = (r.clean (Line.split t)).text ↔
      (r.stripFrontMatter → ∀ line ∈ r.normalLines t, ¬ FrontMatter.isDelimiter line) := by
  have hfilled := r.areLines_filledLines t
  constructor
  · intro h hr line hl hd
    have hk := keptLines_eq_self_iff.1 (keptLines_eq_self_of_clean_eq h) hr
    rw [split_clean] at hk
    have hb : Line.body line ≠ [] := by
      intro hb
      rw [FrontMatter.isDelimiter_eq_body, hb] at hd
      exact absurd hd (by decide)
    -- The delimiter is not empty, so its body is found again among the lines of the second run.
    have hline : line ∈ r.filledLines t := by
      refine mem_filledLines_iff.2 ⟨hl, ?_⟩
      rintro rfl
      exact hb rfl
    obtain ⟨m, hm, he⟩ := Line.exists_mem_fuse_of_body_ne_nil hfilled hline hb
    apply hk m hm
    rwa [FrontMatter.isDelimiter_eq_body, he, ← FrontMatter.isDelimiter_eq_body]
  · intro h
    have key : ∀ m ∈ Line.split (r.clean (Line.split t)).text,
        ∃ line ∈ r.normalLines t, Line.body m = Line.body line := by
      intro m hm
      rw [split_clean] at hm
      obtain ⟨line, hl, he⟩ := Line.exists_body_eq_of_mem_fuse hfilled hm
      exact ⟨line, (mem_filledLines_iff.1 hl).1, he⟩
    rw [clean_eq_self, Line.flatten_split]
    · apply keptLines_eq_self_iff.2
      intro hr m hm
      obtain ⟨line, hl, he⟩ := key m hm
      rw [FrontMatter.isDelimiter_eq_body, he, ← FrontMatter.isDelimiter_eq_body]
      exact h hr line hl
    · intro m hm
      obtain ⟨line, hl, he⟩ := key m hm
      rw [he]
      exact isNormal_body_of_mem_normalLines hl

/-- Unwrapping a link can leave a delimiter, which hides what follows it the second time. -/
theorem not_clean_clean_eq : ¬ ∀ (r : Rules) (t : Text),
    (r.clean (Line.split (r.clean (Line.split t)).text)).text = (r.clean (Line.split t)).text :=
  fun h => absurd (h {} ['[', '[', '-', '-', '-', ']', ']', '\n', 'f', 'o', 'o', '\n'])
    (by decide +kernel)

end Quire.Rules
