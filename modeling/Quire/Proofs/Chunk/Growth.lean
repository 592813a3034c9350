import Quire.Proofs.Chunk.Packing

/-!
# Chunks of a longer text

Text that is put after a text changes its last chunk at most: all chunks before that are chunks of
the longer text, with the same numbers (`dropLast_split_isPrefix`). The last line of the shorter
text may become larger, but a line that does not fit does not fit either when it is larger, and a
full slice is full whatever follows.
-/

namespace Quire.Chunk

variable {l l' : Text}

/-! ### Packed lines -/

/-- All groups but the last are full before the last line or for its size, and stay when that line
is larger and more lines follow. -/
theorem dropLast_packFrom_isPrefix (max : Nat) (hl : Text.utf8Length l ≤ Text.utf8Length l')
    (more : List Text) (group : List Text) (size : Nat) (lines : List Text) :
    (packFrom max [] group size (lines ++ [l])).dropLast <+:
      packFrom max [] group size (lines ++ l' :: more) := by
  -- Both runs do the same with the lines they have in common, until `l` and `l'` are reached.
  induction lines generalizing group size with
  | nil =>
    rw [List.nil_append, List.nil_append]
    by_cases h : group = [] ∨ size + Text.utf8Length l ≤ max
    · rw [packFrom_cons_of_fits h, packFrom_nil max (List.cons_ne_nil l group)]
      exact List.nil_prefix
    · -- What does not fit does not fit when it is larger.
      obtain ⟨hg, hfull⟩ := not_or.1 h
      rw [packFrom_cons_of_lt hg (by omega), packFrom_cons_of_lt hg (by omega),
        packLines_cons_eq_packFrom, packFrom_nil max (List.cons_ne_nil l [])]
      exact ⟨packLines max (l' :: more), rfl⟩
  | cons line lines ih =>
    rw [List.cons_append, List.cons_append]
    by_cases h : group = [] ∨ size + Text.utf8Length line ≤ max
    · rw [packFrom_cons_of_fits h, packFrom_cons_of_fits h]
      exact ih _ _
    · obtain ⟨hg, hfull⟩ := not_or.1 h
      have hlt : max < size + Text.utf8Length line := Nat.lt_of_not_le hfull
      rw [packFrom_cons_of_lt hg hlt, packFrom_cons_of_lt hg hlt, packLines_cons_eq_packFrom,
        packLines_cons_eq_packFrom, List.dropLast_cons_of_ne_nil, List.prefix_cons_inj]
      · exact ih [line] (Text.utf8Length line)
      · obtain ⟨_, _, -, heq, -⟩ := packFrom_eq_cons max (List.cons_ne_nil line [])
          (Text.utf8Length line) (lines ++ [l])
        rw [heq]
        exact List.cons_ne_nil _ _

/-! ### Slices -/

/-- A slice that is followed by another one is full. -/
theorem dropLast_slices_isPrefix (size : Budget) (t u : Text) :
    (slices size t).dropLast <+: slices size (t ++ u) := by
  induction hn : t.length using Nat.strong_induction_on generalizing t with
  | _ n ih =>
    by_cases ht : t = []
    · subst ht
      rw [slices_nil]
      exact List.nil_prefix
    by_cases hs : t.length ≤ size
    · rw [slices_of_ne_nil size ht, List.drop_eq_nil_of_le hs, slices_nil]
      exact List.nil_prefix
    · have hle : size ≤ t.length := Nat.le_of_not_le hs
      have hrest : t.drop size ≠ [] := fun h => hs (List.drop_eq_nil_iff.1 h)
      rw [slices_of_ne_nil size ht, slices_of_ne_nil size (List.append_ne_nil_of_left_ne_nil ht u),
        List.take_append_of_le_length hle, List.drop_append_of_le_length hle,
        List.dropLast_cons_of_ne_nil, List.prefix_cons_inj]
      · exact ih _ (hn ▸ length_drop_lt size ht) _ rfl
      · rw [slices_of_ne_nil size hrest]
        exact List.cons_ne_nil _ _

/-! ### Chunks -/

theorem dropLast_texts_isPrefix (t u : Text) (d : Division) :
    (texts t d).dropLast <+: texts (t ++ u) d := by
  cases d with
  | byBytes budget =>
    rw [texts, texts]
    rcases List.eq_nil_or_concat' (Line.split t) with h | ⟨lines, l, h⟩
    · rw [h]
      exact List.nil_prefix
    · obtain ⟨more, rest, hs⟩ := Line.exists_split_append h u
      have hl : Text.utf8Length l ≤ Text.utf8Length (l ++ more) := by
        rw [Text.utf8Length_append]
        omega
      rw [h, hs, ← List.map_dropLast]
      exact (dropLast_packFrom_isPrefix budget hl rest [] 0 lines).map List.flatten
  | byChars budget => exact dropLast_slices_isPrefix budget t u

/-- All chunks of a text but the last are chunks of every longer text that begins with it, with the
same numbers. -/
theorem dropLast_split_isPrefix (t u : Text) (d : Division) :
    (split t d).dropLast <+: split (t ++ u) d := by
  obtain ⟨rest, hr⟩ := dropLast_texts_isPrefix t u d
  rw [split, split, ← hr, List.mapIdx_append]
  rcases List.eq_nil_or_concat' (texts t d) with h | ⟨init, last, h⟩
  · rw [h]
    exact List.nil_prefix
  · rw [h, List.mapIdx_concat, List.dropLast_concat, List.dropLast_concat]
    exact List.prefix_append _ _

end Quire.Chunk
