import Quire.Proofs.Chunk

/-!
# Packed lines

A packing of lines under a budget (`IsPacking`) puts consecutive lines into groups, where only a
line that is alone may be larger than the budget. `packLines` takes for its first group as many
lines as fit and packs the rest in the same way (`packLines_cons`). This is a packing
(`isPacking_packLines`), and since no other first group leaves fewer lines, no packing has fewer
groups (`length_packLines_le`). Each group is cut again into its lines, so that all of this holds of
the chunks of a text.
-/

namespace Quire.Chunk

variable {max size : Nat} {line : Text} {group lines : List Text} {done groups : List (List Text)}

/-- Lines in consecutive groups, where only one line by itself may be larger than `max` bytes. -/
structure IsPacking (max : Nat) (lines : List Text) (groups : List (List Text)) : Prop where
  flatten : groups.flatten = lines
  filled : ∀ g ∈ groups, g ≠ []
  fits : ∀ g ∈ groups, 2 ≤ g.length → Text.utf8Length g.flatten ≤ max

/-! ### The first group -/

theorem packFrom_eq_append (max : Nat) (done : List (List Text)) (group : List Text) (size : Nat)
    (lines : List Text) :
    packFrom max done group size lines = done.reverse ++ packFrom max [] group size lines := by
  induction lines generalizing done group size with
  | nil => cases group <;> simp [packFrom]
  | cons line lines ih =>
    simp only [packFrom]
    split
    · rw [ih, ih [group.reverse]]
      simp
    · exact ih done _ _

theorem packFrom_nil (max : Nat) (hg : group ≠ []) (size : Nat) :
    packFrom max [] group size [] = [group.reverse] := by
  simp [packFrom, hg]

theorem packFrom_cons_of_fits (h : group = [] ∨ size + Text.utf8Length line ≤ max) :
    packFrom max done group size (line :: lines) =
      packFrom max done (line :: group) (size + Text.utf8Length line) lines := by
  rw [packFrom]
  apply if_neg
  simpa only [Bool.not_eq_true, Bool.and_eq_false_iff, Bool.not_eq_false', List.isEmpty_iff,
    decide_eq_false_iff_not, Nat.not_lt] using h

theorem packLines_cons_eq_packFrom (max : Nat) (line : Text) (lines : List Text) :
    packLines max (line :: lines) = packFrom max [] [line] (Text.utf8Length line) lines := by
  rw [packLines, packFrom_cons_of_fits (Or.inl rfl), Nat.zero_add]

/-- A line that does not fit begins a group, and the group before it is full. -/
theorem packFrom_cons_of_lt (hg : group ≠ []) (h : max < size + Text.utf8Length line) :
    packFrom max [] group size (line :: lines) =
      group.reverse :: packLines max (line :: lines) := by
  have hfull : (!group.isEmpty && decide (max < size + Text.utf8Length line)) = true := by
    simp [hg, h]
  rw [packFrom, if_pos hfull, packFrom_eq_append, packLines_cons_eq_packFrom]
  rfl

/-- A group that has been begun is filled as long as the lines fit; then the rest is packed. -/
theorem packFrom_eq_cons (max : Nat) (hg : group ≠ []) (size : Nat) (lines : List Text) :
    ∃ more rest, lines = more ++ rest ∧
      packFrom max [] group size lines = (group.reverse ++ more) :: packLines max rest ∧
      (more ≠ [] → size + Text.utf8Length more.flatten ≤ max) ∧
      ∀ next ∈ rest.head?, max < size + Text.utf8Length more.flatten + Text.utf8Length next := by
  induction lines generalizing group size with
  | nil =>
    refine ⟨[], [], rfl, ?_, fun h => absurd rfl h, by simp⟩
    rw [packFrom_nil max hg, List.append_nil]
    rfl
  | cons line lines ih =>
    by_cases hfull : max < size + Text.utf8Length line
    · refine ⟨[], line :: lines, rfl, ?_, fun h => absurd rfl h, by simpa using hfull⟩
      rw [packFrom_cons_of_lt hg hfull, List.append_nil]
    · obtain ⟨more, rest, rfl, heq, hfit, hnext⟩ :=
        ih (List.cons_ne_nil line group) (size + Text.utf8Length line)
      refine ⟨line :: more, rest, rfl, ?_, fun _ => ?_, fun next hn => ?_⟩
      · rw [packFrom_cons_of_fits (Or.inr (Nat.le_of_not_lt hfull)), heq, List.reverse_cons,
          List.append_assoc, List.singleton_append]
      · rw [List.flatten_cons, Text.utf8Length_append]
        by_cases hm : more = []
        · subst hm
          simp only [List.flatten_nil, Text.utf8Length_nil]
          omega
        · have := hfit hm
          omega
      · have := hnext next hn
        rw [List.flatten_cons, Text.utf8Length_append]
        omega

/-- The first group has the first line and all that fit after it, and the line after those does not
fit. -/
theorem packLines_cons (max : Nat) (line : Text) (lines : List Text) :
    ∃ more rest, lines = more ++ rest ∧
      packLines max (line :: lines) = (line :: more) :: packLines max rest ∧
      (more ≠ [] → Text.utf8Length (line :: more).flatten ≤ max) ∧
      ∀ next ∈ rest.head?, max < Text.utf8Length (line :: more).flatten + Text.utf8Length next := by
  obtain ⟨more, rest, hl, heq, hfit, hnext⟩ :=
    packFrom_eq_cons max (List.cons_ne_nil line []) (Text.utf8Length line) lines
  refine ⟨more, rest, hl, (packLines_cons_eq_packFrom max line lines).trans heq, ?_, ?_⟩
  · rwa [List.flatten_cons, Text.utf8Length_append]
  · rwa [List.flatten_cons, Text.utf8Length_append]

/-! ### A packing with the fewest groups -/

theorem isPacking_nil (max : Nat) : IsPacking max [] [] where
  flatten := rfl
  filled _ h := absurd h List.not_mem_nil
  fits _ h := absurd h List.not_mem_nil

theorem IsPacking.cons (h : IsPacking max lines groups) (hg : group ≠ [])
    (hfit : 2 ≤ group.length → Text.utf8Length group.flatten ≤ max) :
    IsPacking max (group ++ lines) (group :: groups) where
  flatten := by rw [List.flatten_cons, h.flatten]
  filled := List.forall_mem_cons.2 ⟨hg, h.filled⟩
  fits := List.forall_mem_cons.2 ⟨hfit, h.fits⟩

theorem isPacking_packLines (max : Nat) (lines : List Text) :
    IsPacking max lines (packLines max lines) := by
  induction hn : lines.length using Nat.strong_induction_on generalizing lines with
  | _ n ih =>
    cases lines with
    | nil => exact isPacking_nil max
    | cons line lines =>
      -- What the first group leaves is shorter, though it need not be the tail.
      obtain ⟨more, rest, rfl, heq, hfit, -⟩ := packLines_cons max line lines
      have hrest : IsPacking max rest (packLines max rest) := by
        apply ih rest.length _ rest rfl
        simp only [List.length_cons, List.length_append] at hn
        omega
      rw [heq]
      apply hrest.cons (List.cons_ne_nil line more)
      intro h2
      apply hfit
      rintro rfl
      exact absurd h2 (by simp)

/-- The first group takes what any group at the start of the lines has, and maybe more. -/
theorem exists_packLines_append (hg : group ≠ [])
    (hfit : 2 ≤ group.length → Text.utf8Length group.flatten ≤ max) (lines : List Text) :
    ∃ first rest, rest <:+ lines ∧
      packLines max (group ++ lines) = first :: packLines max rest := by
  obtain ⟨line, group, rfl⟩ := List.exists_cons_of_ne_nil hg
  obtain ⟨more, rest, hl, heq, -, hnext⟩ := packLines_cons max line (group ++ lines)
  refine ⟨line :: more, rest, ?_, heq⟩
  rcases List.append_eq_append_iff.1 hl with ⟨left, hmore, hlines⟩ | ⟨left, hgroup, hrest⟩
  · exact ⟨left, hlines.symm⟩
  · -- Were something of the group left, the first line of it would fit as well.
    rcases left with _ | ⟨next, left⟩
    · rw [hrest]
      exact List.suffix_rfl
    · subst hgroup hrest
      have hover := hnext next rfl
      have hunder := hfit (by simp only [List.length_cons, List.length_append]; omega)
      simp only [List.flatten_cons, List.flatten_append, Text.utf8Length_append] at hover hunder
      omega

/-- No packing of lines has fewer groups, not even one of more lines that end in these. -/
theorem length_packLines_le (hfit : ∀ g ∈ groups, 2 ≤ g.length → Text.utf8Length g.flatten ≤ max)
    (hs : lines <:+ groups.flatten) : (packLines max lines).length ≤ groups.length := by
  -- Over the groups: after each first group, `packLines` has as few lines left as these or fewer.
  induction groups generalizing lines with
  | nil =>
    rw [List.flatten_nil, List.suffix_nil] at hs
    subst hs
    exact Nat.le_refl 0
  | cons g groups ih =>
    obtain ⟨hg, hgroups⟩ := List.forall_mem_cons.1 hfit
    have hskip : lines <:+ groups.flatten → (packLines max lines).length ≤ (g :: groups).length :=
      fun h => Nat.le_succ_of_le (ih hgroups h)
    obtain ⟨before, hb⟩ := hs
    rcases List.append_eq_append_iff.1 hb with ⟨left, hgl, hl⟩ | ⟨left, -, hl⟩
    · -- The lines begin within this group: the first group reaches its end.
      by_cases hne : left = []
      · subst hne
        exact hskip (hl ▸ List.suffix_rfl)
      have hleft : 2 ≤ left.length → Text.utf8Length left.flatten ≤ max := by
        intro h2
        subst hgl
        have := hg (by rw [List.length_append]; omega)
        rw [List.flatten_append, Text.utf8Length_append] at this
        omega
      obtain ⟨first, rest, hrest, heq⟩ := exists_packLines_append hne hleft groups.flatten
      rw [hl, heq, List.length_cons, List.length_cons]
      exact Nat.succ_le_succ (ih hgroups hrest)
    · exact hskip ⟨left, hl.symm⟩

/-! ### The chunks of a text -/

theorem map_index_split (t : Text) (d : Division) :
    (split t d).map Chunk.index = List.range' 1 (split t d).length := by
  apply List.ext_getElem
  · simp
  · intro i _ _
    simp [split, Nat.add_comm]

theorem split_text_of_mem {t : Text} {max : Nat} {g : List Text}
    (hg : g ∈ packLines max (Line.split t)) : Line.split g.flatten = g := by
  have := List.infix_of_mem_flatten hg
  rw [flatten_packLines] at this
  exact Line.split_flatten_of_infix this

theorem map_split_text_split (t : Text) (budget : Budget) :
    (split t (.byBytes budget)).map (fun c => Line.split c.text) =
      packLines budget (Line.split t) := by
  have h := congrArg (List.map Line.split) (map_text_split t (.byBytes budget))
  rw [List.map_map, texts, List.map_map] at h
  refine h.trans ?_
  exact (List.map_congr_left fun g hg => split_text_of_mem hg).trans (List.map_id' _)

/-- The chunks of at most so many bytes are numbered from one and not empty, they put together give
the text and their lines its lines, only a chunk of one line is larger than the budget, and the
lines cannot be packed into fewer groups. -/
theorem split_byBytes (t : Text) (budget : Budget) :
    (split t (.byBytes budget)).map Chunk.index =
      List.range' 1 (split t (.byBytes budget)).length ∧
    (∀ c ∈ split t (.byBytes budget), c.text ≠ []) ∧
    ((split t (.byBytes budget)).map Chunk.text).flatten = t ∧
    (split t (.byBytes budget)).flatMap (fun c => Line.split c.text) = Line.split t ∧
    (∀ c ∈ split t (.byBytes budget), budget < Text.utf8Length c.text →
      ∃ line, Line.split c.text = [line]) ∧
    ∀ groups, IsPacking budget (Line.split t) groups →
      (split t (.byBytes budget)).length ≤ groups.length := by
  have hmap := map_split_text_split t budget
  have hpack := isPacking_packLines budget (Line.split t)
  rw [← hmap] at hpack
  have hfilled : ∀ c ∈ split t (.byBytes budget), Line.split c.text ≠ [] :=
    fun c hc => hpack.filled _ (List.mem_map_of_mem hc)
  refine ⟨map_index_split t _, fun c hc he => ?_, ?_, hpack.flatten, fun c hc hover => ?_, ?_⟩
  · apply hfilled c hc
    rw [he]
    rfl
  · rw [map_text_split, flatten_texts]
  · have hfit := hpack.fits _ (List.mem_map_of_mem hc)
    have hpos := List.length_pos_iff.2 (hfilled c hc)
    rw [Line.flatten_split] at hfit
    apply List.length_eq_one_iff.1
    omega
  · intro groups hg
    rw [← List.length_map (fun c => Line.split c.text), hmap]
    exact length_packLines_le hg.fits (hg.flatten ▸ List.suffix_rfl)

end Quire.Chunk
