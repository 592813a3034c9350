import Quire.Path
import Quire.Proofs.Intercalate

/-!
# Names under directories

A text is a name (`IsName`) if as a path it leads to a place right below the one where it starts. A
name put under the path of a directory becomes its last segment (`segments_join`) and its last
component (`components_join`).
-/

namespace Quire.Path

/-- A text that can be the name of a file. -/
structure IsName (t : Text) : Prop where
  ne_nil : t ≠ []
  ne_dot : t ≠ ['.']
  ne_dots : t ≠ ['.', '.']
  slash_not_mem : '/' ∉ t

variable {directory name : Text}

theorem IsName.of_length (hlen : 3 ≤ name.length) (hslash : '/' ∉ name) : IsName name where
  ne_nil := by rintro rfl; contradiction
  ne_dot := by rintro rfl; contradiction
  ne_dots := by rintro rfl; contradiction
  slash_not_mem := hslash

theorem isAbsolute_cons (c : Char) (t : Text) : isAbsolute (c :: t) = (c == '/') := by
  unfold isAbsolute
  split
  · next heq =>
    cases heq
    rfl
  · next hne => exact (beq_eq_false_iff_ne.2 fun hc => hne t (congrArg (· :: t) hc)).symm

theorem IsName.isAbsolute_eq_false (h : IsName name) : isAbsolute name = false := by
  obtain ⟨c, t, rfl⟩ := List.exists_cons_of_ne_nil h.ne_nil
  rw [isAbsolute_cons, beq_eq_false_iff_ne]
  rintro rfl
  exact h.slash_not_mem List.mem_cons_self

theorem join_of_isName (hd : directory ≠ []) (hn : IsName name) : join directory name =
    if directory.getLast? = some '/' then directory ++ name else directory ++ '/' :: name := by
  rw [join, hn.isAbsolute_eq_false, Bool.false_or, if_neg (by simpa using hd)]
  simp only [beq_iff_eq]

theorem isPrefix_join (hd : directory ≠ []) (hn : IsName name) :
    directory <+: join directory name := by
  rw [join_of_isName hd hn]
  split
  · exact List.prefix_append _ _
  · exact List.prefix_append _ _

theorem isAbsolute_join (hd : directory ≠ []) (hn : IsName name) :
    isAbsolute (join directory name) = isAbsolute directory := by
  obtain ⟨t, ht⟩ := isPrefix_join hd hn
  obtain ⟨c, directory, rfl⟩ := List.exists_cons_of_ne_nil hd
  rw [← ht, List.cons_append, isAbsolute_cons, isAbsolute_cons]

theorem segments_of_isName (hn : IsName name) : segments name = [name] := by
  refine List.splitOnP_eq_singleton fun c hc => ?_
  rw [beq_eq_false_iff_ne]
  rintro rfl
  exact hn.slash_not_mem hc

theorem segments_append_cons (s t : Text) : segments (s ++ '/' :: t) = segments s ++ segments t :=
  List.splitOnP_append_cons s t rfl

/-- The last segment of a path that ends in a slash is empty; a name takes its place. -/
theorem segments_join (hd : directory ≠ []) (hn : IsName name) :
    ∃ ss, (segments directory = ss ∨ segments directory = ss ++ [[]]) ∧
      segments (join directory name) = ss ++ [name] := by
  rw [join_of_isName hd hn]
  split
  · next h =>
    obtain ⟨start, rfl⟩ := List.getLast?_eq_some_iff.1 h
    refine ⟨segments start, Or.inr (segments_append_cons start []), ?_⟩
    rw [List.append_assoc, List.singleton_append, segments_append_cons, segments_of_isName hn]
  · refine ⟨segments directory, Or.inl rfl, ?_⟩
    rw [segments_append_cons, segments_of_isName hn]

/-! ### Components -/

theorem slash_not_mem_of_mem_segments {path s : Text} (h : s ∈ segments path) : '/' ∉ s := by
  intro hc
  have hmem : '/' ∈ (segments path).flatten := List.mem_flatten_of_mem h hc
  rw [segments, List.flatten_splitOnP] at hmem
  exact absurd (List.mem_filter.1 hmem).2 (by decide)

theorem components_append_cons (s t : Text) :
    components (s ++ '/' :: t) = components s ++ components t := by
  rw [components, segments_append_cons, List.filter_append]
  rfl

theorem components_of_isName (hn : IsName name) : components name = [name] := by
  rw [components, segments_of_isName hn, List.filter_cons_of_pos]
  · rfl
  · simp [hn.ne_nil, hn.ne_dot]

theorem join_nil (name : Text) : join [] name = name := by
  rw [join, List.isEmpty_nil, Bool.or_true, if_pos rfl]

theorem components_join (directory : Text) (hn : IsName name) :
    components (join directory name) = components directory ++ [name] := by
  by_cases hd : directory = []
  · subst hd
    rw [join_nil, components_of_isName hn]
    rfl
  · rw [join_of_isName hd hn]
    split
    · next h =>
      obtain ⟨start, rfl⟩ := List.getLast?_eq_some_iff.1 h
      have hslash : components (start ++ ['/']) = components start ++ [] :=
        components_append_cons start []
      rw [List.append_assoc, List.singleton_append, components_append_cons,
        components_of_isName hn, hslash, List.append_nil]
    · rw [components_append_cons, components_of_isName hn]

end Quire.Path
