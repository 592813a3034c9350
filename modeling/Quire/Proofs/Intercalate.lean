import Mathlib.Data.List.Basic

/-!
# Lists put together and cut

`List.intercalate` puts lists together with a separator between neighbours, and `List.splitOnP` cuts
a list at the elements with a property. Both are seen here through membership, `List.map` and
`List.filter`.
-/

namespace List

variable {α β : Type} {a : α} {sep : List α} {ls : List (List α)} {p : α → Bool}

theorem mem_intercalate (h : a ∈ sep.intercalate ls) : a ∈ sep ∨ ∃ l ∈ ls, a ∈ l := by
  induction ls with
  | nil => exact absurd h not_mem_nil
  | cons l ls ih =>
    cases ls with
    | nil =>
      rw [intercalate_singleton] at h
      exact Or.inr ⟨l, mem_cons_self, h⟩
    | cons m ls =>
      rw [intercalate_cons_cons, mem_append, mem_append] at h
      rcases h with (h | h) | h
      · exact Or.inr ⟨l, mem_cons_self, h⟩
      · exact Or.inl h
      · exact (ih h).imp_right fun ⟨k, hk, ha⟩ => ⟨k, mem_cons_of_mem l hk, ha⟩

theorem map_intercalate (f : α → β) (sep : List α) (ls : List (List α)) :
    (sep.intercalate ls).map f = (sep.map f).intercalate (ls.map (map f)) := by
  induction ls with
  | nil => rfl
  | cons l ls ih =>
    cases ls with
    | nil => rw [intercalate_singleton, map_singleton, intercalate_singleton]
    | cons m ls =>
      rw [intercalate_cons_cons, map_append, map_append, ih, map_cons, map_cons, map_cons,
        intercalate_cons_cons]

theorem filter_intercalate (h : p a = false) (ls : List (List α)) :
    ([a].intercalate ls).filter p = ls.flatten.filter p := by
  induction ls with
  | nil => rfl
  | cons l ls ih =>
    cases ls with
    | nil => rw [intercalate_singleton, flatten_singleton]
    | cons m ls =>
      rw [intercalate_cons_cons, filter_append, filter_append, ih, filter_singleton, h,
        flatten_cons, filter_append]
      simp

theorem intercalate_append {ms : List (List α)} (hl : ls ≠ []) (hm : ms ≠ []) :
    sep.intercalate (ls ++ ms) = sep.intercalate ls ++ sep ++ sep.intercalate ms := by
  induction ls with
  | nil => exact absurd rfl hl
  | cons l ls ih =>
    by_cases hls : ls = []
    · rw [hls, singleton_append, intercalate_cons_of_ne_nil hm, intercalate_singleton]
    · rw [cons_append, intercalate_cons_of_ne_nil (append_ne_nil_of_left_ne_nil hls ms), ih hls,
        intercalate_cons_of_ne_nil hls]
      simp only [append_assoc]

/-- The separator stands between the lists of all groups if it does so within each group and between
the groups. -/
theorem intercalate_flatten {lss : List (List (List α))} (h : ∀ ls ∈ lss, ls ≠ []) :
    sep.intercalate lss.flatten = sep.intercalate (lss.map sep.intercalate) := by
  induction lss with
  | nil => rfl
  | cons ls lss ih =>
    obtain ⟨hls, hlss⟩ := forall_mem_cons.1 h
    cases lss with
    | nil => rw [flatten_singleton, map_singleton, intercalate_singleton]
    | cons ms lss =>
      have hrest : (ms :: lss).flatten ≠ [] :=
        append_ne_nil_of_left_ne_nil (hlss ms mem_cons_self) lss.flatten
      rw [flatten_cons, intercalate_append hls hrest, ih hlss]
      exact (intercalate_cons_of_ne_nil (cons_ne_nil _ _)).symm

theorem splitOnP_map (f : α → β) (p : β → Bool) (as : List α) :
    (as.map f).splitOnP p = (as.splitOnP (p ∘ f)).map (map f) := by
  induction as with
  | nil => rfl
  | cons a as ih =>
    rw [map_cons, splitOnP_cons_eq_if_modifyHead, splitOnP_cons_eq_if_modifyHead, ih,
      Function.comp_apply]
    cases p (f a)
    · obtain ⟨b, bs, hb⟩ := exists_cons_of_ne_nil (splitOnP_ne_nil (p ∘ f) as)
      rw [hb]
      rfl
    · rfl

theorem flatten_splitOnP (p : α → Bool) (as : List α) :
    (as.splitOnP p).flatten = as.filter (!p ·) := by
  induction as with
  | nil => rfl
  | cons a as ih =>
    rw [splitOnP_cons_eq_if_modifyHead]
    cases ha : p a
    · obtain ⟨b, bs, hb⟩ := exists_cons_of_ne_nil (splitOnP_ne_nil p as)
      rw [hb] at ih ⊢
      simpa [ha] using ih
    · simpa [ha] using ih

end List
