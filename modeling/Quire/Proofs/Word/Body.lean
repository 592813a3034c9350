import Mathlib.Data.List.Infix
import Quire.Proofs.Text.Words
import Quire.Word.Markup

/-!
# Names of characters in a text

`unescape` goes through a text and replaces the names that it finds (`unescape_cases`). It makes no
text longer, and leaves a text as it is exactly if no name occurs in it (`unescape_eq_self_iff`).
The same holds of several texts with a separator between them (`joinWith_map_eq_iff`).
-/

namespace Quire

namespace Text

variable {f : Text → Text}

theorem length_joinWith_map_le (hf : ∀ t, (f t).length ≤ t.length) (sep : Text) (ts : List Text) :
    (joinWith sep (ts.map f)).length ≤ (joinWith sep ts).length := by
  induction ts with
  | nil => exact Nat.le_refl _
  | cons t ts ih =>
    have ht := hf t
    cases ts with
    | nil => rwa [List.map_singleton, joinWith_singleton, joinWith_singleton]
    | cons u ts =>
      rw [List.map_cons] at ih
      rw [List.map_cons, List.map_cons, joinWith_cons_cons, joinWith_cons_cons]
      simp only [List.length_append]
      omega

/-- What makes no text longer leaves texts with a separator between them as they are exactly if it
leaves each of them. -/
theorem joinWith_map_eq_iff (hf : ∀ t, (f t).length ≤ t.length) (sep : Text) (ts : List Text) :
    joinWith sep (ts.map f) = joinWith sep ts ↔ ∀ t ∈ ts, f t = t := by
  induction ts with
  | nil => simp
  | cons t ts ih =>
    cases ts with
    | nil =>
      rw [List.map_singleton, joinWith_singleton, joinWith_singleton, List.forall_mem_singleton]
    | cons u ts =>
      have ht := hf t
      have hts := length_joinWith_map_le hf sep (u :: ts)
      rw [List.forall_mem_cons, ← ih, List.map_cons, List.map_cons, joinWith_cons_cons,
        joinWith_cons_cons, ← List.map_cons]
      -- Neither part gets longer, so that equal wholes have equal parts.
      refine ⟨fun h => ?_, fun h => by rw [h.1, h.2]⟩
      have hlen := congrArg List.length h
      simp only [List.length_append] at hlen
      obtain ⟨hleft, hright⟩ := List.append_inj h (by simp only [List.length_append]; omega)
      exact ⟨List.append_cancel_right hleft, hright⟩

end Text

namespace Word

variable {t : Text}

/-- The names of characters that are replaced. -/
def references : List Text :=
  ["&lt;".toList, "&gt;".toList, "&amp;".toList, "&quot;".toList, "&#39;".toList, "&apos;".toList,
    "&nbsp;".toList]

theorem exists_unescape_append {r : Text} (h : r ∈ references) (t : Text) :
    ∃ c, unescape (r ++ t) = c :: unescape t := by
  simp only [references, List.mem_cons, List.not_mem_nil, or_false] at h
  rcases h with rfl | rfl | rfl | rfl | rfl | rfl | rfl <;> exact ⟨_, rfl⟩

theorem unescape_cons {c : Char} (h : ∀ r ∈ references, ¬ r <+: c :: t) :
    unescape (c :: t) = c :: unescape t := by
  have hne : ∀ r ∈ references, ∀ u, c :: t ≠ r ++ u := fun r hr u hu =>
    h r hr (hu ▸ List.prefix_append r u)
  simp only [references, List.forall_mem_cons] at hne
  obtain ⟨hlt, hgt, hamp, hquot, hnumber, hapos, hnbsp, -⟩ := hne
  rw [unescape]
  all_goals
    rintro u rfl rfl
  exacts [hlt u rfl, hgt u rfl, hamp u rfl, hquot u rfl, hnumber u rfl, hapos u rfl, hnbsp u rfl]

/-- What is replaced at the start of a text: a name, or else nothing. -/
theorem unescape_cases (t : Text) : t = [] ∨
    (∃ r ∈ references, ∃ c u, t = r ++ u ∧ unescape t = c :: unescape u) ∨
    ∃ c u, t = c :: u ∧ (∀ r ∈ references, ¬ r <+: t) ∧ unescape t = c :: unescape u := by
  by_cases h : ∃ r ∈ references, r <+: t
  · obtain ⟨r, hr, u, rfl⟩ := h
    obtain ⟨c, hc⟩ := exists_unescape_append hr u
    exact Or.inr (Or.inl ⟨r, hr, c, u, rfl, hc⟩)
  · cases t with
    | nil => exact Or.inl rfl
    | cons c u =>
      have hnone : ∀ r ∈ references, ¬ r <+: c :: u := fun r hr hp => h ⟨r, hr, hp⟩
      exact Or.inr (Or.inr ⟨c, u, rfl, hnone, unescape_cons hnone⟩)

theorem two_le_length_of_mem_references {r : Text} (h : r ∈ references) : 2 ≤ r.length := by
  revert r
  decide

theorem length_unescape_le (t : Text) : (unescape t).length ≤ t.length := by
  induction hn : t.length using Nat.strong_induction_on generalizing t with
  | _ n ih =>
    rcases unescape_cases t with rfl | ⟨r, hr, c, u, rfl, hu⟩ | ⟨c, u, rfl, -, hu⟩
    · exact Nat.zero_le n
    · have hr := two_le_length_of_mem_references hr
      rw [List.length_append] at hn
      have := ih u.length (by omega) u rfl
      rw [hu, List.length_cons]
      omega
    · rw [List.length_cons] at hn
      have := ih u.length (by omega) u rfl
      rw [hu, List.length_cons]
      omega

/-- A text stays as it is exactly if no name of a character occurs in it. -/
theorem unescape_eq_self_iff : unescape t = t ↔ ∀ r ∈ references, ¬ r <:+: t := by
  induction hn : t.length using Nat.strong_induction_on generalizing t with
  | _ n ih =>
    rcases unescape_cases t with rfl | ⟨r, hr, c, u, rfl, hu⟩ | ⟨c, u, rfl, hnone, hu⟩
    · simp only [List.infix_nil]
      exact iff_of_true rfl (by decide)
    · -- The replacement makes the text shorter.
      refine iff_of_false (fun h => ?_) fun h => h r hr (List.prefix_append r u).isInfix
      have hlen := congrArg List.length (hu.symm.trans h)
      have hle := length_unescape_le u
      have hr := two_le_length_of_mem_references hr
      rw [List.length_cons, List.length_append] at hlen
      omega
    · rw [List.length_cons] at hn
      rw [hu, List.cons_inj_right, ih u.length (by omega) rfl]
      simp only [List.infix_cons_iff, not_or]
      exact ⟨fun h r hr => ⟨hnone r hr, h r hr⟩, fun h r hr => (h r hr).2⟩

theorem unescape_of_not_mem (h : '&' ∉ t) : unescape t = t := by
  have hmem : ∀ r ∈ references, '&' ∈ r := by decide
  exact unescape_eq_self_iff.2 fun r hr hi => h (hi.subset (hmem r hr))

end Word

end Quire
