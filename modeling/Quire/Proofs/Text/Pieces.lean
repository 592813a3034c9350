import Quire.Text.Basic

/-!
# Pieces of a text

A piece of a text is a run of consecutive characters of it. `Text.Free P t` says that no piece of
`t` satisfies `P`. Freedom passes from a text to its pieces (`Free.of_piece`), and from two texts to
the text made of them if characters stand between them that no piece with `P` contains
(`Free.append_of_separator`). The smallest piece that the markers of links are made of is a doubled
character: `Text.Doubles c t` says that `c` stands twice in a row, and `doubles_append_iff` that in
two texts put together it does so in one of them or across the seam.
-/

namespace Quire.Text

/-- No piece of a text satisfies `P`. -/
def Free (P : Text → Prop) (t : Text) : Prop := ∀ w, w <:+: t → ¬ P w

variable {P : Text → Prop} {s t : Text}

theorem Free.of_piece (h : Free P t) (hs : s <:+: t) : Free P s := fun w hw => h w (hw.trans hs)

/-- A piece without the character `c` lies on one side of it. -/
theorem infix_append_cons {w a b : Text} {c : Char} (hc : c ∉ w) (h : w <:+: a ++ c :: b) :
    w <:+: a ∨ w <:+: b := by
  rw [List.infix_append_iff] at h
  rcases h with h | h | ⟨w₁, w₂, rfl, h₁, h₂⟩
  · exact Or.inl h
  · rcases List.infix_cons_iff.1 h with h | h
    · rcases List.prefix_cons_iff.1 h with rfl | ⟨v, rfl, -⟩
      · exact Or.inl List.nil_infix
      · exact absurd List.mem_cons_self hc
    · exact Or.inr h
  · rcases List.prefix_cons_iff.1 h₂ with rfl | ⟨v, rfl, -⟩
    · rw [List.append_nil]
      exact Or.inl h₁.isInfix
    · exact absurd (List.mem_append_right _ List.mem_cons_self) hc

/-- Characters that no piece with `P` contains keep two texts apart. -/
theorem Free.append_of_separator {sep : Text} (hs : Free P s) (ht : Free P t) (hne : sep ≠ [])
    (hsep : ∀ w, P w → ∀ c ∈ sep, c ∉ w) : Free P (s ++ sep ++ t) := by
  induction sep generalizing s with
  | nil => exact absurd rfl hne
  | cons c sep ih =>
    intro w hw hP
    rw [List.append_assoc, List.cons_append] at hw
    rcases infix_append_cons (hsep w hP c List.mem_cons_self) hw with h | h
    · exact hs w h hP
    · by_cases he : sep = []
      · subst he
        exact ht w h hP
      · have hnil : Free P [] := hs.of_piece List.nil_infix
        exact ih hnil he (fun w hP c hc => hsep w hP c (List.mem_cons_of_mem _ hc)) w h hP

/-! ### Doubled characters -/

/-- The character stands twice in a row. -/
def Doubles (c : Char) (t : Text) : Prop := [c, c] <:+: t

instance (c : Char) (t : Text) : Decidable (Doubles c t) := inferInstanceAs (Decidable (_ <:+: _))

variable {c d : Char}

theorem not_doubles_nil : ¬ Doubles c [] := fun h =>
  absurd (List.infix_nil.1 h) (List.cons_ne_nil _ _)

theorem Doubles.mono (h : Doubles c s) (hs : s <:+: t) : Doubles c t := h.trans hs

theorem Doubles.mem (h : Doubles c t) : c ∈ t := h.subset List.mem_cons_self

theorem doubles_reverse_iff : Doubles c t.reverse ↔ Doubles c t := by
  have h : [c, c].reverse <:+: t.reverse ↔ [c, c] <:+: t := List.reverse_infix
  exact h

theorem doubles_cons_iff : Doubles c (d :: t) ↔ d = c ∧ c ∈ t.head? ∨ Doubles c t := by
  unfold Doubles
  rw [List.infix_cons_iff, List.cons_prefix_cons, eq_comm]
  cases t with
  | nil => simp
  | cons e t => simp [eq_comm]

theorem doubles_append_iff :
    Doubles c (s ++ t) ↔ Doubles c s ∨ Doubles c t ∨ c ∈ s.getLast? ∧ c ∈ t.head? := by
  induction s with
  | nil => simp [not_doubles_nil]
  | cons d s ih =>
    rw [List.cons_append, doubles_cons_iff, doubles_cons_iff, ih]
    cases s with
    | nil => simp [not_doubles_nil, or_comm]
    | cons e s =>
      rw [List.cons_append, List.head?_cons, List.head?_cons, List.getLast?_cons_cons]
      exact or_assoc.symm

end Quire.Text
