import Quire.Proofs.Text.Blank

/-!
# Words of a text

White space keeps the words on its sides apart (`words_append_cons`), and a text without any is a
word (`words_of_isSolid`). Every text is put together in this way (`cutInduction`), so that words
are solid, and what is solid lies within a word (`exists_infix_word_iff`). Words with single spaces
between them are the words of the text that they make (`words_joinWith`).
-/

namespace Quire.Text

variable {c : Char} {s t w : Text} {ws : List Text}

/-- A text has no white space, or it is two texts with a white space character between them. -/
@[elab_as_elim]
theorem cutInduction {motive : Text → Prop} (visible : ∀ t, (∀ c ∈ t, ¬ isBlank c) → motive t)
    (cut : ∀ s c t, isBlank c → motive s → motive t → motive (s ++ c :: t)) (t : Text) :
    motive t := by
  induction hn : t.length using Nat.strong_induction_on generalizing t with
  | _ n ih =>
    by_cases h : ∃ c ∈ t, isBlank c
    · obtain ⟨c, hc, hb⟩ := h
      obtain ⟨a, b, rfl⟩ := List.append_of_mem hc
      rw [List.length_append, List.length_cons] at hn
      exact cut a c b hb (ih _ (by omega) a rfl) (ih _ (by omega) b rfl)
    · exact visible t fun c hc hb => h ⟨c, hc, hb⟩

theorem words_nil : words [] = [] := rfl

theorem words_append_cons (hc : isBlank c) (s t : Text) :
    words (s ++ c :: t) = words s ++ words t := by
  unfold words pieces
  rw [List.splitOnP_append_cons s t hc, List.filter_append]

theorem words_cons_of_isBlank (hc : isBlank c) (t : Text) : words (c :: t) = words t :=
  words_append_cons hc [] t

theorem words_of_isSolid (h : IsSolid w) : words w = [w] := by
  unfold words pieces
  rw [List.splitOnP_eq_singleton fun c hc => eq_false_of_ne_true (h.visible c hc)]
  simp [h.ne_nil]

theorem words_of_visible (h : ∀ c ∈ t, ¬ isBlank c) : t = [] ∧ words t = [] ∨
    IsSolid t ∧ words t = [t] := by
  by_cases ht : t = []
  · subst ht
    exact Or.inl ⟨rfl, rfl⟩
  · exact Or.inr ⟨⟨ht, h⟩, words_of_isSolid ⟨ht, h⟩⟩

theorem words_append_left {e : Text} (he : ∀ c ∈ e, isBlank c) (t : Text) :
    words (e ++ t) = words t := by
  induction e with
  | nil => rfl
  | cons c e ih =>
    obtain ⟨hc, he⟩ := List.forall_mem_cons.1 he
    rw [List.cons_append, words_cons_of_isBlank hc, ih he]

theorem words_append_of_blank {e : Text} (he : ∀ c ∈ e, isBlank c) (hne : e ≠ []) (s t : Text) :
    words (s ++ e ++ t) = words s ++ words t := by
  obtain ⟨c, e, rfl⟩ := List.exists_cons_of_ne_nil hne
  obtain ⟨hc, he⟩ := List.forall_mem_cons.1 he
  rw [List.append_assoc, List.cons_append, words_append_cons hc, words_append_left he]

theorem isSolid_of_mem_words (h : w ∈ words t) : IsSolid w := by
  induction t using cutInduction with
  | visible t ht =>
    rcases words_of_visible ht with ⟨-, hw⟩ | ⟨hs, hw⟩ <;> rw [hw] at h
    · exact absurd h List.not_mem_nil
    · rwa [List.mem_singleton.1 h]
  | cut s c t hc hs ht =>
    rw [words_append_cons hc] at h
    exact (List.mem_append.1 h).elim hs ht

/-- A solid text is a piece of another one exactly if it is a piece of a word of that. -/
theorem exists_infix_word_iff (h : IsSolid w) : (∃ v ∈ words t, w <:+: v) ↔ w <:+: t := by
  induction t using cutInduction with
  | visible t ht =>
    rcases words_of_visible ht with ⟨rfl, hw⟩ | ⟨-, hw⟩ <;> rw [hw]
    · simpa using h.ne_nil
    · simp
  | cut s c t hc hs ht =>
    have hcw : c ∉ w := fun hm => h.visible c hm hc
    rw [words_append_cons hc]
    simp only [List.mem_append, or_and_right, exists_or, hs, ht]
    constructor
    · rintro (hw | hw)
      · exact hw.trans (List.prefix_append s (c :: t)).isInfix
      · exact hw.trans (List.suffix_append_of_suffix (List.suffix_cons c t)).isInfix
    · exact infix_append_cons hcw

theorem words_eq_nil_iff : words t = [] ↔ ∀ c ∈ t, isBlank c := by
  induction t using cutInduction with
  | visible t ht =>
    rcases words_of_visible ht with ⟨rfl, hw⟩ | ⟨hs, hw⟩ <;> rw [hw]
    · simp
    · obtain ⟨c, hc⟩ := List.exists_mem_of_ne_nil t hs.ne_nil
      exact iff_of_false (List.cons_ne_nil _ _) fun hb => ht c hc (hb c hc)
  | cut s c t hc hs ht =>
    rw [words_append_cons hc, List.append_eq_nil_iff, hs, ht, List.forall_mem_append,
      List.forall_mem_cons]
    exact and_congr_right fun _ => ⟨fun h => ⟨hc, h⟩, And.right⟩

theorem joinWith_cons_cons (sep t u : Text) (ts : List Text) :
    joinWith sep (t :: u :: ts) = t ++ sep ++ joinWith sep (u :: ts) := by
  simp [joinWith, List.intercalate_cons_cons]

theorem joinWith_singleton (sep t : Text) : joinWith sep [t] = t := List.intercalate_singleton

/-- Words are found again in the text that they make with spaces between them. -/
theorem words_joinWith (h : ∀ w ∈ ws, IsSolid w) : words (joinWith [' '] ws) = ws := by
  induction ws with
  | nil => rfl
  | cons w ws ih =>
    obtain ⟨hw, hws⟩ := List.forall_mem_cons.1 h
    cases ws with
    | nil => rw [joinWith_singleton, words_of_isSolid hw]
    | cons v ws =>
      rw [joinWith_cons_cons, words_append_of_blank (List.forall_mem_singleton.2 rfl) (by decide),
        words_of_isSolid hw, ih hws]
      rfl

end Quire.Text
