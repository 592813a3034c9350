import Mathlib.Data.List.TakeWhile
import Quire.Proofs.Text.Words

/-!
# Collapsing and words

Neither squeezing nor trimming touches the words of a text (`words_collapse`), and a collapsed text
is its words with single spaces between them (`IsCollapsed.joinWith_words`). So to collapse a text
is to put its words together again (`collapse_eq_joinWith`).
-/

namespace Quire.Text

variable {c : Char} {s t w : Text} {ws : List Text}

/-! ### Words stay -/

theorem words_append_right {e : Text} (he : ∀ c ∈ e, isBlank c) (t : Text) :
    words (t ++ e) = words t := by
  by_cases hne : e = []
  · rw [hne, List.append_nil]
  · have h := words_append_of_blank he hne t []
    rwa [List.append_nil, words_nil, List.append_nil] at h

theorem words_trimStart (t : Text) : words (trimStart t) = words t := by
  have hb : ∀ c ∈ t.takeWhile isBlank, isBlank c := fun c hc => List.mem_takeWhile_imp hc
  rw [trimStart, ← words_append_left hb, List.takeWhile_append_dropWhile]

theorem words_trimEnd (t : Text) : words (trimEnd t) = words t := by
  have hb : ∀ c ∈ (t.reverse.takeWhile isBlank).reverse, isBlank c :=
    fun c hc => List.mem_takeWhile_imp (List.mem_reverse.1 hc)
  rw [trimEnd, ← words_append_right hb, ← List.reverse_append, List.takeWhile_append_dropWhile,
    List.reverse_reverse]

theorem words_trim (t : Text) : words (trim t) = words t := by
  rw [trim, words_trimEnd, words_trimStart]

/-- Squeezing changes no word, not even one that has begun before the text. -/
theorem words_append_squeeze (w t : Text) : words (w ++ squeeze t) = words (w ++ t) := by
  induction t generalizing w with
  | nil => rfl
  | cons c t ih =>
    by_cases hc : isBlank c
    · have hspace : isBlank ' ' := by decide
      have ht := ih []
      rw [List.nil_append, List.nil_append] at ht
      rw [words_append_cons hc, ← ht]
      rcases squeeze_cons_of_isBlank hc t with ⟨hs, hh⟩ | ⟨hs, -⟩ <;> rw [hs]
      · obtain ⟨u, hu⟩ := List.head?_eq_some_iff.1 hh
        rw [hu, words_append_cons hspace, words_cons_of_isBlank hspace]
      · exact words_append_cons hspace w (squeeze t)
    · rw [squeeze_cons_of_not_isBlank hc, List.append_cons, ih, ← List.append_cons]

theorem words_collapse (t : Text) : words (collapse t) = words t := by
  rw [collapse, words_trim]
  exact words_append_squeeze [] t

/-! ### Collapsed texts are made of words -/

theorem isCollapsed_of_visible (h : ∀ c ∈ t, ¬ isBlank c) : IsCollapsed t where
  spaces c hc hb := absurd hb (h c hc)
  single := (List.pairwise_of_forall_mem_list fun c hc _ _ hb => absurd hb (h c hc)).isChain
  head c hc := h c (List.mem_of_mem_head? hc)
  last c hc := h c (List.mem_of_mem_getLast? hc)

/-- A collapsed text with white space in it is a word, a space, and a collapsed text again. -/
theorem IsCollapsed.exists_eq_append (h : IsCollapsed t) (hb : ∃ c ∈ t, isBlank c) :
    ∃ w u, t = w ++ ' ' :: u ∧ IsSolid w ∧ u ≠ [] ∧ IsCollapsed u := by
  obtain ⟨c, hc, hblank⟩ := hb
  cases hd : t.dropWhile (!isBlank ·) with
  | nil =>
    have hv := List.dropWhile_eq_nil_iff.1 hd c hc
    rw [hblank] at hv
    exact absurd hv (by decide)
  | cons d u =>
    have ht := List.takeWhile_append_dropWhile (p := (!isBlank ·)) (l := t)
    have hvis : ∀ c ∈ t.takeWhile (!isBlank ·), ¬ isBlank c := fun c hc => by
      simpa using List.mem_takeWhile_imp hc
    have hdb : isBlank d := by
      have := List.head?_dropWhile_not (!isBlank ·) t
      rw [hd] at this
      simpa using this
    rw [hd] at ht
    generalize t.takeWhile (!isBlank ·) = w at ht hvis
    subst ht
    obtain rfl : d = ' ' := h.spaces d (by simp) hdb
    have hne : w ≠ [] := by
      rintro rfl
      exact h.head ' ' rfl hdb
    have hu : u ≠ [] := by
      rintro rfl
      exact h.last ' ' (by simp) hdb
    have hsq : IsSqueezed (' ' :: u) :=
      h.toIsSqueezed.of_piece (List.suffix_append w (' ' :: u)).isInfix
    refine ⟨w, u, rfl, ⟨hne, hvis⟩, hu, hsq.of_piece (List.suffix_cons ' ' u).isInfix,
      fun c hc => ?_, fun c hc => h.last c ?_⟩
    · exact hsq.single.rel_head? hc hdb
    · rw [List.getLast?_append_of_ne_nil _ (List.cons_ne_nil ' ' u),
        List.getLast?_cons_of_ne_nil hu]
      exact hc

/-- A collapsed text is its words with single spaces between them. -/
theorem IsCollapsed.joinWith_words (h : IsCollapsed t) : joinWith [' '] (words t) = t := by
  induction hn : t.length using Nat.strong_induction_on generalizing t with
  | _ n ih =>
    by_cases hb : ∃ c ∈ t, isBlank c
    · obtain ⟨w, u, rfl, hw, hu, hcol⟩ := h.exists_eq_append hb
      have hlt : u.length < n := by
        rw [← hn, List.length_append, List.length_cons]
        omega
      have hjoin := ih u.length hlt hcol rfl
      rw [words_append_cons (by decide), words_of_isSolid hw]
      cases hws : words u with
      | nil =>
        rw [hws] at hjoin
        exact absurd hjoin.symm hu
      | cons v vs =>
        rw [hws] at hjoin
        rw [List.singleton_append, joinWith_cons_cons, hjoin, List.append_assoc]
        rfl
    · have hv : ∀ c ∈ t, ¬ isBlank c := fun c hc hbc => hb ⟨c, hc, hbc⟩
      rcases words_of_visible hv with ⟨rfl, hw⟩ | ⟨-, hw⟩ <;> rw [hw]
      · rfl
      · exact joinWith_singleton [' '] t

/-- To collapse a text is to put its words together with single spaces. -/
theorem collapse_eq_joinWith (t : Text) : collapse t = joinWith [' '] (words t) := by
  rw [← words_collapse, (isCollapsed_collapse t).joinWith_words]

theorem isCollapsed_joinWith (h : ∀ w ∈ ws, IsSolid w) : IsCollapsed (joinWith [' '] ws) := by
  have hc := isCollapsed_collapse (joinWith [' '] ws)
  rwa [collapse_eq_joinWith, words_joinWith h] at hc

end Quire.Text
