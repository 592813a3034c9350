import Mathlib.Data.List.Chain
import Quire.Proofs.Text.Pieces
import Quire.Text.Blank

/-!
# Collapsed texts

`Text.IsCollapsed` is the normal form of white space: none at the ends, and inside only single
spaces. `collapse` gives a text of this form (`isCollapsed_collapse`) and leaves such a text alone
(`collapse_eq_self`). What is solid, with no white space in it, is neither made nor moved: a piece
of that kind in the squeezed text is a piece of the text, and the rest of the squeezed text comes
from what follows it there (`exists_of_squeeze_eq_append`).
-/

namespace Quire.Text

variable {c : Char} {t : Text}

/-- A text that is not empty and has no white space. -/
structure IsSolid (w : Text) : Prop where
  ne_nil : w ≠ []
  visible : ∀ c ∈ w, ¬ isBlank c

/-- The only white space of a text is single spaces. -/
structure IsSqueezed (t : Text) : Prop where
  spaces : ∀ c ∈ t, isBlank c → c = ' '
  single : t.IsChain fun c d => isBlank c → ¬ isBlank d

/-- The only white space of a text is single spaces between characters that are none. -/
structure IsCollapsed (t : Text) : Prop extends IsSqueezed t where
  head : ∀ c ∈ t.head?, ¬ isBlank c
  last : ∀ c ∈ t.getLast?, ¬ isBlank c

theorem IsSqueezed.of_piece {s : Text} (h : IsSqueezed t) (hs : s <:+: t) : IsSqueezed s where
  spaces c hc := h.spaces c (hs.subset hc)
  single := List.IsChain.infix h.single hs

/-- No visible ASCII character is white space. -/
theorem not_isBlank_of_visible (h : 0x21 ≤ c.toNat ∧ c.toNat ≤ 0x7E) : ¬ isBlank c := by
  simp only [isBlank, Bool.or_eq_true, Bool.and_eq_true, decide_eq_true_eq, beq_iff_eq]
  omega

theorem visible_of_isAlphanum (h : c.isAlphanum) : 0x21 ≤ c.toNat ∧ c.toNat ≤ 0x7E := by
  have range {a b : UInt32} (h : a ≤ c.val ∧ c.val ≤ b) :
      a.toNat ≤ c.toNat ∧ c.toNat ≤ b.toNat :=
    h.imp UInt32.le_iff_toNat_le.1 UInt32.le_iff_toNat_le.1
  rcases Bool.or_eq_true_iff.1 h with h | h
  · rcases Bool.or_eq_true_iff.1 h with h | h
    · have h : 65 ≤ c.toNat ∧ c.toNat ≤ 90 := range (of_decide_eq_true h)
      omega
    · have h : 97 ≤ c.toNat ∧ c.toNat ≤ 122 :=
        range ((Bool.and_eq_true_iff.1 h).imp of_decide_eq_true of_decide_eq_true)
      omega
  · have h : 48 ≤ c.toNat ∧ c.toNat ≤ 57 := Char.isDigit_iff_toNat.1 h
    omega

theorem visible_of_isAlphanum_or_contains {cs : Text}
    (hcs : ∀ d ∈ cs, 0x21 ≤ d.toNat ∧ d.toNat ≤ 0x7E) (h : c.isAlphanum || cs.contains c) :
    0x21 ≤ c.toNat ∧ c.toNat ≤ 0x7E := by
  rcases Bool.or_eq_true_iff.1 h with h | h
  · exact visible_of_isAlphanum h
  · exact hcs c (List.contains_iff_mem.1 h)

/-! ### Squeezing -/

theorem squeeze_cons (c : Char) (t : Text) : squeeze (c :: t) = squeezeStep c (squeeze t) :=
  List.foldr_cons ..

theorem squeezeStep_of_not_isBlank (hc : ¬ isBlank c) (t : Text) : squeezeStep c t = c :: t := by
  unfold squeezeStep
  exact if_neg hc

/-- A white space character is dropped in front of a space, and is a space in front of anything
else. -/
theorem squeezeStep_of_isBlank (hc : isBlank c) (t : Text) :
    (squeezeStep c t = t ∧ ' ' ∈ t.head?) ∨ (squeezeStep c t = ' ' :: t ∧ ' ' ∉ t.head?) := by
  unfold squeezeStep
  simp only [hc, if_true]
  split
  · exact Or.inl ⟨rfl, rfl⟩
  · next hs =>
    refine Or.inr ⟨rfl, fun hh => ?_⟩
    obtain ⟨s, hh⟩ := List.head?_eq_some_iff.1 hh
    exact hs s hh

theorem squeeze_cons_of_not_isBlank (hc : ¬ isBlank c) (t : Text) :
    squeeze (c :: t) = c :: squeeze t :=
  (squeeze_cons c t).trans (squeezeStep_of_not_isBlank hc _)

theorem squeeze_cons_of_isBlank (hc : isBlank c) (t : Text) :
    (squeeze (c :: t) = squeeze t ∧ ' ' ∈ (squeeze t).head?) ∨
      (squeeze (c :: t) = ' ' :: squeeze t ∧ ' ' ∉ (squeeze t).head?) := by
  rw [squeeze_cons]
  exact squeezeStep_of_isBlank hc _

theorem isSqueezed_squeeze (t : Text) : IsSqueezed (squeeze t) := by
  induction t with
  | nil => exact ⟨by simp [squeeze], List.isChain_nil⟩
  | cons c t ih =>
    by_cases hc : isBlank c
    · rcases squeeze_cons_of_isBlank hc t with ⟨h, -⟩ | ⟨h, hh⟩
      · rwa [h]
      · rw [h]
        refine ⟨List.forall_mem_cons.2 ⟨fun _ => rfl, ih.spaces⟩, ?_⟩
        refine ih.single.cons fun d hd _ hb => ?_
        rw [ih.spaces d (List.mem_of_mem_head? hd) hb] at hd
        exact hh hd
    · rw [squeeze_cons_of_not_isBlank hc]
      refine ⟨List.forall_mem_cons.2 ⟨fun h => absurd h hc, ih.spaces⟩, ?_⟩
      exact ih.single.cons fun _ _ h => absurd h hc

theorem squeeze_eq_self (h : IsSqueezed t) : squeeze t = t := by
  induction t with
  | nil => rfl
  | cons c t ih =>
    have ht : squeeze t = t := ih (h.of_piece (List.suffix_cons c t).isInfix)
    by_cases hc : isBlank c
    · obtain rfl : c = ' ' := h.spaces c List.mem_cons_self hc
      rcases squeeze_cons_of_isBlank hc t with ⟨-, hh⟩ | ⟨hs, -⟩
      · rw [ht] at hh
        exact absurd (by decide) (h.single.rel_head? hh hc)
      · rw [hs, ht]
    · rw [squeeze_cons_of_not_isBlank hc, ht]

theorem length_squeeze_le (t : Text) : (squeeze t).length ≤ t.length := by
  induction t with
  | nil => exact le_rfl
  | cons c t ih =>
    by_cases hc : isBlank c
    · rcases squeeze_cons_of_isBlank hc t with ⟨h, -⟩ | ⟨h, -⟩ <;> rw [h] <;> simp <;> omega
    · rw [squeeze_cons_of_not_isBlank hc]
      simpa using ih

theorem mem_squeeze (hc : c ∈ squeeze t) : c ∈ t ∨ c = ' ' := by
  induction t with
  | nil => simp [squeeze] at hc
  | cons d t ih =>
    rw [List.mem_cons]
    by_cases hd : isBlank d
    · rcases squeeze_cons_of_isBlank hd t with ⟨h, -⟩ | ⟨h, -⟩ <;> rw [h] at hc
      · tauto
      · rcases List.mem_cons.1 hc with rfl | hc <;> tauto
    · rw [squeeze_cons_of_not_isBlank hd] at hc
      rcases List.mem_cons.1 hc with rfl | hc <;> tauto

/-- A piece without white space at the start of a squeezed text is there in the text. -/
theorem exists_of_squeeze_eq {w r : Text} (hw : ∀ c ∈ w, ¬ isBlank c) (h : squeeze t = w ++ r) :
    ∃ u, t = w ++ u ∧ squeeze u = r := by
  induction w generalizing t with
  | nil => exact ⟨t, rfl, h⟩
  | cons c w ih =>
    obtain ⟨hc, hw'⟩ := List.forall_mem_cons.1 hw
    cases t with
    | nil => simp [squeeze] at h
    | cons d t =>
      by_cases hd : isBlank d
      · rcases squeeze_cons_of_isBlank hd t with ⟨hs, hh⟩ | ⟨hs, -⟩
        · rw [← hs, h, List.cons_append, List.head?_cons, Option.mem_some_iff] at hh
          exact absurd (by rw [hh]; decide) hc
        · rw [hs, List.cons_append, List.cons.injEq] at h
          exact absurd (by rw [← h.1]; decide) hc
      · rw [squeeze_cons_of_not_isBlank hd, List.cons_append, List.cons.injEq] at h
        obtain ⟨rfl, h⟩ := h
        obtain ⟨u, rfl, hu⟩ := ih hw' h
        exact ⟨u, rfl, hu⟩

/-- A solid piece of a squeezed text is one of the text, and what follows it in the
squeezed text is what follows it in the text, squeezed. -/
theorem exists_of_squeeze_eq_append {a w r : Text} (hw : IsSolid w)
    (h : squeeze t = a ++ (w ++ r)) : ∃ b u, t = b ++ (w ++ u) ∧ squeeze u = r := by
  induction t generalizing a with
  | nil =>
    rw [squeeze, List.foldr_nil, eq_comm, List.append_eq_nil_iff, List.append_eq_nil_iff] at h
    exact absurd h.2.1 hw.ne_nil
  | cons d t ih =>
    cases a with
    | nil =>
      obtain ⟨u, hu, hr⟩ := exists_of_squeeze_eq hw.visible h
      exact ⟨[], u, hu, hr⟩
    | cons c a =>
      by_cases hd : isBlank d
      · rcases squeeze_cons_of_isBlank hd t with ⟨hs, -⟩ | ⟨hs, -⟩ <;> rw [hs] at h
        · obtain ⟨b, u, rfl, hu⟩ := ih h
          exact ⟨d :: b, u, rfl, hu⟩
        · obtain ⟨b, u, rfl, hu⟩ := ih (List.cons.inj h).2
          exact ⟨d :: b, u, rfl, hu⟩
      · rw [squeeze_cons_of_not_isBlank hd] at h
        obtain ⟨b, u, rfl, hu⟩ := ih (List.cons.inj h).2
        exact ⟨d :: b, u, rfl, hu⟩

/-! ### Trimming -/

theorem head?_trimStart (t : Text) : ∀ c ∈ (trimStart t).head?, ¬ isBlank c := by
  intro c hc
  have := List.head?_dropWhile_not isBlank t
  rw [Option.mem_def, trimStart] at hc
  rw [hc] at this
  simpa using this

theorem getLast?_trimEnd (t : Text) : ∀ c ∈ (trimEnd t).getLast?, ¬ isBlank c := by
  intro c hc
  rw [trimEnd, List.getLast?_reverse] at hc
  exact head?_trimStart t.reverse c hc

theorem trimStart_isSuffix (t : Text) : trimStart t <:+ t := List.dropWhile_suffix _

theorem trimEnd_isPrefix (t : Text) : trimEnd t <+: t := by
  rw [← List.reverse_suffix, trimEnd, List.reverse_reverse]
  exact trimStart_isSuffix t.reverse

theorem trim_infix (t : Text) : trim t <:+: t :=
  (trimEnd_isPrefix _).isInfix.trans (trimStart_isSuffix t).isInfix

theorem head?_trim (t : Text) : ∀ c ∈ (trim t).head?, ¬ isBlank c := by
  intro c hc
  obtain ⟨r, hr⟩ := trimEnd_isPrefix (trimStart t)
  apply head?_trimStart t c
  rw [← hr, List.head?_append]
  exact Option.or_eq_some_iff.2 (Or.inl hc)

theorem trimStart_eq_self (h : ∀ c ∈ t.head?, ¬ isBlank c) : trimStart t = t := by
  cases t with
  | nil => rfl
  | cons c t => exact List.dropWhile_cons_of_neg (h c rfl)

theorem trimEnd_eq_self (h : ∀ c ∈ t.getLast?, ¬ isBlank c) : trimEnd t = t := by
  rw [← List.head?_reverse] at h
  rw [trimEnd, ← trimStart, trimStart_eq_self h, List.reverse_reverse]

theorem trimStart_append_of_blank {s : Text} (h : ∀ c ∈ s, isBlank c) :
    trimStart (s ++ t) = trimStart t :=
  List.dropWhile_append_of_pos h

theorem trimEnd_append_of_blank {s : Text} (h : ∀ c ∈ s, isBlank c) :
    trimEnd (t ++ s) = trimEnd t := by
  unfold trimEnd
  rw [List.reverse_append, List.dropWhile_append_of_pos fun c hc => h c (List.mem_reverse.1 hc)]

/-- White space at the end of a text does not change what it is when trimmed. -/
theorem trim_append_of_blank {s : Text} (h : ∀ c ∈ s, isBlank c) : trim (t ++ s) = trim t := by
  unfold trim trimStart
  rw [List.dropWhile_append]
  split
  · next he =>
    rw [List.isEmpty_iff] at he
    have hs : List.dropWhile isBlank s = [] := by
      simpa [trimStart] using trimStart_append_of_blank (t := []) h
    rw [hs, he]
  · exact trimEnd_append_of_blank h

/-! ### Collapsing -/

theorem collapse_infix_squeeze (t : Text) : collapse t <:+: squeeze t := trim_infix _

theorem isCollapsed_collapse (t : Text) : IsCollapsed (collapse t) where
  toIsSqueezed := (isSqueezed_squeeze t).of_piece (collapse_infix_squeeze t)
  head := head?_trim _
  last := getLast?_trimEnd _

theorem collapse_eq_self (h : IsCollapsed t) : collapse t = t := by
  rw [collapse, squeeze_eq_self h.toIsSqueezed, trim, trimStart_eq_self h.head,
    trimEnd_eq_self h.last]

/-- Collapsing makes no solid piece that was not there before. -/
theorem Free.collapse {P : Text → Prop} (h : Free P t) (hP : ∀ w, P w → IsSolid w) :
    Free P (collapse t) := by
  intro w hw hPw
  obtain ⟨a, r, hs⟩ := hw.trans (collapse_infix_squeeze t)
  rw [List.append_assoc] at hs
  obtain ⟨b, u, rfl, -⟩ := exists_of_squeeze_eq_append (hP w hPw) hs.symm
  exact h w (List.infix_append' b w u) hPw

theorem length_collapse_le (t : Text) : (collapse t).length ≤ t.length :=
  (collapse_infix_squeeze t).length_le.trans (length_squeeze_le t)

theorem mem_collapse (h : c ∈ collapse t) : c ∈ t ∨ c = ' ' :=
  mem_squeeze ((collapse_infix_squeeze t).subset h)

end Quire.Text
