import Quire.Proofs.Line

/-!
# The one way to cut a text into lines

`IsSegmentation` says what a list of lines is without cutting anything: each is a body and a
terminator, which only the last may lack, none is empty, and no CR LF is torn apart. A text has
exactly one segmentation, and `split` gives it (`split_eq_iff_isSegmentation`). So a list of lines
comes back when its lines are put together and cut again, and two texts can be cut apart exactly
where the first one ends in a whole terminator.
-/

namespace Quire.Line

/-- The text ends in a terminator. -/
def IsTerminated (t : Text) : Prop := '\n' ∈ t.getLast? ∨ '\r' ∈ t.getLast?

/-- The last character of one text and the first of the next are a CR LF. -/
def Tears (s t : Text) : Prop := '\r' ∈ s.getLast? ∧ '\n' ∈ t.head?

instance (t : Text) : Decidable (IsTerminated t) := inferInstanceAs (Decidable (_ ∨ _))

instance (s t : Text) : Decidable (Tears s t) := inferInstanceAs (Decidable (_ ∧ _))

/-- The texts are lines with their terminators, as they follow each other in a text. -/
structure IsSegmentation (ls : List Text) : Prop where
  filled : ∀ l ∈ ls, l ≠ []
  parts : ∀ l ∈ ls, ∃ b e, Unbroken b ∧ IsTerminator e ∧ l = b ++ e
  terminated : ∀ l ∈ ls.dropLast, IsTerminated l
  whole : ls.IsChain fun l m => ¬ Tears l m

variable {l m t u : Text} {ls ms : List Text}

/-! ### Segmentations and lists of lines -/

theorem unbroken_body_iff : Unbroken (body l) ↔ ∃ b e, Unbroken b ∧ IsTerminator e ∧ l = b ++ e := by
  constructor
  · intro h
    exact ⟨body l, terminator l, h, isTerminator_terminator l, (body_append_terminator l).symm⟩
  · rintro ⟨b, e, hb, he, rfl⟩
    rwa [hb.body_append he]

theorem terminator_ne_nil_iff (hb : Unbroken (body l)) : terminator l ≠ [] ↔ IsTerminated l := by
  have ht := isTerminator_terminator l
  rw [IsTerminated, getLast?_eq_or l]
  generalize terminator l = e at ht
  cases ht with
  | none =>
    refine iff_of_false (fun h => h rfl) ?_
    rintro (h | h)
    · exact hb.1 (List.mem_of_getLast? h)
    · exact hb.2 (List.mem_of_getLast? h)
  | lf => simp
  | cr => simp
  | crlf => simp

theorem tears_iff_fuses (hm : Unbroken (body m)) : Tears l m ↔ Fuses l m := by
  refine and_congr Iff.rfl ⟨eq_lf_of_head? hm, ?_⟩
  rintro rfl
  rfl

theorem pairwise_left_iff {α : Type} {p : α → Prop} {as : List α} :
    as.Pairwise (fun a _ => p a) ↔ ∀ a ∈ as.dropLast, p a := by
  rcases List.eq_nil_or_concat' as with rfl | ⟨init, last, rfl⟩
  · simp
  · rw [List.dropLast_concat, List.pairwise_append]
    constructor
    · rintro ⟨-, -, h⟩ a ha
      exact h a ha last List.mem_cons_self
    · intro h
      exact ⟨List.pairwise_of_forall_mem_list fun a ha _ _ => h a ha, List.pairwise_singleton _ _,
        fun a ha _ _ => h a ha⟩

theorem isSegmentation_iff : IsSegmentation ls ↔
    AreLines ls ∧ (∀ l ∈ ls, l ≠ []) ∧ ls.IsChain fun l m => ¬ Fuses l m := by
  have hparts : (∀ l ∈ ls, ∃ b e, Unbroken b ∧ IsTerminator e ∧ l = b ++ e) ↔
      ∀ l ∈ ls, Unbroken (body l) := forall₂_congr fun _ _ => unbroken_body_iff.symm
  have hterm (h : ∀ l ∈ ls, Unbroken (body l)) :
      (∀ l ∈ ls.dropLast, IsTerminated l) ↔ ls.Pairwise fun l _ => terminator l ≠ [] := by
    rw [pairwise_left_iff]
    exact forall₂_congr fun l hl => (terminator_ne_nil_iff (h l (ls.dropLast_subset hl))).symm
  have hchain (h : ∀ l ∈ ls, Unbroken (body l)) :
      (ls.IsChain fun l m => ¬ Tears l m) ↔ ls.IsChain fun l m => ¬ Fuses l m :=
    List.IsChain.iff_of_mem_imp fun _ m _ hm => not_congr (tears_iff_fuses (h m hm))
  constructor
  · rintro ⟨hf, hp, ht, hw⟩
    have h := hparts.1 hp
    exact ⟨⟨h, (hterm h).1 ht⟩, hf, (hchain h).1 hw⟩
  · rintro ⟨⟨h, ht⟩, hf, hw⟩
    exact ⟨hf, hparts.2 h, (hterm h).2 ht, (hchain h).2 hw⟩

theorem isSegmentation_split (t : Text) : IsSegmentation (split t) :=
  isSegmentation_iff.2 ⟨areLines_split t, fun _ => ne_nil_of_mem_split, not_fuses_split t⟩

theorem IsSegmentation.split_flatten (h : IsSegmentation ls) : split ls.flatten = ls := by
  obtain ⟨hlines, hne, hc⟩ := isSegmentation_iff.1 h
  rw [Line.split_flatten hlines hne]
  exact fuse_eq_self_iff.2 hc

theorem split_flatten_eq_iff : split ls.flatten = ls ↔ IsSegmentation ls :=
  ⟨fun h => h ▸ isSegmentation_split ls.flatten, IsSegmentation.split_flatten⟩

/-! ### Text after a text -/

theorem split_eq_nil_iff : split t = [] ↔ t = [] := by
  refine ⟨fun h => ?_, fun h => h ▸ rfl⟩
  rw [← flatten_split t, h]
  rfl

/-- The lines of two texts are lines of one text exactly if the seam is not inside a line or inside
a terminator. -/
theorem isSegmentation_append_iff (hl : IsSegmentation (ls ++ [l])) (hm : IsSegmentation (m :: ms)) :
    IsSegmentation (ls ++ [l] ++ m :: ms) ↔ IsTerminated l ∧ ¬ Tears l m := by
  have hlast : ∀ x ∈ (ls ++ [l]).getLast?, ∀ y ∈ (m :: ms).head?, x = l ∧ y = m := by
    simp +contextual
  constructor
  · rintro ⟨-, -, ht, hw⟩
    refine ⟨ht l ?_, ?_⟩
    · rw [List.dropLast_append_of_ne_nil (List.cons_ne_nil m ms)]
      simp
    · exact (List.isChain_append.1 hw).2.2 l (by simp) m (by simp)
  · rintro ⟨ht, hw⟩
    constructor
    · exact List.forall_mem_append.2 ⟨hl.filled, hm.filled⟩
    · exact List.forall_mem_append.2 ⟨hl.parts, hm.parts⟩
    · have hinit := hl.terminated
      rw [List.dropLast_concat] at hinit
      rw [List.dropLast_append_of_ne_nil (List.cons_ne_nil m ms)]
      simp only [List.forall_mem_append, List.forall_mem_singleton]
      exact ⟨⟨hinit, ht⟩, hm.terminated⟩
    · refine List.isChain_append.2 ⟨hl.whole, hm.whole, fun x hx y hy => ?_⟩
      obtain ⟨rfl, rfl⟩ := hlast x hx y hy
      exact hw

theorem split_append_iff : split (t ++ u) = split t ++ split u ↔
    u = [] ∨ (t = [] ∨ IsTerminated t) ∧ ¬ Tears t u := by
  have hseg : split (t ++ u) = split t ++ split u ↔ IsSegmentation (split t ++ split u) := by
    rw [← split_flatten_eq_iff, List.flatten_append, flatten_split, flatten_split]
  rw [hseg]
  by_cases hu : u = []
  · subst hu
    refine iff_of_true ?_ (Or.inl rfl)
    rw [split_eq_nil_iff.2 rfl, List.append_nil]
    exact isSegmentation_split t
  by_cases ht : t = []
  · subst ht
    exact iff_of_true (isSegmentation_split u) (Or.inr ⟨Or.inl rfl, fun h => by simp [Tears] at h⟩)
  obtain ⟨ls, l, hl⟩ := (List.eq_nil_or_concat' (split t)).resolve_left
    (mt split_eq_nil_iff.1 ht)
  obtain ⟨m, ms, hm⟩ := List.exists_cons_of_ne_nil (mt split_eq_nil_iff.1 hu)
  have hst := isSegmentation_split t
  have hsu := isSegmentation_split u
  rw [hl] at hst
  rw [hm] at hsu
  have hlast : t.getLast? = l.getLast? := by
    rw [← flatten_split t, hl, List.flatten_append, List.flatten_singleton,
      List.getLast?_append_of_ne_nil _ (hst.filled l (by simp))]
  have hhead : u.head? = m.head? := by
    rw [← flatten_split u, hm, List.flatten_cons,
      List.head?_append_of_ne_nil _ (hsu.filled m (by simp))]
  rw [hl, hm, isSegmentation_append_iff hst hsu]
  simp only [hu, ht, false_or, IsTerminated, Tears, hlast, hhead]

/-! ### The one segmentation -/

/-- The lines of a text are its only segmentation, each cut into its body and its terminator by
`splitTerminator`; a list of lines comes back if and only if it is a segmentation; and the lines of
two texts are those of the first and then those of the second exactly if the second is empty, or
the first is empty or ends in a terminator and no CR LF is torn apart. -/
theorem split_eq_iff_isSegmentation (t u : Text) (ls : List Text) :
    (split t = ls ↔ ls.flatten = t ∧ IsSegmentation ls) ∧
    (∀ b e, Unbroken b → IsTerminator e → splitTerminator (b ++ e) = (b, e)) ∧
    (split ls.flatten = ls ↔ IsSegmentation ls) ∧
    (split (t ++ u) = split t ++ split u ↔
      u = [] ∨ (t = [] ∨ IsTerminated t) ∧ ¬ Tears t u) := by
  refine ⟨⟨?_, ?_⟩, fun b e hb he => hb.splitTerminator_append he, split_flatten_eq_iff,
    split_append_iff⟩
  · rintro rfl
    exact ⟨flatten_split t, isSegmentation_split t⟩
  · rintro ⟨rfl, h⟩
    exact h.split_flatten

end Quire.Line
