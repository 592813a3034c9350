import Mathlib.Data.List.Infix
import Quire.Cleaning.Link
import Quire.Proofs.Text.Blank

/-!
# What the link scan leaves alone

`Scan.Closes s c` says that the character `c` closes an open link. Any other step keeps what has
been read (`Scan.reversed_step`) and loses no open link (`Scan.links_step_ne_nil`), while a step
that closes a link makes the text shorter (`Scan.length_reversed_step_lt`). So a text stays as it
is exactly if no link is closed in it, which is to say that no `[[` has a `]]` after it:
`remove_eq_self_iff`. More generally text that brings no `]]` with it closes nothing, whatever has
been read before it, and stays as it is: `remove_append_of_not_doubles`.
-/

namespace Quire.Link

/-- An opening marker with a closing one after it. -/
def Closed (w : Text) : Prop := ∃ label, w = '[' :: '[' :: (label ++ [']', ']'])

theorem Kind.exists_marker_eq (kind : Kind) : ∃ mark, kind.marker = mark ++ ['[', '['] := by
  cases kind
  · exact ⟨[], rfl⟩
  · exact ⟨['!'], rfl⟩

/-- The link whose opening marker follows the reversed text `before`. -/
def Open.after : Text → Open
  | '!' :: before => ⟨.embed, before⟩
  | before => ⟨.reference, before⟩

namespace Scan

variable {s : Scan} {c : Char} {t : Text}

/-- The character completes the marker of an open link. -/
def Closes (s : Scan) (c : Char) : Prop := c = ']' ∧ s.body.head? = some ']' ∧ s.links ≠ []

theorem reversed_push (s : Scan) (c : Char) : (s.push c).reversed = c :: s.reversed := rfl

/-- Inside an embed the marker `[[` is plain text, elsewhere it opens a link. -/
theorem opened_cases (before : Text) (links : List Open) :
    (∃ outside rest, links = ⟨.embed, outside⟩ :: rest ∧
      opened before links = ⟨'[' :: '[' :: before, links⟩) ∨
    ((∀ link ∈ links.head?, link.kind = .reference) ∧
      opened before links = ⟨[], Open.after before :: links⟩) := by
  rcases links with _ | ⟨⟨_ | _, outside⟩, links⟩
  · refine Or.inr ⟨by simp, ?_⟩
    unfold opened Open.after
    split <;> simp_all
  · refine Or.inr ⟨by simp, ?_⟩
    unfold opened Open.after
    split <;> simp_all
  · exact Or.inl ⟨outside, links, rfl, rfl⟩

theorem opened_of_reference {links : List Open} (h : ∀ link ∈ links.head?, link.kind = .reference)
    (before : Text) : opened before links = ⟨[], Open.after before :: links⟩ := by
  rcases opened_cases before links with ⟨outside, rest, rfl, -⟩ | ⟨-, ho⟩
  · exact absurd (h _ rfl) Kind.noConfusion
  · exact ho

theorem reversed_opened (before : Text) (links : List Open) :
    (opened before links).reversed = '[' :: (Scan.mk ('[' :: before) links).reversed := by
  unfold opened
  split <;> simp [reversed, Kind.marker]

theorem links_opened_ne_nil (before : Text) (links : List Open) :
    (opened before links).links ≠ [] := by
  unfold opened
  split <;> exact List.cons_ne_nil _ _

/-! ### One step -/

/-- What one character can do: close a link, open one, or be kept as it is. -/
theorem step_cases (s : Scan) (c : Char) :
    (Closes s c ∧ ∃ inner, s.body = ']' :: inner ∧ s.step c = close inner s.links) ∨
    (¬ Closes s c ∧ c = '[' ∧ ∃ before, s.body = '[' :: before ∧
      s.step c = opened before s.links) ∨
    (¬ Closes s c ∧ (c = '[' → s.body.head? ≠ some '[') ∧ s.step c = s.push c) := by
  obtain ⟨body, links⟩ := s
  unfold step
  split
  · next inner hb =>
    subst hb
    cases links with
    | nil => exact Or.inr (Or.inr ⟨fun h => h.2.2 rfl, fun h => absurd h (by decide), rfl⟩)
    | cons link links => exact Or.inl ⟨⟨rfl, rfl, List.cons_ne_nil _ _⟩, inner, rfl, rfl⟩
  · next before hb =>
    subst hb
    exact Or.inr (Or.inl ⟨fun h => absurd h.1 (by decide), rfl, before, rfl, rfl⟩)
  · next hclose hopen =>
    refine Or.inr (Or.inr ⟨fun h => ?_, fun hc h => ?_, rfl⟩)
    · obtain ⟨inner, hb⟩ := List.head?_eq_some_iff.1 h.2.1
      exact hclose inner h.1 hb
    · obtain ⟨before, hb⟩ := List.head?_eq_some_iff.1 h
      exact hopen before hc hb

theorem step_eq_push (hclose : ¬ Closes s c) (hopen : c = '[' → '[' ∉ s.body.head?) :
    s.step c = s.push c := by
  rcases step_cases s c with ⟨hc, -⟩ | ⟨-, rfl, before, hb, -⟩ | ⟨-, -, hs⟩
  · exact absurd hc hclose
  · exact absurd (congrArg List.head? hb) (hopen rfl)
  · exact hs

theorem reversed_step (h : ¬ Closes s c) : (s.step c).reversed = c :: s.reversed := by
  rcases step_cases s c with ⟨hc, -⟩ | ⟨-, rfl, before, hb, hs⟩ | ⟨-, -, hs⟩
  · exact absurd hc h
  · rw [hs, reversed_opened, ← hb]
  · rw [hs, reversed_push]

theorem links_step_ne_nil (h : ¬ Closes s c) (hl : s.links ≠ []) : (s.step c).links ≠ [] := by
  rcases step_cases s c with ⟨hc, -⟩ | ⟨-, rfl, before, hb, hs⟩ | ⟨-, -, hs⟩
  · exact absurd hc h
  · rw [hs]
    exact links_opened_ne_nil before s.links
  · rw [hs]
    exact hl

/-- Closing a link drops its markers, and the body of an embed with them. -/
theorem reversed_step_sublist_of_closes (h : Closes s c) :
    (s.step c).reversed.Sublist s.reversed.tail := by
  rcases step_cases s c with ⟨-, inner, hb, hs⟩ | ⟨hc, -⟩ | ⟨hc, -⟩
  · obtain ⟨body, links⟩ := s
    obtain ⟨link, links, rfl⟩ := List.exists_cons_of_ne_nil h.2.2
    subst hb
    rw [hs]
    obtain ⟨kind, before⟩ := link
    simp only [reversed, List.cons_append, List.tail_cons, List.flatMap_cons]
    cases kind with
    | reference =>
      simp only [close, List.append_assoc]
      exact (List.sublist_append_right _ _).append_left inner
    | embed =>
      simp only [close, List.append_assoc]
      exact (List.sublist_append_right _ _).trans (List.sublist_append_right _ _)
  · exact absurd h hc
  · exact absurd h hc

theorem length_reversed_step_lt (h : Closes s c) :
    (s.step c).reversed.length < (c :: s.reversed).length := by
  have := (reversed_step_sublist_of_closes h).length_le
  rw [List.length_tail] at this
  rw [List.length_cons]
  omega

theorem reversed_step_sublist (s : Scan) (c : Char) :
    (s.step c).reversed.Sublist (c :: s.reversed) := by
  by_cases h : Closes s c
  · exact ((reversed_step_sublist_of_closes h).trans (List.tail_sublist _)).cons c
  · rw [reversed_step h]

/-- A closed link ends where a step closes one. -/
theorem exists_closed_of_closes (h : Closes s c) :
    ∃ a w, s.restored ++ [c] = a ++ w ∧ Closed w := by
  obtain ⟨rfl, hb, hl⟩ := h
  obtain ⟨inner, hb⟩ := List.head?_eq_some_iff.1 hb
  obtain ⟨⟨kind, before⟩, links, hl⟩ := List.exists_cons_of_ne_nil hl
  obtain ⟨mark, hmark⟩ := kind.exists_marker_eq
  refine ⟨(restored ⟨before, links⟩) ++ mark, '[' :: '[' :: (inner.reverse ++ [']', ']']), ?_,
    inner.reverse, rfl⟩
  simp [restored, reversed, hb, hl, hmark]

/-! ### A whole text -/

theorem read_cons (s : Scan) (c : Char) (t : Text) : s.read (c :: t) = (s.step c).read t := rfl

theorem read_append (s : Scan) (t u : Text) : s.read (t ++ u) = (s.read t).read u :=
  List.foldl_append

theorem reversed_read_sublist (s : Scan) (t : Text) :
    (s.read t).reversed.Sublist (t.reverse ++ s.reversed) := by
  induction t generalizing s with
  | nil => exact List.Sublist.refl _
  | cons c t ih =>
    rw [read_cons, List.reverse_cons, List.append_assoc]
    exact (ih (s.step c)).trans ((reversed_step_sublist s c).append_left _)

/-- Reading a text keeps all of it. -/
def Keeps (s : Scan) (t : Text) : Prop := (s.read t).reversed = t.reverse ++ s.reversed

theorem keeps_cons_iff : Keeps s (c :: t) ↔ ¬ Closes s c ∧ Keeps (s.step c) t := by
  unfold Keeps
  rw [read_cons, List.reverse_cons, List.append_assoc, List.singleton_append]
  constructor
  · intro h
    have hc : ¬ Closes s c := by
      -- What a closing step drops the rest of the text cannot bring back.
      intro hc
      have h1 := (reversed_read_sublist (s.step c) t).length_le
      have h2 := length_reversed_step_lt hc
      rw [h] at h1
      simp only [List.length_append, List.length_reverse] at h1
      omega
    exact ⟨hc, by rw [h, reversed_step hc]⟩
  · rintro ⟨hc, h⟩
    rw [h, reversed_step hc]

theorem keeps_append_iff {u : Text} : Keeps s (t ++ u) ↔ Keeps s t ∧ Keeps (s.read t) u := by
  induction t generalizing s with
  | nil => exact (iff_of_eq (true_and _)).symm.trans (and_congr_left' (by simp [Keeps, read]))
  | cons c t ih => rw [List.cons_append, keeps_cons_iff, keeps_cons_iff, ih, read_cons, and_assoc]

theorem Keeps.links_ne_nil (h : Keeps s t) (hl : s.links ≠ []) : (s.read t).links ≠ [] := by
  induction t generalizing s with
  | nil => exact hl
  | cons c t ih =>
    obtain ⟨hc, h⟩ := keeps_cons_iff.1 h
    exact ih h (links_step_ne_nil hc hl)

theorem keeps_of_free (h : Text.Free Closed (s.restored ++ t)) : Keeps s t := by
  induction t generalizing s with
  | nil => rfl
  | cons c t ih =>
    rw [← List.singleton_append, ← List.append_assoc] at h
    have hc : ¬ Closes s c := by
      intro hc
      obtain ⟨a, w, he, hw⟩ := exists_closed_of_closes hc
      rw [he] at h
      exact h w (List.infix_append a w t) hw
    refine keeps_cons_iff.2 ⟨hc, ih ?_⟩
    rwa [restored, reversed_step hc, List.reverse_cons, ← restored]

/-! ### Brackets -/

theorem step_close (h : ¬ Closes s ']') : (s.step ']').body.head? = some ']' := by
  rcases step_cases s ']' with ⟨hc, -⟩ | ⟨-, hc, -⟩ | ⟨-, -, hs⟩
  · exact absurd hc h
  · exact absurd hc (by decide)
  · rw [hs]
    rfl

theorem step_open (s : Scan) : (s.step '[').links ≠ [] ∨ (s.step '[').body.head? = some '[' := by
  rcases step_cases s '[' with ⟨hc, -⟩ | ⟨-, -, before, -, hs⟩ | ⟨-, -, hs⟩
  · exact absurd hc.1 (by decide)
  · rw [hs]
    exact Or.inl (links_opened_ne_nil before s.links)
  · rw [hs]
    exact Or.inr rfl

/-- After `[[` a link is open. -/
theorem links_read_open_ne_nil (s : Scan) : (s.read ['[', '[']).links ≠ [] := by
  show ((s.step '[').step '[').links ≠ []
  have hn : ∀ s, ¬ Closes s '[' := fun s h => absurd h.1 (by decide)
  rcases step_open s with h | h
  · exact links_step_ne_nil (hn _) h
  · rcases step_cases (s.step '[') '[' with ⟨hc, -⟩ | ⟨-, -, before, -, hs⟩ | ⟨-, hb, -⟩
    · exact absurd hc (hn _)
    · rw [hs]
      exact links_opened_ne_nil before _
    · exact absurd h (hb rfl)

/-- While a link is open, `]]` closes one. -/
theorem not_keeps_close (hl : s.links ≠ []) : ¬ Keeps s [']', ']'] := by
  intro h
  obtain ⟨h1, h⟩ := keeps_cons_iff.1 h
  obtain ⟨h2, -⟩ := keeps_cons_iff.1 h
  exact h2 ⟨rfl, step_close h1, links_step_ne_nil h1 hl⟩

theorem head?_body_step (h : ¬ Closes s c) (hb : ']' ∈ (s.step c).body.head?) : c = ']' := by
  rcases step_cases s c with ⟨hc, -⟩ | ⟨-, -, before, -, hs⟩ | ⟨-, -, hs⟩
  · exact absurd hc h
  · rw [hs] at hb
    unfold opened at hb
    split at hb <;> simp at hb
  · rw [hs] at hb
    exact Option.mem_some_iff.1 hb

/-- Text in which no two closing brackets stand side by side closes nothing. The character `p` is
the one before the text. -/
theorem keeps_of_not_doubles {p : Char} (hp : ']' ∈ s.body.head? → p = ']')
    (h : ¬ Text.Doubles ']' (p :: t)) : Keeps s t := by
  induction t generalizing s p with
  | nil => rfl
  | cons c t ih =>
    rw [Text.doubles_cons_iff, not_or] at h
    have hc : ¬ Closes s c := by
      rintro ⟨rfl, hb, -⟩
      exact h.1 ⟨hp hb, rfl⟩
    exact keeps_cons_iff.2 ⟨hc, ih (head?_body_step hc) h.2⟩

theorem not_keeps_of_closed {w : Text} (hw : Closed w) : ¬ Keeps s w := by
  obtain ⟨label, rfl⟩ := hw
  intro h
  have h : Keeps s (['[', '['] ++ (label ++ [']', ']'])) := h
  rw [keeps_append_iff, keeps_append_iff] at h
  exact not_keeps_close (h.2.1.links_ne_nil (links_read_open_ne_nil s)) h.2.2

end Scan

open Scan

variable {t : Text}

theorem remove_sublist (t : Text) : (remove t).Sublist t := by
  have h := (reversed_read_sublist start t).reverse
  rwa [List.reverse_append, List.reverse_reverse] at h

theorem remove_eq_self_iff_keeps : remove t = t ↔ Keeps start t := by
  have hstart : start.reversed = [] := rfl
  rw [Keeps, hstart, List.append_nil, remove, restored, ← List.reverse_inj, List.reverse_reverse]

theorem remove_eq_self_iff : remove t = t ↔ Text.Free Closed t := by
  rw [remove_eq_self_iff_keeps]
  constructor
  · rintro h w ⟨a, b, rfl⟩ hw
    rw [keeps_append_iff, keeps_append_iff] at h
    exact not_keeps_of_closed hw h.1.2
  · exact fun h => keeps_of_free h

/-! ### Text after a text -/

/-- What brings no `]]` with it, not even with a `]` before it, is put after what becomes of the
text before it. -/
theorem remove_append_of_not_doubles {s : Text} (h : ¬ Text.Doubles ']' (']' :: s)) :
    remove (t ++ s) = remove t ++ s := by
  have hk : Keeps (start.read t) s := keeps_of_not_doubles (fun _ => rfl) h
  rw [remove, remove, restored, restored, read_append, hk, List.reverse_append,
    List.reverse_reverse]

theorem free_closed_append_of_not_doubles {s : Text} (h : Text.Free Closed t)
    (hs : ¬ Text.Doubles ']' (']' :: s)) : Text.Free Closed (t ++ s) := by
  rw [← remove_eq_self_iff, remove_append_of_not_doubles hs, remove_eq_self_iff.2 h]

/-! ### Closed links in other texts -/

/-- Text without a closing bracket closes no link. -/
theorem free_closed_append {s : Text} (h : Text.Free Closed t) (hs : ']' ∉ s) :
    Text.Free Closed (t ++ s) := by
  refine free_closed_append_of_not_doubles h fun hd => ?_
  rcases Text.doubles_cons_iff.1 hd with ⟨-, hmem⟩ | hd
  · exact hs (List.mem_of_mem_head? hmem)
  · exact hs hd.mem

/-- Collapsing white space closes no link. -/
theorem free_closed_collapse (h : Text.Free Closed t) : Text.Free Closed (Text.collapse t) := by
  rintro w hw ⟨label, rfl⟩
  obtain ⟨a, r, hs⟩ := hw.trans (Text.collapse_infix_squeeze t)
  have hs : Text.squeeze t = a ++ (['[', '['] ++ (label ++ ([']', ']'] ++ r))) := by
    rw [← hs]
    simp
  obtain ⟨b, u, rfl, hu⟩ :=
    Text.exists_of_squeeze_eq_append ⟨List.cons_ne_nil _ _, by simp [isBlank]⟩ hs
  obtain ⟨label', v, rfl, -⟩ :=
    Text.exists_of_squeeze_eq_append ⟨List.cons_ne_nil _ _, by simp [isBlank]⟩ hu
  refine h ('[' :: '[' :: (label' ++ [']', ']'])) ⟨b, v, ?_⟩ ⟨label', rfl⟩
  simp

end Quire.Link
