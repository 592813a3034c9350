import Quire.Proofs.Cleaning.Link
import Quire.Proofs.Text.Pieces

/-!
# Where closing brackets meet

Two closing brackets in the body of an open link become neighbours only when a link between them is
closed: one stands before that link, and the other at the start of its body (`Scan.Meets`). In the
text the first one has an opening bracket after it, perhaps with a `!` between, and the second one
has an opening bracket or two closing ones before it. A text where one of these does not occur
(`MayMeet`) has no `]]` in the body of an open link (`not_doubles_of_not_mayMeet`).
-/

namespace Quire.Link

/-- There is a `][` or a `]![` in the text, and a `[]` or a `]]]`. -/
def MayMeet (t : Text) : Prop :=
  ([']', '['] <:+: t ∨ [']', '!', '['] <:+: t) ∧ (['[', ']'] <:+: t ∨ [']', ']', ']'] <:+: t)

instance (t : Text) : Decidable (MayMeet t) := inferInstanceAs (Decidable (_ ∧ _))

namespace Scan

/-- The bodies of the links that are still open, innermost first, reversed like all texts of a
scan. -/
def openBodies (s : Scan) : List Text := (s.body :: s.links.map Open.before).dropLast

/-- A closing bracket stands before the innermost link and another at the start of its body. -/
def Meets (s : Scan) : Prop :=
  s.body.getLast? = some ']' ∧ ∃ link ∈ s.links.head?, link.before.head? = some ']'

variable {s : Scan} {c : Char} {body body' t u : Text} {link : Open} {links : List Open}
  {P : Text → Prop}

theorem openBodies_cons (body : Text) (link : Open) (links : List Open) :
    openBodies ⟨body, link :: links⟩ = body :: openBodies ⟨link.before, links⟩ := rfl

/-- Only the body of the innermost link changes, and that of the text itself does not count. -/
theorem forall_openBodies_of_body (h : ∀ b ∈ openBodies ⟨body, links⟩, P b)
    (hbody : links ≠ [] → P body → P body') : ∀ b ∈ openBodies ⟨body', links⟩, P b := by
  cases links with
  | nil => exact fun b hb => absurd hb List.not_mem_nil
  | cons link links =>
    rw [openBodies_cons, List.forall_mem_cons] at h ⊢
    exact ⟨hbody (List.cons_ne_nil _ _) h.1, h.2⟩

theorem before_after_isSuffix (before : Text) : (Open.after before).before <:+ before := by
  unfold Open.after
  split
  · exact List.suffix_cons _ _
  · exact List.suffix_refl _

/-! ### Meetings -/

theorem not_doubles_step (h : ∀ b ∈ s.openBodies, ¬ Text.Doubles ']' b) (hm : ¬ s.Meets) (c : Char) :
    ∀ b ∈ (s.step c).openBodies, ¬ Text.Doubles ']' b := by
  obtain ⟨body, links⟩ := s
  rcases step_cases ⟨body, links⟩ c with ⟨⟨-, -, hl⟩, inner, hb, hs⟩ | ⟨-, -, before, hb, hs⟩ |
    ⟨hc, -, hs⟩
  · obtain ⟨⟨kind, before⟩, links, rfl⟩ := List.exists_cons_of_ne_nil hl
    obtain rfl : body = ']' :: inner := hb
    rw [openBodies_cons, List.forall_mem_cons] at h
    rw [hs]
    cases kind with
    | embed => exact h.2
    | reference =>
      refine forall_openBodies_of_body h.2 fun _ hbefore => ?_
      rw [Text.doubles_append_iff]
      rintro (hd | hd | ⟨hinner, hd⟩)
      · exact h.1 (hd.mono (List.suffix_cons _ _).isInfix)
      · exact hbefore hd
      · refine hm ⟨?_, _, rfl, hd⟩
        rw [List.getLast?_cons, Option.mem_def.1 hinner]
        rfl
  · obtain rfl : body = '[' :: before := hb
    rw [hs]
    rcases opened_cases before links with ⟨outside, rest, -, ho⟩ | ⟨-, ho⟩
    · rw [ho]
      refine forall_openBodies_of_body h fun _ hbody => ?_
      rw [Text.doubles_cons_iff]
      exact not_or.2 ⟨fun hd => absurd hd.1 (by decide), hbody⟩
    · rw [ho, openBodies_cons, List.forall_mem_cons]
      refine ⟨Text.not_doubles_nil, forall_openBodies_of_body h fun _ hbody hd => hbody ?_⟩
      exact hd.mono ((before_after_isSuffix before).trans (List.suffix_cons _ _)).isInfix
  · rw [hs]
    refine forall_openBodies_of_body h fun hl hbody => ?_
    rw [Text.doubles_cons_iff]
    exact not_or.2 ⟨fun hd => hc ⟨hd.1, hd.2, hl⟩, hbody⟩

/-- As long as nothing meets, no body of an open link has a `]]`. -/
theorem not_doubles_read (h : ∀ u, u <+: t → ¬ (start.read u).Meets) :
    ∀ b ∈ (start.read t).openBodies, ¬ Text.Doubles ']' b := by
  induction t using List.reverseRecOn with
  | nil => exact fun b hb => absurd hb List.not_mem_nil
  | append_singleton t c ih =>
    have ht : t <+: t ++ [c] := List.prefix_append t [c]
    rw [read_append]
    exact not_doubles_step (ih fun u hu => h u (hu.trans ht)) (h t ht) c

/-! ### Closing brackets before links -/

/-- After the text `u` no closing bracket stands before an open link, nor before a marker that has
been begun, unless the text ends in one. -/
structure KeepsBefore (u : Text) (s : Scan) : Prop where
  before : ∀ link ∈ s.links, link.before.head? ≠ some ']'
  top : ¬ [']'] <:+ u → ¬ [']'] <+: s.body ∧ ¬ ['[', ']'] <+: s.body ∧
    ¬ ['[', '!', ']'] <+: s.body ∧ (['!', ']'] <+: s.body → [']', '!'] <:+ u)

theorem suffix_concat (hs : t <:+ u) (c : Char) : t ++ [c] <:+ u ++ [c] := by
  obtain ⟨r, rfl⟩ := hs
  exact ⟨r, (List.append_assoc _ _ _).symm⟩

theorem KeepsBefore.step (h : KeepsBefore u s) (hu : ¬ [']', '['] <:+ u ++ [c])
    (hu' : ¬ [']', '!', '['] <:+ u ++ [c]) : KeepsBefore (u ++ [c]) (s.step c) := by
  have hend (hc : c = ']') : [']'] <:+ u ++ [c] := hc ▸ List.suffix_append u [']']
  have hlast (hc : c = '[') : ¬ [']'] <:+ u := fun hs => hu (hc ▸ suffix_concat hs '[')
  obtain ⟨body, links⟩ := s
  rcases step_cases ⟨body, links⟩ c with ⟨⟨hc, -, hl⟩, inner, -, hs⟩ | ⟨-, hc, before, hb, hs⟩ |
    ⟨-, -, hs⟩
  · obtain ⟨⟨kind, before⟩, links, rfl⟩ := List.exists_cons_of_ne_nil hl
    have hlinks := fun l hm => h.before l (List.mem_cons_of_mem _ hm)
    rw [hs]
    cases kind with
    | _ => exact ⟨hlinks, fun hn => absurd (hend hc) hn⟩
  · obtain rfl : body = '[' :: before := hb
    rw [hs]
    rcases opened_cases before links with ⟨outside, rest, -, ho⟩ | ⟨-, ho⟩
    · rw [ho]
      exact ⟨h.before, fun _ => by simp⟩
    · obtain ⟨-, hreference, hembed, -⟩ := h.top (hlast hc)
      rw [ho]
      refine ⟨List.forall_mem_cons.2 ⟨fun hd => ?_, h.before⟩, fun _ => by simp⟩
      unfold Open.after at hd
      split at hd
      · next before =>
        obtain ⟨r, rfl⟩ := List.head?_eq_some_iff.1 hd
        exact hembed (by simp)
      · obtain ⟨r, rfl⟩ := List.head?_eq_some_iff.1 hd
        exact hreference (by simp)
  · rw [hs]
    refine ⟨h.before, fun hn => ?_⟩
    simp only [push, List.cons_prefix_cons]
    refine ⟨fun hc => hn (hend hc.1.symm), fun hc => ?_, fun hc => ?_, fun hc => ?_⟩
    · exact (h.top (hlast hc.1.symm)).1 (by simpa using hc.2)
    · refine hu' ?_
      have hbang := (h.top (hlast hc.1.symm)).2.2.2 (by simpa using hc.2)
      exact hc.1 ▸ suffix_concat hbang '['
    · by_contra hno
      refine (h.top fun hs => hno ?_).1 (by simpa using hc.2)
      exact hc.1 ▸ suffix_concat hs '!'

theorem keepsBefore_read (h : ¬ [']', '['] <:+: t) (h' : ¬ [']', '!', '['] <:+: t) :
    KeepsBefore t (start.read t) := by
  induction t using List.reverseRecOn with
  | nil => exact ⟨fun l hl => absurd hl List.not_mem_nil, fun _ => by simp [start, read]⟩
  | append_singleton t c ih =>
    have ht : t <:+: t ++ [c] := (List.prefix_append t [c]).isInfix
    rw [read_append]
    exact (ih (fun hi => h (hi.trans ht)) fun hi => h' (hi.trans ht)).step
      (fun hs => h hs.isInfix) fun hs => h' hs.isInfix

/-! ### Closing brackets at the start of links -/

/-- After the text `u` no body of an open link begins with a closing bracket, and the text tells if
the innermost one is empty or ends in one. -/
structure KeepsStarts (u : Text) (s : Scan) : Prop where
  starts : ∀ b ∈ s.openBodies, b.getLast? ≠ some ']'
  top : s.body.head? = some ']' → [']'] <:+ u
  empty : s.body = [] → s.links ≠ [] → ['['] <:+ u ∨ [']', ']'] <:+ u

theorem KeepsStarts.step (h : KeepsStarts u s) (hu : ¬ ['[', ']'] <:+ u ++ [c])
    (hu' : ¬ [']', ']', ']'] <:+ u ++ [c]) : KeepsStarts (u ++ [c]) (s.step c) := by
  obtain ⟨body, links⟩ := s
  rcases step_cases ⟨body, links⟩ c with ⟨⟨rfl, hhead, hl⟩, inner, hb, hs⟩ |
    ⟨-, rfl, before, hb, hs⟩ | ⟨-, -, hs⟩
  · obtain ⟨⟨kind, before⟩, links, rfl⟩ := List.exists_cons_of_ne_nil hl
    obtain rfl : body = ']' :: inner := hb
    have hend : [']', ']'] <:+ u ++ [']'] := suffix_concat (h.top hhead) ']'
    have hstarts := h.starts
    rw [openBodies_cons, List.forall_mem_cons] at hstarts
    rw [hs]
    cases kind with
    | embed => exact ⟨hstarts.2, fun _ => List.suffix_append u [']'], fun _ _ => Or.inr hend⟩
    | reference =>
      refine ⟨forall_openBodies_of_body hstarts.2 fun _ hbefore hlast => ?_,
        fun _ => List.suffix_append u [']'], fun _ _ => Or.inr hend⟩
      rw [List.getLast?_append] at hlast
      cases hb : before.getLast? with
      | some c =>
        rw [hb] at hlast hbefore
        exact hbefore hlast
      | none =>
        rw [hb, Option.none_or] at hlast
        refine hstarts.1 ?_
        rw [List.getLast?_cons, hlast]
        rfl
  · obtain rfl : body = '[' :: before := hb
    rw [hs]
    rcases opened_cases before links with ⟨outside, rest, -, ho⟩ | ⟨-, ho⟩
    · rw [ho]
      refine ⟨forall_openBodies_of_body h.starts fun _ hbody => ?_, by simp, by simp⟩
      rwa [List.getLast?_cons_cons]
    · rw [ho]
      refine ⟨?_, by simp, fun _ _ => Or.inl (List.suffix_append u ['['])⟩
      rw [openBodies_cons, List.forall_mem_cons]
      refine ⟨by simp, forall_openBodies_of_body h.starts fun _ hbody hlast => hbody ?_⟩
      obtain ⟨r, hr⟩ := (before_after_isSuffix before).trans (List.suffix_cons '[' before)
      rw [← hr, List.getLast?_append, hlast]
      rfl
  · rw [hs]
    refine ⟨forall_openBodies_of_body h.starts fun hl hbody => ?_, fun hc => ?_, by simp [push]⟩
    · cases body with
      | cons d body => rwa [List.getLast?_cons_cons]
      | nil =>
        intro hc
        obtain rfl : c = ']' := by simpa using hc
        rcases h.empty rfl hl with he | he
        · exact hu (suffix_concat he ']')
        · exact hu' (suffix_concat he ']')
    · obtain rfl : c = ']' := by simpa [push] using hc
      exact List.suffix_append u [']']

theorem keepsStarts_read (h : ¬ ['[', ']'] <:+: t) (h' : ¬ [']', ']', ']'] <:+: t) :
    KeepsStarts t (start.read t) := by
  induction t using List.reverseRecOn with
  | nil =>
    exact ⟨fun b hb => absurd hb List.not_mem_nil, fun hc => by simp [start, read] at hc,
      fun _ hl => absurd rfl hl⟩
  | append_singleton t c ih =>
    have ht : t <:+: t ++ [c] := (List.prefix_append t [c]).isInfix
    rw [read_append]
    exact (ih (fun hi => h (hi.trans ht)) fun hi => h' (hi.trans ht)).step
      (fun hs => h hs.isInfix) fun hs => h' hs.isInfix

/-! ### Texts where nothing meets -/

theorem not_meets_read (h : ¬ MayMeet t) : ¬ (start.read t).Meets := by
  rintro ⟨hlast, link, hl, hhead⟩
  rcases not_and_or.1 h with h | h
  · obtain ⟨h, h'⟩ := not_or.1 h
    exact (keepsBefore_read h h').before link (List.mem_of_mem_head? hl) hhead
  · obtain ⟨h, h'⟩ := not_or.1 h
    refine (keepsStarts_read h h').starts _ ?_ hlast
    obtain ⟨links, hlinks⟩ := List.head?_eq_some_iff.1 hl
    rw [openBodies, hlinks]
    exact List.mem_cons_self

theorem MayMeet.of_isPrefix (h : MayMeet u) (hu : u <+: t) : MayMeet t :=
  ⟨h.1.imp (·.trans hu.isInfix) (·.trans hu.isInfix),
    h.2.imp (·.trans hu.isInfix) (·.trans hu.isInfix)⟩

theorem not_doubles_of_not_mayMeet (h : ¬ MayMeet t) :
    ∀ b ∈ (start.read t).openBodies, ¬ Text.Doubles ']' b :=
  not_doubles_read fun _ hu => not_meets_read fun hm => h (MayMeet.of_isPrefix hm hu)

end Scan

end Quire.Link
