import Quire.Proofs.Cleaning.Link

/-!
# Links among other text

A text that is read after other text, or inside a link, is read as if it stood alone, with what was
there before it left in its place: `Scan.step_onto` says so of text before the outermost link, and
`Scan.step_within` of open links around. So links are removed one after the other
(`remove_append`), a marker that nothing closes is put back in its place
(`remove_open_append`), and as a whole `remove` acts exactly on the texts with a closed link
(`remove_keeps_unclosed`).
-/

namespace Quire.Link

/-- The open links, with the text `x` before all of them. -/
def Open.onto (x : Text) : List Open → List Open
  | [] => []
  | [link] => [⟨link.kind, link.before ++ x⟩]
  | link :: next :: links => link :: Open.onto x (next :: links)

theorem Open.after_append {x : Text} (h : '!' ∉ x.head?) (before : Text) :
    Open.after (before ++ x) = ⟨(Open.after before).kind, (Open.after before).before ++ x⟩ := by
  rcases before with _ | ⟨d, before⟩
  · rcases x with _ | ⟨e, x⟩
    · rfl
    · have he : e ≠ '!' := fun he => h (he ▸ rfl)
      simp [Open.after, he]
  · by_cases hd : d = '!'
    · subst hd
      rfl
    · simp [Open.after, hd]

namespace Scan

/-- The scan with the text `x` before all that it has read. -/
def onto (x : Text) : Scan → Scan
  | ⟨body, []⟩ => ⟨body ++ x, []⟩
  | ⟨body, link :: links⟩ => ⟨body, Open.onto x (link :: links)⟩

/-- The scan inside the links `outer`. -/
def within (outer : List Open) (s : Scan) : Scan := ⟨s.body, s.links ++ outer⟩

/-- The character completes a closing marker, but no link is open. -/
def Strays (s : Scan) (c : Char) : Prop := c = ']' ∧ ']' ∈ s.body.head? ∧ s.links = []

variable {s : Scan} {c : Char} {x t : Text} {outer : List Open}

/-! ### Text before -/

theorem close_onto (x inner : Text) (link : Open) (links : List Open) :
    close inner (Open.onto x (link :: links)) = (close inner (link :: links)).onto x := by
  obtain ⟨kind, before⟩ := link
  cases links with
  | nil => cases kind <;> simp [Open.onto, close, onto]
  | cons next links => cases kind <;> rfl

theorem opened_onto (x before : Text) (link : Open) (links : List Open) :
    opened before (Open.onto x (link :: links)) = (opened before (link :: links)).onto x := by
  have hkind : ∀ l ∈ (Open.onto x (link :: links)).head?, l.kind = link.kind := by
    cases links <;> simp [Open.onto]
  rcases opened_cases before (link :: links) with ⟨outside, rest, he, ho⟩ | ⟨hr, ho⟩
  · obtain ⟨rfl, rfl⟩ := List.cons.inj he
    rw [ho]
    cases links <;> rfl
  · rw [ho, opened_of_reference fun l hl => (hkind l hl).trans (hr link rfl)]
    rfl

/-- Text before the outermost link has no part in what a step does, if it cannot be the beginning
of an opening marker. -/
theorem step_onto (hopen : '[' ∉ x.head?) (hembed : '!' ∉ x.head?) (s : Scan) (c : Char) :
    (s.onto x).step c = (s.step c).onto x := by
  obtain ⟨body, links⟩ := s
  cases links with
  | nil =>
    rcases step_cases ⟨body, []⟩ c with ⟨hc, -⟩ | ⟨-, rfl, before, rfl, hs⟩ | ⟨-, hb, hs⟩
    · exact absurd rfl hc.2.2
    · have hnil : ∀ link ∈ ([] : List Open).head?, link.kind = .reference := by simp
      rw [hs, opened_of_reference hnil]
      exact (opened_of_reference hnil (before ++ x)).trans (by rw [Open.after_append hembed]; rfl)
    · rw [hs]
      apply step_eq_push
      · exact fun hc => hc.2.2 rfl
      · rintro rfl
        cases body with
        | nil => exact hopen
        | cons d body => exact hb rfl
  | cons link links =>
    rcases step_cases ⟨body, link :: links⟩ c with
      ⟨⟨rfl, -⟩, inner, rfl, hs⟩ | ⟨-, rfl, before, rfl, hs⟩ | ⟨hc, hb, hs⟩
    · rw [hs]
      exact close_onto x inner link links
    · rw [hs]
      exact opened_onto x before link links
    · rw [hs]
      exact step_eq_push (fun h => hc ⟨h.1, h.2.1, List.cons_ne_nil _ _⟩) hb

theorem read_onto (hopen : '[' ∉ x.head?) (hembed : '!' ∉ x.head?) (s : Scan) (t : Text) :
    (s.onto x).read t = (s.read t).onto x := by
  induction t generalizing s with
  | nil => rfl
  | cons c t ih => rw [read_cons, read_cons, step_onto hopen hembed, ih]

theorem reversed_onto (x : Text) (s : Scan) : (s.onto x).reversed = s.reversed ++ x := by
  obtain ⟨body, links⟩ := s
  cases links with
  | nil => simp [onto, reversed]
  | cons link links =>
    simp only [onto, reversed, List.append_assoc, List.append_cancel_left_eq]
    induction links generalizing link with
    | nil => simp [Open.onto]
    | cons next links ih => simp [Open.onto, ih]

/-! ### Links around -/

theorem close_append (inner : Text) (link : Open) (links outer : List Open) :
    close inner (link :: links ++ outer) = (close inner (link :: links)).within outer := by
  obtain ⟨kind, before⟩ := link
  cases kind <;> rfl

theorem opened_within (ho : ∀ link ∈ outer.head?, link.kind = .reference) (before : Text)
    (links : List Open) : opened before (links ++ outer) = (opened before links).within outer := by
  rcases opened_cases before links with ⟨outside, rest, rfl, ho⟩ | ⟨hr, hs⟩
  · rfl
  · rw [hs, opened_of_reference]
    · rfl
    · cases links with
      | nil => exact ho
      | cons link links => exact hr

/-- The links around have no part in what a step does, unless it closes one of them, or the
innermost of them is an embed. -/
theorem step_within (h : ¬ Strays s c) (ho : ∀ link ∈ outer.head?, link.kind = .reference) :
    (s.within outer).step c = (s.step c).within outer := by
  obtain ⟨body, links⟩ := s
  rcases step_cases ⟨body, links⟩ c with
    ⟨⟨rfl, -, hl⟩, inner, rfl, hs⟩ | ⟨-, rfl, before, rfl, hs⟩ | ⟨hc, hb, hs⟩
  · obtain ⟨link, links, rfl⟩ := List.exists_cons_of_ne_nil hl
    rw [hs]
    exact close_append inner link links outer
  · rw [hs]
    exact opened_within ho before links
  · rw [hs]
    refine step_eq_push (fun hc' => ?_) hb
    by_cases hl : links = []
    · exact h ⟨hc'.1, hc'.2.1, hl⟩
    · exact hc ⟨hc'.1, hc'.2.1, hl⟩

theorem reversed_within (s : Scan) (outer : List Open) :
    (s.within outer).reversed = s.reversed ++ (within outer ⟨[], []⟩).reversed := by
  simp [reversed, within]

/-- A closing marker that closes nothing is kept from then on. -/
theorem doubles_reversed_of_strays (h : Strays s c) (t : Text) :
    Text.Doubles ']' ((s.step c).read t).reversed := by
  obtain ⟨body, links⟩ := s
  obtain ⟨rfl, hb, rfl⟩ := h
  obtain ⟨inner, rfl⟩ := List.head?_eq_some_iff.1 hb
  have hs : step ⟨']' :: inner, []⟩ ']' = start.onto (']' :: ']' :: inner) := rfl
  rw [hs, read_onto (by simp) (by simp), reversed_onto]
  exact ⟨_, inner, List.append_assoc _ _ _⟩

theorem read_within (h : ¬ Text.Doubles ']' (s.read t).reversed)
    (ho : ∀ link ∈ outer.head?, link.kind = .reference) :
    (s.within outer).read t = (s.read t).within outer := by
  induction t generalizing s with
  | nil => rfl
  | cons c t ih =>
    have hc : ¬ Strays s c := fun hc => h (doubles_reversed_of_strays hc t)
    rw [read_cons, read_cons, step_within hc ho, ih h]

theorem doubles_restored_of_links_ne_nil (h : s.links ≠ []) : Text.Doubles '[' s.restored := by
  obtain ⟨body, links⟩ := s
  obtain ⟨⟨kind, before⟩, links, rfl⟩ := List.exists_cons_of_ne_nil h
  obtain ⟨mark, hmark⟩ := kind.exists_marker_eq
  have hd : Text.Doubles '[' kind.marker.reverse := by
    rw [Text.doubles_reverse_iff, hmark]
    exact (List.suffix_append _ _).isInfix
  rw [restored, Text.doubles_reverse_iff, reversed, List.flatMap_cons, List.append_assoc,
    ← List.append_assoc]
  exact hd.mono (List.infix_append _ _ _)

end Scan

open Scan

variable {t u v : Text}

/-! ### Laws -/

theorem length_remove_lt (h : remove t ≠ t) : (remove t).length < t.length :=
  Nat.lt_of_le_of_ne (remove_sublist t).length_le fun he => h ((remove_sublist t).eq_of_length he)

theorem remove_of_not_doubles (h : ¬ Text.Doubles '[' t ∨ ¬ Text.Doubles ']' t) : remove t = t := by
  rw [remove_eq_self_iff]
  rintro w hw ⟨label, rfl⟩
  rcases h with h | h
  · exact h (Text.Doubles.mono ⟨[], label ++ [']', ']'], rfl⟩ hw)
  · exact h (Text.Doubles.mono ⟨'[' :: '[' :: label, [], by simp⟩ hw)

/-- If no marker of a text stays open and its end cannot begin one, what follows it is read as if it
stood alone. -/
theorem remove_append (hopen : ¬ Text.Doubles '[' (remove u ++ ['[']))
    (hembed : '!' ∉ (remove u).getLast?) : remove (u ++ v) = remove u ++ remove v := by
  rw [Text.doubles_append_iff, not_or, not_or] at hopen
  have hlinks : (start.read u).links = [] := by_contra fun h =>
    hopen.1 (doubles_restored_of_links_ne_nil h)
  have hu : start.read u = start.onto (remove u).reverse := by
    rw [remove, restored, List.reverse_reverse]
    generalize start.read u = s at hlinks
    obtain ⟨body, links⟩ := s
    obtain rfl : links = [] := hlinks
    simp [reversed, onto, start]
  rw [← List.head?_reverse] at hembed
  have hbracket : '[' ∉ (remove u).reverse.head? := by
    rw [List.head?_reverse]
    exact fun h => hopen.2.2 ⟨h, rfl⟩
  rw [remove, restored, read_append, hu, read_onto hbracket hembed, reversed_onto,
    List.reverse_append, List.reverse_reverse]
  rfl

/-- A reference that nothing closes is put back in front of what becomes of the rest. -/
theorem remove_open_append (h : ¬ Text.Doubles ']' (remove t)) :
    remove ('[' :: '[' :: t) = '[' :: '[' :: remove t := by
  rw [remove, restored, Text.doubles_reverse_iff] at h
  have hread : start.read ('[' :: '[' :: t) =
      (start.within [⟨.reference, []⟩]).read t := rfl
  rw [remove, restored, hread, read_within h (by simp), reversed_within, List.reverse_append]
  rfl

/-- Links are removed exactly from the texts with a `]]` after a `[[`, and the text gets shorter
then. So markers that lack a partner are kept, and they are also kept, in their places, when there
are closed links before, after or inside them: texts are treated one by one if the first leaves no
marker open and does not end in half of one, text without `]]` is kept whatever stands before it,
and so is a `[[` in front of a text that leaves no `]]`. -/
theorem remove_keeps_unclosed (t u : Text) :
    (remove t = t ↔ ¬ ∃ a label b, t = a ++ ['[', '['] ++ label ++ [']', ']'] ++ b) ∧
    (remove t ≠ t → (remove t).length < t.length) ∧
    (¬ Text.Doubles '[' t ∨ ¬ Text.Doubles ']' t → remove t = t) ∧
    (¬ Text.Doubles '[' (remove t ++ ['[']) → '!' ∉ (remove t).getLast? →
      remove (t ++ u) = remove t ++ remove u) ∧
    (¬ Text.Doubles ']' (']' :: u) → remove (t ++ u) = remove t ++ u) ∧
    (¬ Text.Doubles ']' (remove t) → remove (['[', '['] ++ t) = ['[', '['] ++ remove t) := by
  refine ⟨?_, length_remove_lt, remove_of_not_doubles, remove_append,
    remove_append_of_not_doubles, remove_open_append⟩
  rw [remove_eq_self_iff]
  constructor
  · rintro h ⟨a, label, b, rfl⟩
    refine h ('[' :: '[' :: (label ++ [']', ']'])) ⟨a, b, ?_⟩ ⟨label, rfl⟩
    simp
  · rintro h w ⟨a, b, rfl⟩ ⟨label, rfl⟩
    refine h ⟨a, label, b, ?_⟩
    simp

/-- A stray `]]` before a link and an embed that nothing closes after it. -/
theorem remove_keeps_unclosed_around :
    let t : Text := [']', ']', ' ', '[', '[', 'a', ']', ']']
    let u : Text := [' ', '!', '[', '[', 'b']
    ¬ Text.Doubles ']' (']' :: u) ∧ remove t = [']', ']', ' ', 'a'] ∧
      remove (t ++ u) = [']', ']', ' ', 'a'] ++ u := by
  intro t u
  have hu : ¬ Text.Doubles ']' (']' :: u) := by decide
  have ht : remove t = [']', ']', ' ', 'a'] := by decide
  exact ⟨hu, ht, ht ▸ (remove_keeps_unclosed t u).2.2.2.2.1 hu⟩

end Quire.Link
