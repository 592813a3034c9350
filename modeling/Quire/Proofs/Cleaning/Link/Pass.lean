import Quire.Proofs.Cleaning.Link.Meeting
import Quire.Proofs.Cleaning.Normal

/-!
# A second pass over links

The scan pairs brackets as it meets them, so in what it has read no two opening brackets are
neighbours but in the markers of open links and inside an embed (`Scan.IsTidy`). Closing brackets
can become neighbours when a link between them is unwrapped: `[[x][[]y]]` becomes `[[x]]y`, where a
link is closed that was open before. One pass is enough exactly if this has happened in no link that
is still open at the end, and so in particular for a text in which no closing brackets may meet
(`remove_remove_eq_iff`).
-/

namespace Quire.Link

theorem Open.marker_after (before : Text) :
    (Open.after before).kind.marker.reverse.tail ++ (Open.after before).before = '[' :: before := by
  unfold Open.after
  split <;> rfl

namespace Scan

/-- No two opening brackets are neighbours, but in the markers of the open links and inside an
embed; and only the innermost link can be an embed. -/
structure IsTidy (s : Scan) : Prop where
  body : (∀ link ∈ s.links.head?, link.kind = .reference) → ¬ Text.Doubles '[' s.body
  marked : ∀ link ∈ s.links, ¬ Text.Doubles '[' (link.kind.marker.reverse.tail ++ link.before)
  outer : ∀ link ∈ s.links.tail, link.kind = .reference

variable {s : Scan} {c : Char} {body t : Text} {link : Open} {links : List Open}

/-! ### Tidy scans -/

theorem isTidy_start : IsTidy start where
  body _ := Text.not_doubles_nil
  marked _ h := absurd h List.not_mem_nil
  outer _ h := absurd h List.not_mem_nil

/-- What stands before a link is tidy by itself. -/
theorem IsTidy.before (h : IsTidy ⟨body, link :: links⟩) : IsTidy ⟨link.before, links⟩ where
  body _ hd := h.marked link List.mem_cons_self (hd.mono (List.suffix_append _ _).isInfix)
  marked l hl := h.marked l (List.mem_cons_of_mem link hl)
  outer l hl := h.outer l (List.mem_of_mem_tail hl)

theorem IsTidy.close (h : IsTidy ⟨']' :: body, link :: links⟩) :
    IsTidy (close body (link :: links)) := by
  obtain ⟨kind, before⟩ := link
  cases kind with
  | embed => exact h.before
  | reference =>
    refine ⟨fun _ => ?_, h.before.marked, h.before.outer⟩
    -- The opening marker kept an opening bracket away from the end of the text before it.
    have hbody := h.body (by simp)
    have hbefore : ¬ Text.Doubles '[' ('[' :: before) := h.marked _ List.mem_cons_self
    rw [Text.doubles_cons_iff, not_or] at hbody hbefore
    show ¬ Text.Doubles '[' (body ++ before)
    rw [Text.doubles_append_iff]
    rintro (hd | hd | hd)
    · exact hbody.2 hd
    · exact hbefore.2 hd
    · exact hbefore.1 ⟨rfl, hd.2⟩

theorem IsTidy.opened (h : IsTidy ⟨'[' :: body, links⟩) : IsTidy (opened body links) := by
  rcases opened_cases body links with ⟨outside, rest, rfl, ho⟩ | ⟨hr, ho⟩
  · rw [ho]
    exact ⟨fun hr => absurd (hr _ rfl) Kind.noConfusion, h.marked, h.outer⟩
  · rw [ho]
    refine ⟨fun _ => Text.not_doubles_nil, List.forall_mem_cons.2 ⟨?_, h.marked⟩, ?_⟩
    · rw [Open.marker_after]
      exact h.body hr
    · show ∀ link ∈ links, link.kind = .reference
      cases links with
      | nil => simp
      | cons link links => exact List.forall_mem_cons.2 ⟨hr link rfl, h.outer⟩

theorem IsTidy.push (h : IsTidy s) (hc : c = '[' → s.body.head? ≠ some '[') : IsTidy (s.push c) where
  body hr := by
    show ¬ Text.Doubles '[' (c :: s.body)
    rw [Text.doubles_cons_iff]
    rintro (⟨hc', hd⟩ | hd)
    · exact hc hc' hd
    · exact h.body hr hd
  marked := h.marked
  outer := h.outer

theorem IsTidy.step (h : IsTidy s) (c : Char) : IsTidy (s.step c) := by
  rcases step_cases s c with ⟨⟨-, -, hl⟩, inner, hb, hs⟩ | ⟨-, -, before, hb, hs⟩ | ⟨-, hc, hs⟩
  · obtain ⟨body, links⟩ := s
    obtain ⟨link, links, rfl⟩ := List.exists_cons_of_ne_nil hl
    subst hb
    rw [hs]
    exact h.close
  · obtain ⟨body, links⟩ := s
    subst hb
    rw [hs]
    exact h.opened
  · rw [hs]
    exact h.push hc

theorem IsTidy.read (h : IsTidy s) (t : Text) : IsTidy (s.read t) := by
  induction t generalizing s with
  | nil => exact h
  | cons c t ih => exact ih (h.step c)

/-! ### Closed links in what is put back -/

theorem restored_cons (body : Text) (link : Open) (links : List Open) :
    restored ⟨body, link :: links⟩ =
      restored ⟨link.before, links⟩ ++ (link.kind.marker ++ body.reverse) := by
  simp [restored, reversed]

/-- A marker has no closing bracket, so only the body after it can bring a `]]`. -/
theorem doubles_marker_append_iff (kind : Kind) (body : Text) :
    Text.Doubles ']' (']' :: (kind.marker ++ body.reverse)) ↔ Text.Doubles ']' body := by
  cases kind <;> simp [Kind.marker, Text.doubles_cons_iff, Text.doubles_reverse_iff]

theorem exists_closed_of_doubles (kind : Kind) (h : Text.Doubles ']' body) :
    ∃ w, w <:+: kind.marker ++ body.reverse ∧ Closed w := by
  obtain ⟨label, rest, hb⟩ := Text.doubles_reverse_iff.2 h
  obtain ⟨mark, hmark⟩ := kind.exists_marker_eq
  refine ⟨'[' :: '[' :: (label ++ [']', ']']), ⟨mark, rest, ?_⟩, label, rfl⟩
  simp [← hb, hmark]

/-- What is put back has a closed link exactly where the body of an open link has a `]]`. -/
theorem IsTidy.free_closed_restored_iff (h : IsTidy s) :
    Text.Free Closed s.restored ↔ ∀ body ∈ s.openBodies, ¬ Text.Doubles ']' body := by
  obtain ⟨body, links⟩ := s
  -- From the outermost link inwards, each marker and body is put after what is there already.
  induction links generalizing body with
  | nil =>
    refine iff_of_true ?_ fun _ hb => absurd hb List.not_mem_nil
    rintro w hw ⟨label, rfl⟩
    have hd : Text.Doubles '[' (restored ⟨body, []⟩) :=
      Text.Doubles.mono ⟨[], label ++ [']', ']'], rfl⟩ hw
    rw [restored, Text.doubles_reverse_iff, reversed, List.flatMap_nil, List.append_nil] at hd
    exact h.body (by simp) hd
  | cons link links ih =>
    rw [openBodies_cons, List.forall_mem_cons, ← ih _ h.before, restored_cons]
    constructor
    · intro hf
      refine ⟨fun hd => ?_, hf.of_piece (List.prefix_append _ _).isInfix⟩
      obtain ⟨w, hw, hclosed⟩ := exists_closed_of_doubles link.kind hd
      exact hf w (hw.trans (List.suffix_append _ _).isInfix) hclosed
    · rintro ⟨hb, hf⟩
      exact free_closed_append_of_not_doubles hf (mt (doubles_marker_append_iff _ _).1 hb)

end Scan

/-! ### One pass and the next -/

theorem removeTokens_links (r : Rules) (t : Text) :
    Rules.removeTokens { r with removeUrls := false, removeEmails := false } t =
      if r.removeLinks then remove t else t := rfl

/-- Removing links twice is removing them once, and so the loop of a line stops after the first
pass if nothing but links is removed, exactly if no link that is still open at the end has two
closing brackets side by side in its body. This is so for a text without `][` and `]![`, and for one
without `[]` and `]]]`. -/
theorem remove_remove_eq_iff (r : Rules) (t : Text) :
    (remove (remove t) = remove t ↔
      ∀ body ∈ (Scan.start.read t).openBodies, ¬ Text.Doubles ']' body) ∧
    (¬ MayMeet t → remove (remove t) = remove t) ∧
    (Rules.untilStable
        (Rules.removeTokens { r with removeUrls := false, removeEmails := false }) t =
        Rules.removeTokens { r with removeUrls := false, removeEmails := false } t ↔
      (r.removeLinks → ∀ body ∈ (Scan.start.read t).openBodies, ¬ Text.Doubles ']' body)) := by
  have hlinks : remove (remove t) = remove t ↔
      ∀ body ∈ (Scan.start.read t).openBodies, ¬ Text.Doubles ']' body :=
    remove_eq_self_iff.trans (Scan.isTidy_start.read t).free_closed_restored_iff
  refine ⟨hlinks, fun h => hlinks.2 (Scan.not_doubles_of_not_mayMeet h), ?_⟩
  rw [Rules.untilStable_eq_pass_iff (Rules.removeTokens_sublist _), removeTokens_links,
    removeTokens_links]
  split
  · next hr => exact hlinks.trans ⟨fun h _ => h, fun h => h hr⟩
  · next hr => exact iff_of_true rfl fun h => absurd h hr

/-- Links beside each other, and links that stay open. -/
example : ¬ MayMeet "[[a]][[b]]: [[c ![[d]] [x] [[e".toList := by decide

/-- Unwrapping the inner link leaves a `]]` in the outer one, which is closed only the second
time. -/
theorem not_remove_remove_eq : ¬ ∀ t, remove (remove t) = remove t := fun h =>
  absurd (h ['[', '[', 'x', ']', '[', '[', ']', 'y', ']', ']']) (by decide)

end Quire.Link
