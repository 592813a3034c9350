import Mathlib.Logic.Function.Iterate
import Quire.Proofs.Cleaning.Normal

/-!
# The loop of a line

A pass only drops characters, so it either leaves a text alone or makes it shorter
(`removeTokens_eq_or_length_lt`), and the passes over a text come to an end: `EndsAt pass t n s` says
that they do so after `n` of them, with the text `s`. The loop of a line is these passes
(`exists_endsAt`). It ends at a text that every enabled rule leaves alone by itself
(`removeTokens_eq_self_iff_leavesAlone`), and if white space is not collapsed then nothing but
deletions has happened to the line.
-/

namespace Quire.Rules

variable {pass : Text → Text} {r : Rules} {s t line : Text}

/-- The first `n` passes over `t` all change something, and what they make of it is `s`, which the
next pass leaves alone. -/
structure EndsAt (pass : Text → Text) (t : Text) (n : Nat) (s : Text) : Prop where
  runs : ∀ m < n, pass (pass^[m] t) ≠ pass^[m] t
  passes : pass^[n] t = s
  ends : pass s = s

/-- Every enabled rule that removes tokens leaves the text alone by itself. -/
structure LeavesAlone (r : Rules) (t : Text) : Prop where
  links : r.removeLinks → Link.remove t = t
  urls : r.removeUrls → Url.remove t = t
  emails : r.removeEmails → Email.remove t = t

/-- No rule undoes what another does, so a pass leaves a text alone only if all its rules do. -/
theorem removeTokens_eq_self_iff_leavesAlone : r.removeTokens t = t ↔ r.LeavesAlone t := by
  rw [removeTokens_eq_self_iff]
  constructor
  · intro h
    exact ⟨fun hr => Link.remove_eq_self_iff.2 (h.links hr),
      fun hr => Url.remove_eq_self_iff.2 (h.urls hr),
      fun hr => Email.remove_eq_self_iff.2 (h.emails hr)⟩
  · intro h
    exact ⟨fun hr => Link.remove_eq_self_iff.1 (h.links hr),
      fun hr => Url.remove_eq_self_iff.1 (h.urls hr),
      fun hr => Email.remove_eq_self_iff.1 (h.emails hr)⟩

/-! ### Passes -/

/-- A pass before a run of passes. -/
theorem EndsAt.cons {n : Nat} (h : EndsAt pass (pass t) n s) (ht : pass t ≠ t) :
    EndsAt pass t (n + 1) s where
  runs
    | 0, _ => ht
    | m + 1, hm => h.runs m (Nat.lt_of_succ_lt_succ hm)
  passes := h.passes
  ends := h.ends

/-- More passes change nothing. -/
theorem EndsAt.iterate_eq {m n : Nat} (h : EndsAt pass t n s) (hm : n ≤ m) : pass^[m] t = s := by
  obtain ⟨k, rfl⟩ := Nat.exists_eq_add_of_le' hm
  rw [Function.iterate_add_apply, h.passes, Function.iterate_fixed h.ends]

/-- Each pass but the last drops a character, so there are at most as many as characters. -/
theorem exists_endsAt (h : ∀ t, (pass t).Sublist t) (t : Text) :
    ∃ n ≤ t.length, EndsAt pass t n (untilStable pass t) := by
  fun_induction untilStable pass t with
  | case1 t next hlt ih =>
    obtain ⟨n, hn, hends⟩ := ih
    have ht : pass t ≠ t := fun he => absurd (congrArg List.length he) (Nat.ne_of_lt hlt)
    exact ⟨n + 1, Nat.lt_of_le_of_lt hn hlt, hends.cons ht⟩
  | case2 t next hn =>
    have ht : pass t = t := (h t).eq_of_length_le (Nat.le_of_not_lt hn)
    exact ⟨0, Nat.zero_le _, ⟨fun m hm => absurd hm (Nat.not_lt_zero m), rfl, ht⟩⟩

/-! ### Lines -/

/-- Without collapsing, normalizing a line only drops characters of its body. -/
theorem normalizeLine_sublist (hr : ¬ r.collapseBlanks) (line : Text) :
    (r.normalizeLine line).Sublist line := by
  have hs := untilStable_sublist r.removeTokens_sublist (Line.body line)
  have hb : (r.normalizeBody (Line.body line)).Sublist (Line.body line) := by
    unfold normalizeBody
    rwa [if_neg hr]
  have h := hb.append_right (Line.terminator line)
  rwa [Line.body_append_terminator, ← normalizeLine_eq] at h

/-- A pass drops characters or leaves the text alone, so that the loop of a line ends, after at most
as many passes as the body has characters, at a text that every enabled rule leaves alone by itself.
This text, collapsed if that rule is on, is the body of the result; if it is off the line has only
lost characters, and its terminator is still there. -/
theorem removeTokens_loop_ends (r : Rules) (t line : Text) :
    (r.removeTokens t).Sublist t ∧
    (r.removeTokens t = t ∨ (r.removeTokens t).length < t.length) ∧
    (∃ n s, n ≤ (Line.body line).length ∧ EndsAt r.removeTokens (Line.body line) n s ∧
      r.LeavesAlone s ∧
      r.normalizeLine line =
        (if r.collapseBlanks then Text.collapse s else s) ++ Line.terminator line) ∧
    (¬ r.collapseBlanks →
      (r.normalizeLine line).Sublist line ∧ Line.terminator line <:+ r.normalizeLine line) := by
  refine ⟨r.removeTokens_sublist t, r.removeTokens_eq_or_length_lt t, ?_, fun hr => ?_⟩
  · obtain ⟨n, hn, hends⟩ := exists_endsAt r.removeTokens_sublist (Line.body line)
    exact ⟨n, _, hn, hends, removeTokens_eq_self_iff_leavesAlone.1 hends.ends, rfl⟩
  · exact ⟨normalizeLine_sublist hr line, List.suffix_append _ _⟩

/-- Dropping the address joins a link, whose label is left. -/
theorem removeTokens_loop_ends_joined :
    let r : Rules := { removeEmails := true, collapseBlanks := false }
    let line : Text := ['[', 'a', '@', 'b', '.', 'i', 'o', '[', ' ', ']', ']', '\r', '\n']
    ¬ r.collapseBlanks ∧ r.normalizeLine line = [' ', '\r', '\n'] ∧
      (r.normalizeLine line).Sublist line ∧ Line.terminator line <:+ r.normalizeLine line := by
  intro r line
  have hr : ¬ r.collapseBlanks := by decide
  exact ⟨hr, by decide +kernel, (removeTokens_loop_ends r line line).2.2.2 hr⟩

/-! ### Links alone -/

/-- Nothing is on but the removal of links. -/
def linksOnly : Rules where
  removeLinks := true
  removeUrls := false
  removeEmails := false
  collapseBlanks := false
  stripFrontMatter := false

theorem normalizeLine_linksOnly (line : Text) : linksOnly.normalizeLine line =
    untilStable Link.remove (Line.body line) ++ Line.terminator line := rfl

end Quire.Rules
