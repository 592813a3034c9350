import Quire.Text.Basic

/-!
# Patterns

A `Pattern` says how many characters the match takes that begins at the start of a text, none if
there is no match. `Pattern.removeAll` drops the leftmost match, then the leftmost match of what
follows it, and so on.
-/

namespace Quire

/-- The length of the match at the start of a text, `0` if there is none. -/
abbrev Pattern := Text → Nat

namespace Pattern

/-- Goes through a text: `skip` characters still belong to a match, and `kept` holds what was
kept, reversed. -/
def removeFrom (p : Pattern) (kept : Text) : (skip : Nat) → Text → Text
  | _, [] => kept.reverse
  | skip + 1, _ :: t => removeFrom p kept skip t
  | 0, c :: t =>
    match p (c :: t) with
    | 0 => removeFrom p (c :: kept) 0 t
    | n + 1 => removeFrom p kept n t

/-- A text without the matches of a pattern, taken from left to right and not overlapping. -/
def removeAll (p : Pattern) (t : Text) : Text := p.removeFrom [] 0 t

theorem removeFrom_eq (p : Pattern) (kept : Text) (skip : Nat) (t : Text) :
    p.removeFrom kept skip t = kept.reverse ++ p.removeFrom [] skip t := by
  induction t generalizing kept skip with
  | nil => cases skip <;> simp [removeFrom]
  | cons c t ih =>
    cases skip with
    | succ skip => simp only [removeFrom]; exact ih kept skip
    | zero =>
      simp only [removeFrom]
      split
      · rw [ih (c :: kept), ih [c]]; simp
      · exact ih kept _

end Pattern

end Quire
