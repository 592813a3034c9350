import Quire.Cleaning.Rules
import Quire.Proofs.Cleaning.Link
import Quire.Proofs.Cleaning.Pattern
import Quire.Proofs.Line

/-!
# Normal texts

A text is normal for some rules (`Rules.IsNormal`) if it has no piece that an enabled rule removes
and, if white space is collapsed, is collapsed. Every rule only drops characters, so a pass that
changes nothing is one in which no rule changes anything: `removeTokens_eq_self_iff`. The loop ends
at such a text (`isTokenFree_untilStable`), and collapsing makes no token anew, so that bodies
become normal (`isNormal_normalizeBody`) and stay as they are from then on
(`IsNormal.normalizeBody_eq`). What is taken off a normalized line as its terminator may be longer
than what was taken off before; what is left is then shorter, and still normal
(`IsNormal.body_append`), so that whole lines stay as they are, too.
-/

namespace Quire.Rules

/-- No piece of the text is a token that an enabled rule removes. -/
structure IsTokenFree (r : Rules) (t : Text) : Prop where
  links : r.removeLinks → Text.Free Link.Closed t
  urls : r.removeUrls → Text.Free Url.Matches t
  emails : r.removeEmails → Text.Free Email.Matches t

/-- No enabled rule has anything to do. -/
structure IsNormal (r : Rules) (t : Text) : Prop extends IsTokenFree r t where
  blanks : r.collapseBlanks → Text.IsCollapsed t

variable {r : Rules} {s t e : Text}

theorem IsTokenFree.of_piece (h : r.IsTokenFree t) (hs : s <:+: t) : r.IsTokenFree s where
  links hr := (h.links hr).of_piece hs
  urls hr := (h.urls hr).of_piece hs
  emails hr := (h.emails hr).of_piece hs

theorem IsTokenFree.collapse (h : r.IsTokenFree t) : r.IsTokenFree (Text.collapse t) where
  links hr := Link.free_closed_collapse (h.links hr)
  urls hr := (h.urls hr).collapse fun _ => Url.Matches.isSolid
  emails hr := (h.emails hr).collapse fun _ => Email.Matches.isSolid

/-! ### Passes -/

theorem sublist_of_rule (on : Bool) {remove : Text → Text} (h : ∀ t, (remove t).Sublist t)
    (t : Text) : (if on then remove t else t).Sublist t := by
  split
  · exact h t
  · exact List.Sublist.refl t

theorem removeTokens_sublist (r : Rules) (t : Text) : (r.removeTokens t).Sublist t :=
  (sublist_of_rule r.removeEmails Email.remove_sublist _).trans
    ((sublist_of_rule r.removeUrls Url.remove_sublist _).trans
      (sublist_of_rule r.removeLinks Link.remove_sublist t))

/-- A pass that changes a text makes it shorter. -/
theorem removeTokens_eq_or_length_lt (r : Rules) (t : Text) :
    r.removeTokens t = t ∨ (r.removeTokens t).length < t.length := by
  have hs := r.removeTokens_sublist t
  rcases hs.length_le.lt_or_eq with hlt | heq
  · exact Or.inr hlt
  · exact Or.inl (hs.eq_of_length heq)

theorem rule_eq_self_iff (on : Bool) {remove : Text → Text} {P : Text → Prop}
    (h : remove t = t ↔ Text.Free P t) :
    (if on then remove t else t) = t ↔ (on → Text.Free P t) := by
  cases on
  · exact iff_of_true rfl fun h => absurd h (by decide)
  · exact h.trans ⟨fun h _ => h, fun h => h rfl⟩

/-- A pass changes nothing exactly if no rule of it does. -/
theorem removeTokens_eq_self_iff : r.removeTokens t = t ↔ r.IsTokenFree t := by
  have hlinks := rule_eq_self_iff r.removeLinks (Link.remove_eq_self_iff (t := t))
  have hurls := rule_eq_self_iff r.removeUrls (Url.remove_eq_self_iff (t := t))
  have hemails := rule_eq_self_iff r.removeEmails (Email.remove_eq_self_iff (t := t))
  unfold removeTokens
  dsimp only
  constructor
  · intro h
    -- Whatever a rule drops, no later rule puts back.
    have h1 := sublist_of_rule r.removeLinks Link.remove_sublist t
    generalize (if r.removeLinks then Link.remove t else t) = t₁ at *
    have h2 := sublist_of_rule r.removeUrls Url.remove_sublist t₁
    have h3 := sublist_of_rule r.removeEmails Email.remove_sublist
      (if r.removeUrls then Url.remove t₁ else t₁)
    rw [h] at h3
    obtain rfl := h1.antisymm (h3.trans h2)
    have hu := h2.antisymm h3
    rw [hu] at h
    exact ⟨hlinks.1 rfl, hurls.1 hu, hemails.1 h⟩
  · rintro ⟨hl, hu, he⟩
    rw [hlinks.2 hl, hurls.2 hu, hemails.2 he]

/-! ### The loop -/

theorem untilStable_sublist {pass : Text → Text} (h : ∀ t, (pass t).Sublist t) (t : Text) :
    (untilStable pass t).Sublist t := by
  fun_induction untilStable pass t with
  | case1 t next _ ih => exact ih.trans (h t)
  | case2 t next _ => exact List.Sublist.refl t

/-- A pass that only drops characters and does not make the text shorter has changed nothing. -/
theorem pass_untilStable {pass : Text → Text} (h : ∀ t, (pass t).Sublist t) (t : Text) :
    pass (untilStable pass t) = untilStable pass t := by
  fun_induction untilStable pass t with
  | case1 t next _ ih => exact ih
  | case2 t next hn => exact (h t).eq_of_length_le (Nat.le_of_not_lt hn)

theorem untilStable_eq_self {pass : Text → Text} (h : pass t = t) : untilStable pass t = t := by
  rw [untilStable, h, if_neg (Nat.lt_irrefl _)]

/-- The loop stops after its first pass exactly if the second changes nothing. -/
theorem untilStable_eq_pass_iff {pass : Text → Text} (h : ∀ t, (pass t).Sublist t) (t : Text) :
    untilStable pass t = pass t ↔ pass (pass t) = pass t := by
  constructor
  · intro hs
    have := pass_untilStable h t
    rwa [hs] at this
  · intro hp
    rw [untilStable]
    split
    · exact untilStable_eq_self hp
    · next hn => exact ((h t).eq_of_length_le (Nat.le_of_not_lt hn)).symm

/-- The loop goes on as long as a pass changes anything. -/
theorem untilStable_eq_ite (r : Rules) (t : Text) : untilStable r.removeTokens t =
    if r.removeTokens t = t then t else untilStable r.removeTokens (r.removeTokens t) := by
  split
  · next h => exact untilStable_eq_self h
  · next h => rw [untilStable, if_pos ((r.removeTokens_eq_or_length_lt t).resolve_left h)]

theorem isTokenFree_untilStable (r : Rules) (t : Text) :
    r.IsTokenFree (untilStable r.removeTokens t) :=
  removeTokens_eq_self_iff.1 (pass_untilStable (removeTokens_sublist r) t)

/-! ### Bodies -/

theorem isNormal_normalizeBody (r : Rules) (body : Text) : r.IsNormal (r.normalizeBody body) := by
  have h := isTokenFree_untilStable r body
  unfold normalizeBody
  dsimp only
  split
  · exact ⟨h.collapse, fun _ => Text.isCollapsed_collapse _⟩
  · next hr => exact ⟨h, fun hr' => absurd hr' hr⟩

theorem IsNormal.normalizeBody_eq (h : r.IsNormal t) : r.normalizeBody t = t := by
  have hs := untilStable_eq_self (removeTokens_eq_self_iff.2 h.toIsTokenFree)
  unfold normalizeBody
  rw [hs]
  dsimp only
  split
  · next hr => exact Text.collapse_eq_self (h.blanks hr)
  · rfl

theorem length_normalizeBody_le (r : Rules) (t : Text) : (r.normalizeBody t).length ≤ t.length := by
  have h := (untilStable_sublist (removeTokens_sublist r) t).length_le
  unfold normalizeBody
  dsimp only
  split
  · exact (Text.length_collapse_le _).trans h
  · exact h

theorem mem_normalizeBody {c : Char} (h : c ∈ r.normalizeBody t) : c ∈ t ∨ c = ' ' := by
  have hs := (untilStable_sublist (removeTokens_sublist r) t).subset
  unfold normalizeBody at h
  dsimp only at h
  split at h
  · exact (Text.mem_collapse h).imp_left fun h => hs h
  · exact Or.inl (hs h)

theorem unbroken_normalizeBody (r : Rules) (h : Line.Unbroken t) :
    Line.Unbroken (r.normalizeBody t) :=
  ⟨fun hc => (mem_normalizeBody hc).elim h.1 (by decide),
    fun hc => (mem_normalizeBody hc).elim h.2 (by decide)⟩

/-! ### Lines -/

theorem normalizeLine_eq (r : Rules) (line : Text) :
    r.normalizeLine line = r.normalizeBody (Line.body line) ++ Line.terminator line := rfl

/-- The body that is found in a normal text with a terminator after it is normal. If white space is
collapsed it is all of the text; else it may lack line breaks at the end. -/
theorem IsNormal.body_append (h : r.IsNormal t) (he : Line.IsTerminator e) :
    r.IsNormal (Line.body (t ++ e)) := by
  by_cases hr : r.collapseBlanks
  · rwa [(Line.unbroken_of_spaces (h.blanks hr).spaces).body_append he]
  · have hp := Line.body_append_isPrefix t he
    exact ⟨h.toIsTokenFree.of_piece hp.isInfix, fun hr' => absurd hr' hr⟩

/-- Normalizing a line twice is normalizing it once. -/
theorem normalizeLine_normalizeLine (r : Rules) (line : Text) :
    r.normalizeLine (r.normalizeLine line) = r.normalizeLine line := by
  have hn : r.IsNormal (Line.body (r.normalizeLine line)) :=
    (isNormal_normalizeBody r _).body_append (Line.isTerminator_terminator line)
  rw [normalizeLine_eq r (r.normalizeLine line), hn.normalizeBody_eq, Line.body_append_terminator]

end Quire.Rules
