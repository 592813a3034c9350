import Quire.Proofs.Cleaning.Pattern.Longest

/-!
# One pass over a pattern

`Removal M t s` says of two texts that `s` is what is left of `t` when the matches are dropped: from
left to right, wherever a piece with `M` begins the longest one goes, and elsewhere a character
stays. A pattern that finds longest matches computes this relation (`removeAll_eq_iff`). Where two
kept parts meet no match arises: not for URLs, since no character that follows one can stand in a
URL (`Url.prefix_of_removal`), and not for addresses, since a kept character before a match is no
local character, and what follows one does not begin with a domain (`Email.not_domain_of_removal`).
So nothing that matches is left after one pass (`Removal.free`).
-/

namespace Quire

namespace Pattern

variable {p : Pattern} {M : Text → Prop} {s s' t m b : Text}

/-- A piece with `M` is at the start of the text. -/
def Begins (M : Text → Prop) (t : Text) : Prop := ∃ w, w <+: t ∧ M w

/-- The second text is what is left of the first when its matches are dropped, each the longest that
begins there. -/
inductive Removal (M : Text → Prop) : Text → Text → Prop
  | nil : Removal M [] []
  | keep {c : Char} {t s : Text} (none : ¬ Begins M (c :: t)) (rest : Removal M t s) :
    Removal M (c :: t) (c :: s)
  | drop {t m b s : Text} (split : t = m ++ b) (found : M m)
    (longest : ∀ w, w <+: t → M w → w.length ≤ m.length) (rest : Removal M b s) : Removal M t s

/-! ### The scan of a pattern -/

theorem removeFrom_append (p : Pattern) (m b : Text) :
    p.removeFrom [] m.length (m ++ b) = p.removeAll b := by
  induction m with
  | nil => rfl
  | cons c m ih => exact ih

theorem removeAll_append (h : m.length = p (m ++ b)) : p.removeAll (m ++ b) = p.removeAll b := by
  cases m with
  | nil => rfl
  | cons c m =>
    rw [removeAll, List.cons_append, removeFrom, ← List.cons_append, ← h]
    exact p.removeFrom_append m b

theorem removal_removeAll (h : p.FindsLongest M) (t : Text) : Removal M t (p.removeAll t) := by
  induction hn : t.length using Nat.strong_induction_on generalizing t with
  | _ n ih =>
    subst hn
    cases t with
    | nil => exact .nil
    | cons c t =>
      rcases Nat.eq_zero_or_pos (p (c :: t)) with hp | hp
      · rw [removeAll_cons_of_eq_zero hp]
        refine .keep (fun hb => ?_) (ih _ (Nat.lt_succ_self _) t rfl)
        exact absurd hp (Nat.ne_of_gt ((h.pos_iff _).2 hb))
      · obtain ⟨m, b, he, hm, hl⟩ := h.exists_match _ hp
        have hlt : b.length < (c :: t).length := by
          rw [he, List.length_append]
          omega
        rw [he] at hl
        rw [he, removeAll_append hl]
        refine .drop rfl hm (fun w hw hM => ?_) (ih _ hlt b rfl)
        rw [hl]
        exact h.longest _ w hw hM

theorem Removal.unique (hnil : ¬ M []) (h : Removal M t s) (h' : Removal M t s') : s = s' := by
  induction h generalizing s' with
  | nil =>
    cases h' with
    | nil => rfl
    | drop split found _ _ =>
      rw [(List.append_eq_nil_iff.1 split.symm).1] at found
      exact absurd found hnil
  | keep none _ ih =>
    cases h' with
    | keep _ rest => rw [ih rest]
    | drop split found _ _ => exact absurd ⟨_, ⟨_, split.symm⟩, found⟩ none
  | @drop t m b s split found longest _ ih =>
    cases h' with
    | nil =>
      rw [(List.append_eq_nil_iff.1 split.symm).1] at found
      exact absurd found hnil
    | keep none _ => exact absurd ⟨_, ⟨_, split.symm⟩, found⟩ none
    | @drop _ m' b' _ split' found' longest' rest' =>
      -- Both matches are the longest one.
      have h1 := longest m' ⟨b', split'.symm⟩ found'
      have h2 := longest' m ⟨b, split.symm⟩ found
      obtain ⟨-, rfl⟩ := List.append_inj (split.symm.trans split') (by omega)
      exact ih rest'

theorem removeAll_eq_iff (h : p.FindsLongest M) (hnil : ¬ M []) :
    p.removeAll t = s ↔ Removal M t s := by
  constructor
  · rintro rfl
    exact removal_removeAll h t
  · exact fun hs => (removal_removeAll h t).unique hnil hs

/-- If a kept character begins no match in front of what is left, then no match is left. -/
theorem Removal.free (hnil : ¬ M [])
    (hkeep : ∀ {c t s}, ¬ Begins M (c :: t) → Removal M t s → ¬ Begins M (c :: s))
    (h : Removal M t s) : Text.Free M s := by
  induction h with
  | nil =>
    intro w hw hM
    rw [List.infix_nil.1 hw] at hM
    exact hnil hM
  | keep none rest ih =>
    intro w hw hM
    rcases List.infix_cons_iff.1 hw with hw | hw
    · exact hkeep none rest ⟨w, hw, hM⟩
    · exact ih w hw hM
  | drop _ _ _ _ ih => exact ih

end Pattern

open Pattern

/-! ### URLs -/

namespace Url

variable {s t w : Text} {c : Char}

theorem Matches.append_singleton (h : Matches w) (hc : isUrlChar c) : Matches (w ++ [c]) := by
  obtain ⟨scheme, address, rfl, hs, hne, ha⟩ := h
  refine ⟨scheme, address ++ [c], List.append_assoc _ _ _, hs,
    List.append_ne_nil_of_left_ne_nil hne _, List.forall_mem_append.2 ⟨ha, ?_⟩⟩
  exact List.forall_mem_singleton.2 hc

/-- What can be a piece of a URL at the start of what is left was there before: after a dropped URL
there is no character of one. -/
theorem prefix_of_removal (h : Removal Matches t s) (hw : ∀ c ∈ w, isUrlChar c) (hs : w <+: s) :
    w <+: t := by
  induction h generalizing w with
  | nil => exact hs
  | keep _ _ ih =>
    cases w with
    | nil => exact List.nil_prefix
    | cons x w =>
      obtain ⟨rfl, hrest⟩ := List.cons_prefix_cons.1 hs
      exact (List.prefix_cons_inj x).2 (ih (List.forall_mem_cons.1 hw).2 hrest)
  | @drop t m b s split found longest _ ih =>
    cases w with
    | nil => exact List.nil_prefix
    | cons x w =>
      obtain ⟨rest, rfl⟩ := ih hw hs
      have hx := found.append_singleton (List.forall_mem_cons.1 hw).1
      have hle := longest (m ++ [x]) ⟨w ++ rest, by simp [split]⟩ hx
      rw [List.length_append, List.length_singleton] at hle
      omega

theorem not_begins_of_removal (hb : ¬ Begins Matches (c :: t)) (h : Removal Matches t s) :
    ¬ Begins Matches (c :: s) := by
  rintro ⟨w, hw, hM⟩
  exact hb ⟨w, prefix_of_removal (.keep hb h) (isUrlChar_of_matches hM) hw, hM⟩

theorem free_remove (t : Text) : Text.Free Matches (remove t) :=
  (removal_removeAll findsLongest t).free (fun h => h.ne_nil rfl) not_begins_of_removal

end Url

/-! ### E-mail addresses -/

namespace Email

variable {s t d w : Text} {c : Char}

theorem Matches.cons (h : Matches w) (hc : isLocalChar c) : Matches (c :: w) := by
  obtain ⟨user, d, rfl, ⟨-, hu⟩, hd⟩ := matches_iff.1 h
  exact matches_iff.2
    ⟨c :: user, d, rfl, ⟨List.cons_ne_nil _ _, List.forall_mem_cons.2 ⟨hc, hu⟩⟩, hd⟩

theorem IsDomain.append (h : IsDomain w) (hd : IsDomain d) : IsDomain (w ++ d) := by
  obtain ⟨host, top, rfl, -, ht⟩ := hd.ending
  refine ⟨⟨w ++ host, top, (List.append_assoc _ _ _).symm, fun _ => ?_, ht⟩,
    List.forall_mem_append.2 ⟨h.chars, hd.chars⟩⟩
  exact List.append_ne_nil_of_left_ne_nil h.ne_nil _

theorem Matches.append (h : Matches w) (hd : IsDomain d) : Matches (w ++ d) := by
  obtain ⟨user, d', rfl, hu, hd'⟩ := matches_iff.1 h
  exact matches_iff.2 ⟨user, d' ++ d, by simp, hu, hd'.append hd⟩

theorem Matches.ne_nil (h : Matches w) : w ≠ [] := h.isSolid.ne_nil

theorem isLocalChar_of_isDomain (h : IsDomain d) : ∀ c ∈ d, isLocalChar c :=
  fun c hc => isLocalChar_of_isDomainChar (h.chars c hc)

/-- Local characters at the start of what is left were there before, if no address begins there:
an address after one of them would begin with it. -/
theorem exists_of_removal (h : Removal Matches t s) (hb : ¬ Begins Matches t)
    (hw : ∀ c ∈ w, isLocalChar c) (hs : w <+: s) :
    ∃ t' s', t = w ++ t' ∧ s = w ++ s' ∧ Removal Matches t' s' ∧ ¬ Begins Matches t' := by
  induction w generalizing t s with
  | nil => exact ⟨t, s, rfl, rfl, h, hb⟩
  | cons c w ih =>
    obtain ⟨hc, hw⟩ := List.forall_mem_cons.1 hw
    cases h with
    | nil => exact absurd (List.prefix_nil.1 hs) (List.cons_ne_nil _ _)
    | keep _ rest =>
      obtain ⟨rfl, hrest⟩ := List.cons_prefix_cons.1 hs
      have hb' : ¬ Begins Matches _ := fun ⟨v, hv, hM⟩ =>
        hb ⟨c :: v, (List.prefix_cons_inj c).2 hv, hM.cons hc⟩
      obtain ⟨t', s', rfl, rfl, h'⟩ := ih rest hb' hw hrest
      exact ⟨t', s', rfl, rfl, h'⟩
    | drop split found _ _ => exact absurd ⟨_, ⟨_, split.symm⟩, found⟩ hb

/-- What is left of a text that begins with an address does not begin with a domain, which would
have been dropped with the address. The induction is over the addresses in a row. -/
theorem not_domain_of_removal (h : Removal Matches t s) (hb : Begins Matches t) (hd : IsDomain d) :
    ¬ d <+: s := by
  induction h with
  | nil =>
    obtain ⟨w, hw, hM⟩ := hb
    exact absurd (List.prefix_nil.1 hw) hM.ne_nil
  | keep none _ _ => exact absurd hb none
  | @drop t m b s split found longest rest ih =>
    intro hs
    by_cases hb' : Begins Matches b
    · exact ih hb' hs
    · obtain ⟨b', -, rfl, -⟩ := exists_of_removal rest hb' (isLocalChar_of_isDomain hd) hs
      have hle := longest (m ++ d) ⟨b', by rw [split, List.append_assoc]⟩ (found.append hd)
      have hpos := List.length_pos_iff.2 hd.ne_nil
      rw [List.length_append] at hle
      omega

/-- An address at the start of what is left would have its local part and its `@` from the text, so
the domain after them is in the text, too, or follows an address. -/
theorem not_begins_of_removal (hb : ¬ Begins Matches (c :: t)) (h : Removal Matches t s) :
    ¬ Begins Matches (c :: s) := by
  rintro ⟨w, hw, hM⟩
  obtain ⟨user, d, rfl, ⟨hne, hu⟩, hd⟩ := matches_iff.1 hM
  have huser : user <+: c :: s := (List.prefix_append _ _).trans hw
  obtain ⟨t₁, s₁, ht, hs, h₁, hb₁⟩ := exists_of_removal (.keep hb h) hb hu huser
  rw [hs, List.prefix_append_right_inj] at hw
  cases h₁ with
  | nil => exact absurd (List.prefix_nil.1 hw) (List.cons_ne_nil _ _)
  | drop split found _ _ => exact absurd ⟨_, ⟨_, split.symm⟩, found⟩ hb₁
  | @keep _ t₂ s₂ _ rest =>
    obtain ⟨rfl, hdomain⟩ := List.cons_prefix_cons.1 hw
    by_cases hb₂ : Begins Matches t₂
    · exact not_domain_of_removal rest hb₂ hd hdomain
    · obtain ⟨t₃, -, rfl, -⟩ := exists_of_removal rest hb₂ (isLocalChar_of_isDomain hd) hdomain
      rw [ht] at hb
      exact hb ⟨user ++ '@' :: d, ⟨t₃, by simp⟩, hM⟩

theorem free_remove (t : Text) : Text.Free Matches (remove t) :=
  (removal_removeAll findsLongest t).free (fun h => h.ne_nil rfl) not_begins_of_removal

/-- The `c` before the second `@` belongs to the first address. -/
example : remove ['a', '@', 'b', '.', 'c', 'o', 'c', '@', 'd', '.', 'c', 'o', 'm'] =
    ['@', 'd', '.', 'c', 'o', 'm'] := by decide +kernel

end Email

/-- The pass from left to right that drops the longest URL, or the longest address, wherever one
begins leaves none, and so a second pass changes nothing. -/
theorem Pattern.one_pass_suffices (t : Text) :
    ((∀ s, Url.remove t = s ↔ Removal Url.Matches t s) ∧
      Text.Free Url.Matches (Url.remove t) ∧ Url.remove (Url.remove t) = Url.remove t) ∧
    ((∀ s, Email.remove t = s ↔ Removal Email.Matches t s) ∧
      Text.Free Email.Matches (Email.remove t) ∧ Email.remove (Email.remove t) = Email.remove t) := by
  refine ⟨⟨fun s => ?_, ?_, ?_⟩, ⟨fun s => ?_, ?_, ?_⟩⟩
  · exact removeAll_eq_iff Url.findsLongest fun h => h.ne_nil rfl
  · exact Url.free_remove t
  · exact Url.remove_eq_self_iff.2 (Url.free_remove t)
  · exact removeAll_eq_iff Email.findsLongest fun h => h.ne_nil rfl
  · exact Email.free_remove t
  · exact Email.remove_eq_self_iff.2 (Email.free_remove t)

end Quire
