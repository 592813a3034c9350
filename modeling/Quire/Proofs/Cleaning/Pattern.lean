import Mathlib.Data.List.Infix
import Mathlib.Data.List.TakeWhile
import Quire.Cleaning.Email
import Quire.Cleaning.Url
import Quire.Proofs.Text.Blank

/-!
# What patterns leave alone

`Pattern.removeAll` only drops characters (`removeAll_sublist`), and it changes nothing exactly if
no place of the text begins a match (`removeAll_eq_self_iff`). `Url.Matches` and `Email.Matches` say
what a URL and an address are as a whole, without a choice of how far they go. A pattern that
`Finds` such texts leaves a text alone exactly if no piece of it is one: `Url.remove_eq_self_iff`,
`Email.remove_eq_self_iff`.
-/

namespace Quire

namespace Pattern

variable {p : Pattern} {t : Text}

theorem removeFrom_sublist (p : Pattern) (skip : Nat) (t : Text) :
    (p.removeFrom [] skip t).Sublist t := by
  induction t generalizing skip with
  | nil => simp [removeFrom]
  | cons c t ih =>
    cases skip with
    | succ skip => exact (ih skip).cons c
    | zero =>
      simp only [removeFrom]
      split
      · rw [removeFrom_eq]
        exact (ih 0).cons_cons c
      · next n _ => exact (ih n).cons c

theorem removeAll_sublist (p : Pattern) (t : Text) : (p.removeAll t).Sublist t :=
  removeFrom_sublist p 0 t

theorem removeAll_cons_of_eq_zero {c : Char} (h : p (c :: t) = 0) :
    p.removeAll (c :: t) = c :: p.removeAll t := by
  rw [removeAll, removeFrom, h]
  exact removeFrom_eq p [c] 0 t

theorem length_removeAll_cons_of_pos {c : Char} (h : 0 < p (c :: t)) :
    (p.removeAll (c :: t)).length ≤ t.length := by
  obtain ⟨n, hn⟩ := Nat.exists_eq_add_one.2 h
  rw [removeAll, removeFrom, hn]
  exact (removeFrom_sublist p n t).length_le

theorem removeAll_eq_self_iff : p.removeAll t = t ↔ ∀ v, v <:+ t → v ≠ [] → p v = 0 := by
  induction t with
  | nil => exact iff_of_true rfl fun v hv hne => absurd (List.suffix_nil.1 hv) hne
  | cons c t ih =>
    rcases Nat.eq_zero_or_pos (p (c :: t)) with h | h
    · rw [removeAll_cons_of_eq_zero h, List.cons.injEq, ih]
      constructor
      · rintro ⟨-, hs⟩ v hv hne
        rcases List.suffix_cons_iff.1 hv with rfl | hv
        · exact h
        · exact hs v hv hne
      · exact fun hs => ⟨rfl, fun v hv => hs v (hv.trans (List.suffix_cons c t))⟩
    · refine iff_of_false (fun he => ?_) fun hs => ?_
      · have := length_removeAll_cons_of_pos h
        rw [he, List.length_cons] at this
        omega
      · have := hs _ List.suffix_rfl (List.cons_ne_nil c t)
        omega

/-- A pattern matches at the start of a text exactly if the text starts with one of the texts
`M`, and it never matches nothing. -/
structure Finds (p : Pattern) (M : Text → Prop) : Prop where
  pos_iff : ∀ t, 0 < p t ↔ ∃ w, w <+: t ∧ M w
  nil : p [] = 0

theorem Finds.removeAll_eq_self_iff {M : Text → Prop} (h : p.Finds M) :
    p.removeAll t = t ↔ Text.Free M t := by
  rw [Pattern.removeAll_eq_self_iff]
  constructor
  · rintro hs w ⟨a, b, rfl⟩ hM
    have hpos : 0 < p (w ++ b) := (h.pos_iff _).2 ⟨w, List.prefix_append w b, hM⟩
    have hne : w ++ b ≠ [] := by
      intro he
      rw [he, h.nil] at hpos
      exact absurd hpos (Nat.lt_irrefl 0)
    rw [hs (w ++ b) (by rw [List.append_assoc]; exact List.suffix_append a _) hne] at hpos
    exact absurd hpos (Nat.lt_irrefl 0)
  · intro hf v hv _
    by_contra hp
    obtain ⟨w, hw, hM⟩ := (h.pos_iff v).1 (Nat.pos_of_ne_zero hp)
    exact hf w (hw.isInfix.trans hv.isInfix) hM

end Pattern

/-! ### URLs -/

namespace Url

/-- `http://` and `https://`. -/
def schemes : List Text :=
  [['h', 't', 't', 'p', ':', '/', '/'], ['h', 't', 't', 'p', 's', ':', '/', '/']]

/-- A scheme and one or more characters of a URL. -/
def Matches (w : Text) : Prop :=
  ∃ scheme address, w = scheme ++ address ∧ scheme ∈ schemes ∧ address ≠ [] ∧
    ∀ c ∈ address, isUrlChar c

theorem afterScheme?_eq_some_iff {t r : Text} :
    afterScheme? t = some r ↔ ∃ s ∈ schemes, t = s ++ r := by
  simp only [schemes, List.mem_cons, List.not_mem_nil, or_false, exists_eq_or_imp, exists_eq_left]
  constructor
  · intro h
    unfold afterScheme? at h
    split at h
    · exact Or.inl (by rw [← Option.some.inj h]; rfl)
    · exact Or.inr (by rw [← Option.some.inj h]; rfl)
    · exact absurd h (by simp)
  · rintro (rfl | rfl) <;> rfl

theorem pattern_pos_iff {t : Text} :
    0 < pattern t ↔ ∃ r, afterScheme? t = some r ∧ r.takeWhile isUrlChar ≠ [] := by
  unfold pattern
  split
  · next h => simp [h]
  · next r h =>
    simp only [h, Option.some.injEq, exists_eq_left']
    split
    · next he => simp [he]
    · next hne =>
      refine iff_of_true ?_ hne
      have := List.length_pos_iff.2 hne
      omega

theorem finds : pattern.Finds Matches where
  pos_iff t := by
    rw [pattern_pos_iff]
    constructor
    · rintro ⟨r, hr, hne⟩
      obtain ⟨s, hs, rfl⟩ := afterScheme?_eq_some_iff.1 hr
      refine ⟨s ++ r.takeWhile isUrlChar, ?_, s, _, rfl, hs, hne, fun c hc => ?_⟩
      · exact (List.prefix_append_right_inj s).2 (List.takeWhile_prefix _)
      · exact List.mem_takeWhile_imp hc
    · rintro ⟨_, ⟨b, rfl⟩, s, a, rfl, hs, hne, ha⟩
      refine ⟨a ++ b, afterScheme?_eq_some_iff.2 ⟨s, hs, List.append_assoc s a b⟩, ?_⟩
      rw [List.takeWhile_append_of_pos ha]
      exact List.append_ne_nil_of_left_ne_nil hne _
  nil := rfl

theorem remove_sublist (t : Text) : (remove t).Sublist t := Pattern.removeAll_sublist pattern t

theorem remove_eq_self_iff {t : Text} : remove t = t ↔ Text.Free Matches t :=
  finds.removeAll_eq_self_iff

theorem visible_of_isUrlChar {c : Char} (h : isUrlChar c) : 0x21 ≤ c.toNat ∧ c.toNat ≤ 0x7E :=
  Text.visible_of_isAlphanum_or_contains (by simp) h

theorem isUrlChar_of_matches {w : Text} (h : Matches w) : ∀ c ∈ w, isUrlChar c := by
  obtain ⟨scheme, address, rfl, hs, -, ha⟩ := h
  have hscheme : ∀ s ∈ schemes, ∀ c ∈ s, isUrlChar c := by
    simp [schemes, isUrlChar]
  exact List.forall_mem_append.2 ⟨hscheme scheme hs, ha⟩

theorem Matches.ne_nil {w : Text} (h : Matches w) : w ≠ [] := by
  obtain ⟨scheme, address, rfl, -, hne, -⟩ := h
  exact List.append_ne_nil_of_right_ne_nil _ hne

theorem Matches.isSolid {w : Text} (h : Matches w) : Text.IsSolid w :=
  ⟨h.ne_nil, fun c hc => Text.not_isBlank_of_visible (visible_of_isUrlChar (isUrlChar_of_matches h c hc))⟩

end Url

/-! ### E-mail addresses -/

namespace Email

/-- One or more local characters, `@`, one or more domain characters, a dot, and two or more
letters. -/
def Matches (w : Text) : Prop :=
  ∃ user host top, w = user ++ '@' :: (host ++ '.' :: top) ∧
    (user ≠ [] ∧ ∀ c ∈ user, isLocalChar c) ∧ (host ≠ [] ∧ ∀ c ∈ host, isDomainChar c) ∧
    2 ≤ top.length ∧ ∀ c ∈ top, c.isAlpha

theorem domainEnd_cons_pos_iff {first : Bool} {c : Char} {t : Text} :
    0 < domainEnd first (c :: t) ↔ 0 < domainEnd false t ∨
      first = false ∧ c = '.' ∧ 2 ≤ (t.takeWhile Char.isAlpha).length := by
  rw [domainEnd]
  split
  · next h =>
    rw [h]
    by_cases hc : first = false ∧ c = '.'
    · obtain ⟨rfl, rfl⟩ := hc
      by_cases h2 : 2 ≤ (t.takeWhile Char.isAlpha).length
      · refine iff_of_true ?_ (Or.inr ⟨rfl, rfl, h2⟩)
        show 0 < if 2 ≤ (t.takeWhile Char.isAlpha).length then _ else 0
        rw [if_pos h2]
        omega
      · simp [h2]
    · simp only [Bool.and_eq_true, Bool.not_eq_true', beq_iff_eq, if_neg hc, Nat.lt_irrefl,
        false_or, false_iff]
      exact fun h => hc ⟨h.1, h.2.1⟩
  · next n h => exact iff_of_true n.succ.succ_pos (Or.inl (h ▸ n.succ_pos))

theorem two_le_letters_iff {t : Text} : 2 ≤ (t.takeWhile Char.isAlpha).length ↔
    ∃ top, top <+: t ∧ 2 ≤ top.length ∧ ∀ c ∈ top, c.isAlpha := by
  constructor
  · exact fun h => ⟨_, List.takeWhile_prefix _, h, fun c hc => List.mem_takeWhile_imp hc⟩
  · rintro ⟨top, ⟨b, rfl⟩, h, ha⟩
    rw [List.takeWhile_append_of_pos ha, List.length_append]
    omega

theorem domainEnd_pos_iff {first : Bool} {t : Text} : 0 < domainEnd first t ↔
    ∃ host top, host ++ '.' :: top <+: t ∧ (first → host ≠ []) ∧ 2 ≤ top.length ∧
      ∀ c ∈ top, c.isAlpha := by
  induction t generalizing first with
  | nil => simp [domainEnd]
  | cons c t ih =>
    rw [domainEnd_cons_pos_iff, ih, two_le_letters_iff]
    constructor
    · rintro (⟨host, top, ht, -, h⟩ | ⟨rfl, rfl, top, ht, h⟩)
      · exact ⟨c :: host, top, (List.prefix_cons_inj c).2 ht, fun _ => List.cons_ne_nil _ _, h⟩
      · exact ⟨[], top, (List.prefix_cons_inj '.').2 ht, fun h => absurd h (by decide), h⟩
    · rintro ⟨host, top, ht, hh, h⟩
      cases host with
      | nil =>
        obtain ⟨hc, ht⟩ := List.cons_prefix_cons.1 ht
        exact Or.inr ⟨by simpa using hh, hc.symm, top, ht, h⟩
      | cons d host =>
        obtain ⟨-, ht⟩ := List.cons_prefix_cons.1 ht
        exact Or.inl ⟨host, top, ht, fun h => absurd h (by decide), h⟩

theorem isDomainChar_of_isAlpha {c : Char} (h : c.isAlpha) : isDomainChar c := by
  simp [isDomainChar, Char.isAlphanum, h]

theorem prefix_takeWhile_iff {p : Char → Bool} {w t : Text} :
    w <+: t.takeWhile p ↔ w <+: t ∧ ∀ c ∈ w, p c := by
  constructor
  · exact fun h => ⟨h.trans (List.takeWhile_prefix p),
      fun c hc => List.mem_takeWhile_imp (h.subset hc)⟩
  · rintro ⟨⟨b, rfl⟩, h⟩
    rw [List.takeWhile_append_of_pos h]
    exact List.prefix_append _ _

theorem domain_pos_iff {t : Text} : 0 < domain t ↔
    ∃ host top, host ++ '.' :: top <+: t ∧ (host ≠ [] ∧ ∀ c ∈ host, isDomainChar c) ∧
      2 ≤ top.length ∧ ∀ c ∈ top, c.isAlpha := by
  simp only [domain, domainEnd_pos_iff, prefix_takeWhile_iff, forall_true_left]
  constructor
  · rintro ⟨host, top, ⟨ht, hd⟩, hne, h⟩
    exact ⟨host, top, ht, ⟨hne, fun c hc => hd c (List.mem_append_left _ hc)⟩, h⟩
  · rintro ⟨host, top, ht, ⟨hne, hd⟩, h⟩
    refine ⟨host, top, ⟨ht, ?_⟩, hne, h⟩
    refine List.forall_mem_append.2 ⟨hd, List.forall_mem_cons.2 ⟨by decide, fun c hc => ?_⟩⟩
    exact isDomainChar_of_isAlpha (h.2 c hc)

/-- The local part goes up to the `@`, which is no local character. -/
theorem eq_append_at_iff {user rest t : Text} :
    (t = user ++ '@' :: rest ∧ ∀ c ∈ user, isLocalChar c) ↔
      t.takeWhile isLocalChar = user ∧ t.dropWhile isLocalChar = '@' :: rest := by
  constructor
  · rintro ⟨rfl, hu⟩
    rw [List.takeWhile_append_of_pos hu, List.dropWhile_append_of_pos hu,
      List.takeWhile_cons_of_neg (by decide), List.dropWhile_cons_of_neg (by decide)]
    exact ⟨List.append_nil user, rfl⟩
  · rintro ⟨hu, hr⟩
    have ht := List.takeWhile_append_dropWhile (p := isLocalChar) (l := t)
    rw [hu, hr] at ht
    exact ⟨ht.symm, fun c hc => List.mem_takeWhile_imp (hu ▸ hc)⟩

theorem pattern_pos_iff {t : Text} : 0 < pattern t ↔
    ∃ user rest, (t = user ++ '@' :: rest ∧ ∀ c ∈ user, isLocalChar c) ∧ user ≠ [] ∧
      0 < domain rest := by
  simp only [eq_append_at_iff]
  unfold pattern
  split
  · next c user rest hu hr =>
    cases hd : domain rest with
    | zero =>
      refine iff_of_false (Nat.lt_irrefl 0) ?_
      rintro ⟨user', rest', ⟨-, hr'⟩, -, hd'⟩
      rw [hr, List.cons.injEq] at hr'
      rw [← hr'.2, hd] at hd'
      exact Nat.lt_irrefl 0 hd'
    | succ n =>
      exact iff_of_true (Nat.succ_pos _)
        ⟨c :: user, rest, ⟨hu, hr⟩, List.cons_ne_nil c user, hd ▸ n.succ_pos⟩
  · next h =>
    refine iff_of_false (Nat.lt_irrefl 0) ?_
    rintro ⟨user, rest, ⟨hu, hr⟩, hne, -⟩
    obtain ⟨c, user, rfl⟩ := List.exists_cons_of_ne_nil hne
    exact h c user rest hu hr

theorem finds : pattern.Finds Matches where
  pos_iff t := by
    simp only [pattern_pos_iff, domain_pos_iff]
    constructor
    · rintro ⟨user, _, ⟨rfl, hu⟩, hne, host, top, ⟨b, rfl⟩, h⟩
      refine ⟨_, ?_, user, host, top, rfl, ⟨hne, hu⟩, h⟩
      exact (List.prefix_append_right_inj user).2
        ((List.prefix_cons_inj '@').2 (List.prefix_append _ b))
    · rintro ⟨_, ⟨b, rfl⟩, user, host, top, rfl, ⟨hne, hu⟩, h⟩
      refine ⟨user, host ++ '.' :: top ++ b, ⟨?_, hu⟩, hne, host, top, List.prefix_append _ b, h⟩
      rw [List.append_assoc, List.cons_append]
  nil := rfl

theorem remove_sublist (t : Text) : (remove t).Sublist t := Pattern.removeAll_sublist pattern t

theorem remove_eq_self_iff {t : Text} : remove t = t ↔ Text.Free Matches t :=
  finds.removeAll_eq_self_iff

theorem visible_of_isLocalChar {c : Char} (h : isLocalChar c) :
    0x21 ≤ c.toNat ∧ c.toNat ≤ 0x7E :=
  Text.visible_of_isAlphanum_or_contains (by simp) h

theorem isLocalChar_of_isDomainChar {c : Char} (h : isDomainChar c) : isLocalChar c := by
  rcases Bool.or_eq_true_iff.1 h with h | h
  · exact Bool.or_eq_true_iff.2 (Or.inl h)
  · refine (?_ : ∀ d ∈ _, isLocalChar d) c (List.contains_iff_mem.1 h)
    simp [isLocalChar]

theorem Matches.isSolid {w : Text} (h : Matches w) : Text.IsSolid w := by
  obtain ⟨user, host, top, rfl, ⟨-, hu⟩, ⟨-, hh⟩, -, ht⟩ := h
  refine ⟨by simp, fun c hc => ?_⟩
  apply Text.not_isBlank_of_visible
  have hlocal : isLocalChar c ∨ c = '@' := by
    simp only [List.mem_append, List.mem_cons] at hc
    rcases hc with hc | rfl | hc | rfl | hc
    · exact Or.inl (hu c hc)
    · exact Or.inr rfl
    · exact Or.inl (isLocalChar_of_isDomainChar (hh c hc))
    · exact Or.inl (by decide)
    · exact Or.inl (isLocalChar_of_isDomainChar (isDomainChar_of_isAlpha (ht c hc)))
  rcases hlocal with h | rfl
  · exact visible_of_isLocalChar h
  · decide

end Email

end Quire
