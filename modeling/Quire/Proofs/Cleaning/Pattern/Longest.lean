import Quire.Proofs.Cleaning.Pattern

/-!
# The longest match

A pattern that `FindsLongest` texts of some kind takes, where there is one at the start of a text,
the longest one that is there. Both patterns do: a URL goes on as long as there are characters for
it (`Url.findsLongest`), and of the ends that a domain can have the last one is taken, with all
letters that follow the dot (`Email.findsLongest`).
-/

namespace Quire

/-- The match of a pattern is a text with `M`, and no text with `M` at the start of the same text is
longer. -/
structure Pattern.FindsLongest (p : Pattern) (M : Text → Prop) : Prop extends p.Finds M where
  exists_match : ∀ t, 0 < p t → ∃ m b, t = m ++ b ∧ M m ∧ m.length = p t
  longest : ∀ t w, w <+: t → M w → w.length ≤ p t

/-! ### URLs -/

namespace Url

variable {t r w : Text} {c : Char}

theorem pattern_eq (h : afterScheme? t = some r) : pattern t =
    if r.takeWhile isUrlChar = [] then 0
    else t.length - r.length + (r.takeWhile isUrlChar).length := by
  unfold pattern
  rw [h]
  dsimp only
  split
  · next he => rw [he, if_pos rfl]
  · next hne => rw [if_neg hne]

theorem findsLongest : pattern.FindsLongest Matches where
  toFinds := finds
  exists_match t h := by
    obtain ⟨r, hr, hne⟩ := pattern_pos_iff.1 h
    obtain ⟨s, hs, rfl⟩ := afterScheme?_eq_some_iff.1 hr
    refine ⟨s ++ r.takeWhile isUrlChar, r.dropWhile isUrlChar, ?_, ?_, ?_⟩
    · rw [List.append_assoc, List.takeWhile_append_dropWhile]
    · exact ⟨s, _, rfl, hs, hne, fun c hc => List.mem_takeWhile_imp hc⟩
    · rw [pattern_eq hr, if_neg hne]
      simp
  longest t w hw hM := by
    obtain ⟨b, rfl⟩ := hw
    obtain ⟨s, a, rfl, hs, hne, ha⟩ := hM
    have hr : afterScheme? (s ++ a ++ b) = some (a ++ b) :=
      afterScheme?_eq_some_iff.2 ⟨s, hs, List.append_assoc s a b⟩
    have htake : (a ++ b).takeWhile isUrlChar = a ++ b.takeWhile isUrlChar :=
      List.takeWhile_append_of_pos ha
    rw [pattern_eq hr, htake, if_neg (List.append_ne_nil_of_left_ne_nil hne _)]
    simp only [List.length_append]
    omega

end Url

/-! ### E-mail addresses -/

namespace Email

variable {t u w d : Text} {c : Char} {first : Bool}

/-- A text that ends in a dot and two or more letters, with something before the dot if `first`
holds. -/
def EndsInLetters (first : Bool) (w : Text) : Prop :=
  ∃ host top, w = host ++ '.' :: top ∧ (first → host ≠ []) ∧ 2 ≤ top.length ∧ ∀ c ∈ top, c.isAlpha

/-- What may follow the `@`. -/
structure IsDomain (w : Text) : Prop where
  ending : EndsInLetters true w
  chars : ∀ c ∈ w, isDomainChar c

theorem isDomain_iff : IsDomain w ↔ ∃ host top, w = host ++ '.' :: top ∧
    (host ≠ [] ∧ ∀ c ∈ host, isDomainChar c) ∧ 2 ≤ top.length ∧ ∀ c ∈ top, c.isAlpha := by
  constructor
  · rintro ⟨⟨host, top, rfl, hne, h⟩, hd⟩
    exact ⟨host, top, rfl, ⟨hne rfl, (List.forall_mem_append.1 hd).1⟩, h⟩
  · rintro ⟨host, top, rfl, ⟨hne, hd⟩, h⟩
    refine ⟨⟨host, top, rfl, fun _ => hne, h⟩, List.forall_mem_append.2 ⟨hd, ?_⟩⟩
    exact List.forall_mem_cons.2 ⟨by decide, fun c hc => isDomainChar_of_isAlpha (h.2 c hc)⟩

theorem matches_iff : Matches w ↔ ∃ user d, w = user ++ '@' :: d ∧
    (user ≠ [] ∧ ∀ c ∈ user, isLocalChar c) ∧ IsDomain d := by
  simp only [isDomain_iff]
  constructor
  · rintro ⟨user, host, top, rfl, hu, h⟩
    exact ⟨user, _, rfl, hu, host, top, rfl, h⟩
  · rintro ⟨user, _, rfl, hu, host, top, rfl, h⟩
    exact ⟨user, host, top, rfl, hu, h⟩

theorem IsDomain.ne_nil (h : IsDomain d) : d ≠ [] := by
  obtain ⟨host, top, rfl, -⟩ := h.ending
  exact List.append_ne_nil_of_right_ne_nil _ (List.cons_ne_nil _ _)

/-- The end of a domain is that in what follows its first character, if there is one, or else the
first character is the dot. -/
theorem domainEnd_cons_cases (first : Bool) (c : Char) (t : Text) :
    (0 < domainEnd false t ∧ domainEnd first (c :: t) = domainEnd false t + 1) ∨
    (domainEnd false t = 0 ∧
      ((first = false ∧ c = '.' ∧ 2 ≤ (t.takeWhile Char.isAlpha).length ∧
        domainEnd first (c :: t) = 1 + (t.takeWhile Char.isAlpha).length) ∨
      ¬ (first = false ∧ c = '.' ∧ 2 ≤ (t.takeWhile Char.isAlpha).length))) := by
  rcases Nat.eq_zero_or_pos (domainEnd false t) with h | h
  · refine Or.inr ⟨h, ?_⟩
    by_cases hdot : first = false ∧ c = '.' ∧ 2 ≤ (t.takeWhile Char.isAlpha).length
    · obtain ⟨rfl, rfl, h2⟩ := hdot
      refine Or.inl ⟨rfl, rfl, h2, ?_⟩
      rw [domainEnd, h]
      simp [h2]
    · exact Or.inr hdot
  · obtain ⟨n, hn⟩ := Nat.exists_eq_add_one.2 h
    refine Or.inl ⟨h, ?_⟩
    rw [domainEnd, hn]

theorem exists_endsInLetters (h : 0 < domainEnd first t) :
    ∃ w, w <+: t ∧ EndsInLetters first w ∧ w.length = domainEnd first t := by
  induction t generalizing first with
  | nil => exact absurd h (Nat.lt_irrefl 0)
  | cons c t ih =>
    rcases domainEnd_cons_cases first c t with ⟨hpos, he⟩ | ⟨hzero, hdot | hdot⟩
    · obtain ⟨w, hw, ⟨host, top, rfl, -, h⟩, hl⟩ := ih hpos
      refine ⟨c :: (host ++ '.' :: top), (List.prefix_cons_inj c).2 hw,
        ⟨c :: host, top, rfl, fun _ => List.cons_ne_nil _ _, h⟩, ?_⟩
      rw [he, List.length_cons, hl]
    · obtain ⟨rfl, rfl, h2, he⟩ := hdot
      refine ⟨'.' :: t.takeWhile Char.isAlpha, (List.prefix_cons_inj '.').2 (List.takeWhile_prefix _),
        ⟨[], _, rfl, fun h => absurd h (by decide), h2, fun c hc => List.mem_takeWhile_imp hc⟩, ?_⟩
      rw [he, List.length_cons, Nat.add_comm]
    · rcases domainEnd_cons_pos_iff.1 h with hpos | hletters
      · exact absurd hzero (Nat.ne_of_gt hpos)
      · exact absurd hletters hdot

/-- Letters at the start of a text do not go beyond the end of a domain, in which there is a dot. -/
theorem length_le_domainEnd_of_isAlpha (hw : w <+: t) (ha : ∀ c ∈ w, c.isAlpha)
    (h : 0 < domainEnd first t) : w.length ≤ domainEnd first t := by
  obtain ⟨v, hv, ⟨host, top, rfl, -⟩, hl⟩ := exists_endsInLetters h
  rw [← hl]
  rcases List.prefix_or_prefix_of_prefix hw hv with hle | hle
  · exact hle.length_le
  · have hdot := ha '.' (hle.subset (by simp))
    exact absurd hdot (by decide)

theorem length_le_domainEnd (hw : w <+: t) (h : EndsInLetters first w) :
    w.length ≤ domainEnd first t := by
  induction t generalizing first w with
  | nil =>
    obtain ⟨host, top, rfl, -⟩ := h
    exact absurd (List.prefix_nil.1 hw) (by simp)
  | cons c t ih =>
    obtain ⟨host, top, rfl, hne, h2, ha⟩ := h
    cases host with
    | nil =>
      -- The dot comes first: what counts is whether there is a later one.
      obtain ⟨rfl, htop⟩ := List.cons_prefix_cons.1 hw
      have hfirst : first = false := by simpa using hne
      have hletters := ((prefix_takeWhile_iff (p := Char.isAlpha)).2 ⟨htop, ha⟩).length_le
      rw [List.nil_append, List.length_cons]
      rcases domainEnd_cons_cases first '.' t with ⟨hpos, he⟩ | ⟨-, ⟨-, -, -, he⟩ | hdot⟩
      · have := length_le_domainEnd_of_isAlpha htop ha hpos
        omega
      · omega
      · exact absurd ⟨hfirst, rfl, h2.trans hletters⟩ hdot
    | cons d host =>
      have hrest : host ++ '.' :: top <+: t := (List.cons_prefix_cons.1 hw).2
      have hend : EndsInLetters false (host ++ '.' :: top) :=
        ⟨host, top, rfl, fun h => absurd h (by decide), h2, ha⟩
      have hle := ih hrest hend
      have hpos : 0 < (host ++ '.' :: top).length := List.length_pos_iff.2 (by simp)
      rw [List.cons_append, List.length_cons]
      rcases domainEnd_cons_cases first c t with ⟨-, he⟩ | ⟨hzero, -⟩ <;> omega

theorem exists_isDomain (h : 0 < domain t) :
    ∃ d, d <+: t ∧ IsDomain d ∧ d.length = domain t := by
  obtain ⟨d, hd, hend, hl⟩ := exists_endsInLetters h
  obtain ⟨hd, hchars⟩ := prefix_takeWhile_iff.1 hd
  exact ⟨d, hd, ⟨hend, hchars⟩, hl⟩

theorem length_le_domain (hd : d <+: t) (h : IsDomain d) : d.length ≤ domain t :=
  length_le_domainEnd (prefix_takeWhile_iff.2 ⟨hd, h.chars⟩) h.ending

theorem pattern_eq (hne : u ≠ []) (hu : ∀ c ∈ u, isLocalChar c) (h : 0 < domain t) :
    pattern (u ++ '@' :: t) = u.length + 1 + domain t := by
  have hparts : (u ++ '@' :: t).takeWhile isLocalChar = u ∧
      (u ++ '@' :: t).dropWhile isLocalChar = '@' :: t := eq_append_at_iff.1 ⟨rfl, hu⟩
  obtain ⟨n, hn⟩ := Nat.exists_eq_add_one.2 h
  unfold pattern
  cases u with
  | nil => exact absurd rfl hne
  | cons c u =>
    simp only [hparts.1, hparts.2, hn]

theorem findsLongest : pattern.FindsLongest Matches where
  toFinds := finds
  exists_match t h := by
    obtain ⟨user, rest, ⟨rfl, hu⟩, hne, hpos⟩ := pattern_pos_iff.1 h
    obtain ⟨d, ⟨b, rfl⟩, hd, hl⟩ := exists_isDomain hpos
    refine ⟨user ++ '@' :: d, b, by simp, matches_iff.2 ⟨user, d, rfl, ⟨hne, hu⟩, hd⟩, ?_⟩
    rw [pattern_eq hne hu hpos, ← hl, List.length_append, List.length_cons]
    omega
  longest t w hw hM := by
    obtain ⟨user, d, rfl, ⟨hne, hu⟩, hd⟩ := matches_iff.1 hM
    obtain ⟨b, rfl⟩ := hw
    have hle := length_le_domain (List.prefix_append d b) hd
    have hpos : 0 < domain (d ++ b) := Nat.lt_of_lt_of_le (List.length_pos_iff.2 hd.ne_nil) hle
    have he : user ++ '@' :: d ++ b = user ++ '@' :: (d ++ b) := by simp
    rw [he, pattern_eq hne hu hpos, List.length_append, List.length_cons]
    omega

end Email

end Quire
