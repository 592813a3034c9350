import Quire.Proofs.Cleaning.Link
import Quire.Proofs.Cleaning.Loop

/-!
# What links cost a text

Removing links costs a text brackets, and what else it costs is lost with an embed: reading a text
keeps `unbracketed`, the text without its square brackets, exactly if no embed is closed in it
(`unbracketed_remove_eq_iff`). A reference never costs more, but a `[[` can open an embed where the
text has no `![[`: the scan looks for the `!` in what it has kept, and in `[[a!]][[b]]` that is the
end of the first label. `SuggestsEmbed` says that a text has a `!` with two opening brackets after it
and nothing but brackets between, and a text without such a place loses no embed, neither in the
first pass over it (`suggestsEmbed_of_losesEmbed`) nor later.
-/

namespace Quire.Link

/-- A square bracket. -/
def isBracket (c : Char) : Bool := c == '[' || c == ']'

/-- A text without its square brackets. -/
def unbracketed (t : Text) : Text := t.filter (!isBracket ·)

/-- The text `s` is `t` without some of its brackets. -/
structure LosesBrackets (s t : Text) : Prop where
  sublist : s.Sublist t
  unbracketed_eq : unbracketed s = unbracketed t

/-- After a `!` there are two opening brackets with nothing but brackets before them. -/
def SuggestsEmbed (t : Text) : Prop :=
  ∃ a w b, t = a ++ '!' :: (w ++ b) ∧ (∀ c ∈ w, isBracket c) ∧ 2 ≤ w.count '['

variable {a b s t w : Text} {c : Char}

/-! ### Texts without brackets -/

theorem unbracketed_append (s t : Text) : unbracketed (s ++ t) = unbracketed s ++ unbracketed t :=
  List.filter_append ..

theorem unbracketed_reverse (t : Text) : unbracketed t.reverse = (unbracketed t).reverse :=
  List.filter_reverse

theorem unbracketed_sublist (h : s.Sublist t) : (unbracketed s).Sublist (unbracketed t) :=
  h.filter _

theorem unbracketed_eq_nil_iff : unbracketed t = [] ↔ ∀ c ∈ t, isBracket c := by
  simp [unbracketed, List.filter_eq_nil_iff]

theorem unbracketed_eq_self (h : ∀ c ∈ t, ¬ isBracket c) : unbracketed t = t :=
  List.filter_eq_self.2 fun c hc => by simpa using h c hc

/-! ### Texts with fewer brackets -/

/-- Of two parts neither can make up for what the other has lost. -/
theorem LosesBrackets.of_append (h : unbracketed (s ++ t) = unbracketed (a ++ b))
    (hs : s.Sublist a) (ht : t.Sublist b) : LosesBrackets s a ∧ LosesBrackets t b := by
  rw [unbracketed_append, unbracketed_append] at h
  have h1 := (unbracketed_sublist hs).length_le
  have h2 := (unbracketed_sublist ht).length_le
  have hl := congrArg List.length h
  rw [List.length_append, List.length_append] at hl
  obtain ⟨h3, h4⟩ := List.append_inj h (by omega)
  exact ⟨⟨hs, h3⟩, ⟨ht, h4⟩⟩

theorem LosesBrackets.exists_of_append (h : LosesBrackets s (a ++ b)) :
    ∃ s₁ s₂, s = s₁ ++ s₂ ∧ LosesBrackets s₁ a ∧ LosesBrackets s₂ b := by
  obtain ⟨s₁, s₂, rfl, h₁, h₂⟩ := List.sublist_append_iff.1 h.sublist
  exact ⟨s₁, s₂, rfl, of_append h.unbracketed_eq h₁ h₂⟩

theorem LosesBrackets.exists_append (h : LosesBrackets (a ++ b) t) :
    ∃ t₁ t₂, t = t₁ ++ t₂ ∧ LosesBrackets a t₁ ∧ LosesBrackets b t₂ := by
  obtain ⟨t₁, t₂, rfl, h₁, h₂⟩ := List.append_sublist_iff.1 h.sublist
  exact ⟨t₁, t₂, rfl, of_append h.unbracketed_eq h₁ h₂⟩

theorem LosesBrackets.eq_of_unbracketed (h : LosesBrackets s w) (hw : ∀ c ∈ w, ¬ isBracket c) :
    s = w := by
  have hl : (unbracketed s).length ≤ s.length := List.length_filter_le ..
  rw [h.unbracketed_eq, unbracketed_eq_self hw] at hl
  exact h.sublist.eq_of_length_le hl

/-- What has no brackets is kept in one piece. -/
theorem LosesBrackets.isInfix (h : LosesBrackets s t) (hw : ∀ c ∈ w, ¬ isBracket c)
    (hwt : w <:+: t) : w <:+: s := by
  obtain ⟨a, b, rfl⟩ := hwt
  obtain ⟨s₁, s₂, rfl, h₁, -⟩ := h.exists_of_append
  obtain ⟨s₀, s₁, rfl, -, h₁⟩ := h₁.exists_of_append
  rw [h₁.eq_of_unbracketed hw]
  exact List.infix_append s₀ w s₂

theorem LosesBrackets.exists_of_singleton (h : LosesBrackets [c] t) (hc : ¬ isBracket c) :
    ∃ p q, t = p ++ c :: q ∧ ∀ d ∈ q, isBracket d := by
  obtain ⟨p, q, rfl⟩ := List.append_of_mem (h.sublist.subset List.mem_cons_self)
  refine ⟨p, q, rfl, unbracketed_eq_nil_iff.1 ?_⟩
  have he : unbracketed [c] = unbracketed (p ++ ([c] ++ q)) := h.unbracketed_eq
  rw [unbracketed_append, unbracketed_append,
    unbracketed_eq_self (List.forall_mem_singleton.2 hc)] at he
  have hl := congrArg List.length he
  simp only [List.length_append, List.length_singleton] at hl
  exact List.length_eq_zero_iff.1 (by omega)

/-! ### Texts that suggest an embed -/

theorem suggestsEmbed_iff : SuggestsEmbed t ↔
    ∃ v ∈ t.tails, v.head? = some '!' ∧ 2 ≤ (v.tail.takeWhile isBracket).count '[' := by
  constructor
  · rintro ⟨a, w, b, rfl, hw, h2⟩
    refine ⟨'!' :: (w ++ b), (List.mem_tails _ _).2 (List.suffix_append _ _), rfl, ?_⟩
    rw [List.tail_cons, List.takeWhile_append_of_pos hw, List.count_append]
    omega
  · rintro ⟨v, hv, hhead, h2⟩
    obtain ⟨a, rfl⟩ := (List.mem_tails _ _).1 hv
    obtain ⟨v, rfl⟩ := List.head?_eq_some_iff.1 hhead
    refine ⟨a, v.takeWhile isBracket, v.dropWhile isBracket, ?_, fun c hc => ?_, h2⟩
    · rw [List.takeWhile_append_dropWhile]
    · exact List.mem_takeWhile_imp hc

instance (t : Text) : Decidable (SuggestsEmbed t) := decidable_of_iff _ suggestsEmbed_iff.symm

theorem SuggestsEmbed.of_isPrefix (h : SuggestsEmbed s) (hs : s <+: t) : SuggestsEmbed t := by
  obtain ⟨a, w, b, rfl, hw⟩ := h
  obtain ⟨r, rfl⟩ := hs
  exact ⟨a, w, b ++ r, by simp, hw⟩

/-- Brackets that are put back leave a `!` with the opening brackets after it. -/
theorem SuggestsEmbed.of_losesBrackets (hs : SuggestsEmbed s) (h : LosesBrackets s t) :
    SuggestsEmbed t := by
  obtain ⟨a, w, b, rfl, hw, h2⟩ := hs
  rw [← List.singleton_append] at h
  obtain ⟨t₁, t₂, rfl, -, h⟩ := h.exists_append
  obtain ⟨mark, t₂, rfl, hmark, h⟩ := h.exists_append
  obtain ⟨w', b', rfl, hw', -⟩ := h.exists_append
  obtain ⟨p, q, rfl, hq⟩ := hmark.exists_of_singleton (by decide)
  have hw'' : ∀ c ∈ w', isBracket c := by
    rw [← unbracketed_eq_nil_iff, ← hw'.unbracketed_eq, unbracketed_eq_nil_iff]
    exact hw
  have hcount := hw'.sublist.count_le '['
  refine ⟨t₁ ++ p, q ++ w', b', by simp, List.forall_mem_append.2 ⟨hq, hw''⟩, ?_⟩
  rw [List.count_append]
  omega

namespace Scan

variable {s : Scan}

/-- The character completes the marker of an embed. -/
def ClosesEmbed (s : Scan) (c : Char) : Prop :=
  Closes s c ∧ ∃ link ∈ s.links.head?, link.kind = .embed

/-- An embed is closed on the way through the text. -/
def LosesEmbed (s : Scan) (t : Text) : Prop := ∃ u c v, t = u ++ c :: v ∧ ClosesEmbed (s.read u) c

/-! ### One step -/

theorem exists_eq_of_closes (h : Closes s c) :
    c = ']' ∧ ∃ inner link links, s = ⟨']' :: inner, link :: links⟩ := by
  obtain ⟨body, links⟩ := s
  obtain ⟨hc, hb, hl⟩ := h
  obtain ⟨inner, rfl⟩ := List.head?_eq_some_iff.1 hb
  obtain ⟨link, links, rfl⟩ := List.exists_cons_of_ne_nil hl
  exact ⟨hc, inner, link, links, rfl⟩

/-- A step that closes no embed drops nothing but brackets. -/
theorem unbracketed_reversed_step (h : ¬ ClosesEmbed s c) :
    unbracketed (s.step c).reversed = unbracketed (c :: s.reversed) := by
  by_cases hc : Closes s c
  · obtain ⟨rfl, inner, ⟨kind, before⟩, links, rfl⟩ := exists_eq_of_closes hc
    cases kind with
    | embed => exact absurd ⟨hc, _, rfl, rfl⟩ h
    | reference => simp [step, close, reversed, Kind.marker, unbracketed, isBracket]
  · rw [reversed_step hc]

/-- A step that closes an embed drops the `!` of its marker. -/
theorem length_unbracketed_reversed_step_lt (h : ClosesEmbed s c) :
    (unbracketed (s.step c).reversed).length < (unbracketed (c :: s.reversed)).length := by
  obtain ⟨hc, link, hl, hk⟩ := h
  obtain ⟨rfl, inner, ⟨kind, before⟩, links, rfl⟩ := exists_eq_of_closes hc
  obtain rfl := Option.some.inj hl
  obtain rfl : kind = .embed := hk
  simp [step, close, reversed, Kind.marker, unbracketed, isBracket]
  omega

/-! ### A whole text -/

theorem losesEmbed_cons_iff {t : Text} :
    LosesEmbed s (c :: t) ↔ ClosesEmbed s c ∨ LosesEmbed (s.step c) t := by
  constructor
  · rintro ⟨u, d, v, he, hd⟩
    rcases List.cons_eq_append_iff.1 he with ⟨rfl, he⟩ | ⟨u, rfl, rfl⟩
    · obtain ⟨rfl, rfl⟩ := List.cons.inj he
      exact Or.inl hd
    · exact Or.inr ⟨u, d, v, rfl, hd⟩
  · rintro (h | ⟨u, d, v, rfl, hd⟩)
    · exact ⟨[], c, t, rfl, h⟩
    · exact ⟨c :: u, d, v, rfl, hd⟩

theorem not_losesEmbed_nil : ¬ LosesEmbed s [] := by
  rintro ⟨u, c, v, he, -⟩
  exact absurd he (by simp)

/-- Reading a text keeps what is not a bracket exactly if no embed is closed. -/
theorem unbracketed_reversed_read_eq_iff {t : Text} :
    unbracketed (s.read t).reversed = unbracketed (t.reverse ++ s.reversed) ↔ ¬ LosesEmbed s t := by
  induction t generalizing s with
  | nil => exact iff_of_true rfl not_losesEmbed_nil
  | cons c t ih =>
    rw [losesEmbed_cons_iff, not_or, ← ih, read_cons, List.reverse_cons, List.append_assoc,
      List.singleton_append, unbracketed_append, unbracketed_append]
    constructor
    · intro h
      have hc : ¬ ClosesEmbed s c := by
        -- What an embed takes with it the rest of the text cannot bring back.
        intro hc
        have h1 := (unbracketed_sublist (reversed_read_sublist (s.step c) t)).length_le
        have h2 := length_unbracketed_reversed_step_lt hc
        rw [h, unbracketed_append, List.length_append, List.length_append] at h1
        omega
      exact ⟨hc, by rw [h, unbracketed_reversed_step hc]⟩
    · rintro ⟨hc, h⟩
      rw [h, unbracketed_reversed_step hc]

theorem losesEmbed_append_iff {t u : Text} :
    LosesEmbed s (t ++ u) ↔ LosesEmbed s t ∨ LosesEmbed (s.read t) u := by
  induction t generalizing s with
  | nil => exact (or_iff_right not_losesEmbed_nil).symm
  | cons c t ih =>
    rw [List.cons_append, losesEmbed_cons_iff, losesEmbed_cons_iff, ih, or_assoc, read_cons]

end Scan

open Scan

/-! ### One pass -/

theorem unbracketed_remove_eq_iff : unbracketed (remove t) = unbracketed t ↔ ¬ LosesEmbed start t := by
  rw [← unbracketed_reversed_read_eq_iff, remove, restored, unbracketed_reverse,
    unbracketed_append, unbracketed_reverse]
  show _ ↔ _ = (unbracketed t).reverse ++ []
  rw [List.append_nil, List.reverse_eq_iff]

theorem losesBrackets_remove (h : ¬ LosesEmbed start t) : LosesBrackets (remove t) t :=
  ⟨remove_sublist t, unbracketed_remove_eq_iff.2 h⟩

/-- An embed that is open stands in the text that is put back. -/
theorem suggestsEmbed_restored {s : Scan} (h : ∃ link ∈ s.links.head?, link.kind = .embed) :
    SuggestsEmbed s.restored := by
  obtain ⟨body, links⟩ := s
  obtain ⟨⟨kind, before⟩, hl, hk⟩ := h
  obtain ⟨links, rfl⟩ := List.head?_eq_some_iff.1 hl
  obtain rfl : kind = .embed := hk
  refine ⟨(restored ⟨before, links⟩), ['[', '['], body.reverse, ?_, by simp [isBracket], by simp⟩
  simp [restored, reversed, Kind.marker]

/-- Up to the first embed that is closed only brackets are lost, so its marker can be found in the
text. -/
theorem suggestsEmbed_of_losesEmbed (h : LosesEmbed start t) : SuggestsEmbed t := by
  induction t using List.reverseRecOn with
  | nil => exact absurd h not_losesEmbed_nil
  | append_singleton t c ih =>
    by_cases ht : LosesEmbed start t
    · exact (ih ht).of_isPrefix (List.prefix_append t [c])
    · rcases losesEmbed_append_iff.1 h with h | h
      · exact absurd h ht
      · rcases losesEmbed_cons_iff.1 h with ⟨-, hembed⟩ | h
        · have hs := (suggestsEmbed_restored hembed).of_losesBrackets (losesBrackets_remove ht)
          exact hs.of_isPrefix (List.prefix_append t [c])
        · exact absurd h not_losesEmbed_nil

/-! ### All passes -/

/-- The loop keeps what is not a bracket exactly if no pass closes an embed. -/
theorem unbracketed_untilStable_eq_iff (t : Text) :
    unbracketed (Rules.untilStable remove t) = unbracketed t ↔
      ∀ n, ¬ LosesEmbed start (remove^[n] t) := by
  fun_induction Rules.untilStable remove t with
  | case1 t next _ ih =>
    rw [← Nat.and_forall_add_one, ← unbracketed_remove_eq_iff]
    have hs : (unbracketed (Rules.untilStable remove next)).Sublist (unbracketed next) :=
      unbracketed_sublist (Rules.untilStable_sublist remove_sublist next)
    constructor
    · intro h
      have hn : unbracketed next = unbracketed t :=
        (unbracketed_sublist (remove_sublist t)).antisymm (h ▸ hs)
      exact ⟨hn, ih.1 (h.trans hn.symm)⟩
    · rintro ⟨hn, h⟩
      exact (ih.2 h).trans hn
  | case2 t next hn =>
    have ht : remove t = t := (remove_sublist t).eq_of_length_le (Nat.le_of_not_lt hn)
    refine iff_of_true rfl fun n => ?_
    rw [Function.iterate_fixed ht, ← unbracketed_remove_eq_iff, ht]

/-- A text that suggests no embed loses none in any pass. -/
theorem not_losesEmbed_iterate (h : ¬ SuggestsEmbed t) (n : Nat) :
    ¬ LosesEmbed start (remove^[n] t) := by
  induction n generalizing t with
  | zero => exact fun hl => h (suggestsEmbed_of_losesEmbed hl)
  | succ n ih =>
    have hb := losesBrackets_remove fun hl => h (suggestsEmbed_of_losesEmbed hl)
    exact ih fun hs => h (hs.of_losesBrackets hb)

/-! ### Lines -/

theorem unbracketed_normalizeLine_eq_iff_body (line : Text) :
    unbracketed (Rules.linksOnly.normalizeLine line) = unbracketed line ↔
      unbracketed (Rules.untilStable remove (Line.body line)) = unbracketed (Line.body line) := by
  have hline := congrArg unbracketed (Line.body_append_terminator line)
  rw [unbracketed_append] at hline
  rw [Rules.normalizeLine_linksOnly, unbracketed_append, ← hline, List.append_left_inj]

/-- With nothing on but the removal of links a line loses nothing but brackets exactly if no pass
over its body closes an embed, and so in particular if it suggests none; and then all that has no
brackets, as the label of a link, is kept in one piece. -/
theorem unbracketed_normalizeLine_eq_iff (line : Text) :
    (unbracketed (Rules.linksOnly.normalizeLine line) = unbracketed line ↔
      ∀ n, ¬ LosesEmbed start (remove^[n] (Line.body line))) ∧
    (¬ SuggestsEmbed line →
      unbracketed (Rules.linksOnly.normalizeLine line) = unbracketed line) ∧
    (unbracketed (Rules.linksOnly.normalizeLine line) = unbracketed line →
      ∀ label, label <:+: line → (∀ c ∈ label, ¬ isBracket c) →
        label <:+: Rules.linksOnly.normalizeLine line) := by
  rw [unbracketed_normalizeLine_eq_iff_body, unbracketed_untilStable_eq_iff]
  refine ⟨Iff.rfl, fun h => ?_, fun h label hl hb => ?_⟩
  · exact not_losesEmbed_iterate fun hs => h (hs.of_isPrefix (Line.body_isPrefix line))
  · have hu := (unbracketed_normalizeLine_eq_iff_body line).2
      ((unbracketed_untilStable_eq_iff _).2 h)
    have hs := Rules.normalizeLine_sublist (r := Rules.linksOnly) (by decide) line
    exact LosesBrackets.isInfix ⟨hs, hu⟩ hb hl

/-- A label may end in `!` if its link is not followed by another at once. -/
theorem unbracketed_normalizeLine_eq_apart :
    let line : Text := ['[', '[', 'a', '!', ']', ']', ' ', '[', '[', 'b', ']', ']', '\n']
    ¬ SuggestsEmbed line ∧
      unbracketed (Rules.linksOnly.normalizeLine line) = unbracketed line ∧
      ['a', '!'] <:+: Rules.linksOnly.normalizeLine line := by
  intro line
  have hs : ¬ SuggestsEmbed line := by decide
  obtain ⟨-, hkeeps, hlabel⟩ := unbracketed_normalizeLine_eq_iff line
  exact ⟨hs, hkeeps hs, hlabel (hkeeps hs) ['a', '!'] (by decide) (by simp [isBracket])⟩

/-- A label is lost in a text without `![[`: the `!` before its marker is the end of another. -/
theorem exists_unbracketed_normalizeLine_ne :
    ¬ ∀ line : Text, ¬ ['!', '[', '['] <:+: line →
      unbracketed (Rules.linksOnly.normalizeLine line) = unbracketed line := fun h =>
  absurd (h ['[', '[', 'a', '!', ']', ']', '[', '[', 'b', ']', ']'] (by decide)) (by decide +kernel)

end Quire.Link
