import Quire.Proofs.Cleaning.Loop
import Quire.Proofs.Cleaning.Pattern.Pass
import Quire.Proofs.Runs
import Quire.Proofs.Text.Collapse

/-!
# Words are normalized apart

URLs and addresses have no white space, so what is dropped on one side of a white space character
does not depend on the other side (`Pattern.Removal.append_cons`). A pass of this kind is
`Wordwise`. Passes in a row are wordwise, too, and so is the loop, although the words of a line need
different numbers of passes: after as many as the line has characters all of them are stable
(`Wordwise.untilStable`). A wordwise pass works on each word by itself: `Wordwise.eq_flatMap_runs`
with the white space between the words, `Wordwise.words` without it.
-/

namespace Quire

/-! ### White space between matches -/

namespace Pattern

variable {M : Text → Prop} {p : Pattern} {s s' t t' w : Text} {c : Char}

theorem prefix_append_cons_iff (hc : c ∉ w) : w <+: s ++ c :: t ↔ w <+: s := by
  refine ⟨fun h => ?_, fun h => h.trans (List.prefix_append s _)⟩
  rcases List.prefix_or_prefix_of_prefix h (List.prefix_append s (c :: t)) with h' | ⟨v, rfl⟩
  · exact h'
  · rcases List.prefix_cons_iff.1 ((List.prefix_append_right_inj s).1 h) with rfl | ⟨u, rfl, -⟩
    · rw [List.append_nil]
    · exact absurd (by simp) hc

theorem begins_append_cons_iff (hM : ∀ w, M w → c ∉ w) : Begins M (s ++ c :: t) ↔ Begins M s :=
  exists_congr fun w => and_congr_left fun hw => prefix_append_cons_iff (hM w hw)

/-- What is dropped before a character that no match contains does not depend on what follows it,
and neither does what is dropped after it depend on what stands before. -/
theorem Removal.append_cons (hM : ∀ w, M w → c ∉ w) (hnil : ¬ M []) (hs : Removal M s s')
    (ht : Removal M t t') : Removal M (s ++ c :: t) (s' ++ c :: t') := by
  induction hs with
  | nil =>
    refine .keep (fun hb => ?_) ht
    obtain ⟨w, hw, hMw⟩ := (begins_append_cons_iff (s := []) hM).1 hb
    rw [List.prefix_nil.1 hw] at hMw
    exact hnil hMw
  | @keep d s _ none _ ih =>
    have hb : Begins M (d :: s ++ c :: t) ↔ Begins M (d :: s) := begins_append_cons_iff hM
    exact .keep (mt hb.1 none) ih
  | drop split found longest _ ih =>
    refine .drop (by rw [split, List.append_assoc]) found (fun w hw hMw => ?_) ih
    exact longest w ((prefix_append_cons_iff (hM w hMw)).1 hw) hMw

end Pattern

namespace Rules

open Pattern

variable {pass : Text → Text} {r : Rules} {b e s t w : Text} {c : Char}

/-- What a pass does on one side of a white space character, which it keeps, does not depend on the
other side. -/
structure Wordwise (pass : Text → Text) : Prop where
  nil : pass [] = []
  cut : ∀ s c t, isBlank c → pass (s ++ c :: t) = pass s ++ c :: pass t

theorem wordwise_removeAll {M : Text → Prop} {p : Pattern} (h : p.FindsLongest M)
    (hM : ∀ w, M w → Text.IsSolid w) : Wordwise p.removeAll where
  nil := rfl
  cut s c t hc := by
    have hnil : ¬ M [] := fun h => (hM [] h).ne_nil rfl
    apply (removeAll_eq_iff h hnil).2
    refine (removal_removeAll h s).append_cons (fun w hw hcw => ?_) hnil (removal_removeAll h t)
    exact (hM w hw).visible c hcw hc

/-! ### Passes -/

theorem Wordwise.rule (h : Wordwise pass) (on : Bool) :
    Wordwise fun t => if on then pass t else t := by
  cases on
  · exact ⟨rfl, fun _ _ _ _ => rfl⟩
  · exact h

theorem Wordwise.comp {pass' : Text → Text} (h : Wordwise pass) (h' : Wordwise pass') :
    Wordwise (pass ∘ pass') where
  nil := by rw [Function.comp_apply, h'.nil, h.nil]
  cut s c t hc := by simp only [Function.comp_apply, h'.cut s c t hc, h.cut _ c _ hc]

/-- Without links a pass works on each word by itself. -/
theorem wordwise_removeTokens (hr : ¬ r.removeLinks) : Wordwise r.removeTokens := by
  have hu := (wordwise_removeAll Url.findsLongest fun _ => Url.Matches.isSolid).rule r.removeUrls
  have he := (wordwise_removeAll Email.findsLongest fun _ => Email.Matches.isSolid).rule
    r.removeEmails
  have hpass : r.removeTokens = (fun t => if r.removeEmails then Email.remove t else t) ∘
      fun t => if r.removeUrls then Url.remove t else t := by
    funext t
    unfold removeTokens
    rw [if_neg hr]
    rfl
  rw [hpass]
  exact he.comp hu

theorem Wordwise.iterate (h : Wordwise pass) (n : Nat) : Wordwise pass^[n] := by
  induction n with
  | zero => exact ⟨rfl, fun _ _ _ _ => rfl⟩
  | succ n ih => exact ih.comp h

/-- The loop is as many passes as the text has characters, or more. -/
theorem untilStable_eq_iterate (hs : ∀ t, (pass t).Sublist t) {n : Nat} (hn : t.length ≤ n) :
    untilStable pass t = pass^[n] t := by
  obtain ⟨m, hm, hends⟩ := exists_endsAt hs t
  exact (hends.iterate_eq (hm.trans hn)).symm

/-- Whichever side of the white space is stable first, more passes leave it as it is. -/
theorem Wordwise.untilStable (h : Wordwise pass) (hs : ∀ t, (pass t).Sublist t) :
    Wordwise (untilStable pass) where
  nil := untilStable_eq_self h.nil
  cut s c t hc := by
    have hlen : (s ++ c :: t).length = s.length + (t.length + 1) := by simp
    rw [untilStable_eq_iterate hs (Nat.le_refl (s ++ c :: t).length),
      (h.iterate _).cut s c t hc, ← untilStable_eq_iterate hs (t := s) (by omega),
      ← untilStable_eq_iterate hs (t := t) (by omega)]

/-! ### Words -/

theorem Wordwise.append_blank (h : Wordwise pass) (hb : ∀ c ∈ b, isBlank c) (t : Text) :
    pass (b ++ t) = b ++ pass t := by
  induction b with
  | nil => rfl
  | cons c b ih =>
    obtain ⟨hc, hb⟩ := List.forall_mem_cons.1 hb
    have hcut := h.cut [] c (b ++ t) hc
    rw [h.nil] at hcut
    rw [List.cons_append, ← List.nil_append (c :: (b ++ t)), hcut, ih hb]
    rfl

theorem Wordwise.append (h : Wordwise pass) (s : Text) (ht : ∀ c ∈ t.head?, isBlank c) :
    pass (s ++ t) = pass s ++ pass t := by
  cases t with
  | nil => rw [h.nil, List.append_nil, List.append_nil]
  | cons c t =>
    have hc := ht c rfl
    have hcons : pass (c :: t) = c :: pass t := h.append_blank (List.forall_mem_singleton.2 hc) t
    rw [h.cut s c t hc, hcons]

theorem Wordwise.flatten (h : Wordwise pass) {rs : List Text} (hrs : AreRuns isBlank rs) :
    pass rs.flatten = rs.flatMap fun run => if run.all isBlank then run else pass run := by
  induction rs with
  | nil => exact h.nil
  | cons run rs ih =>
    rw [List.flatten_cons, List.flatMap_cons, ← ih hrs.tail]
    rcases hrs.all_cases List.mem_cons_self with ⟨hall, hrun⟩ | ⟨hall, hrun⟩
    · rw [if_pos hall, h.append_blank hrun]
    · rw [if_neg (ne_true_of_eq_false hall), h.append run (hrs.head?_flatten hrun)]

/-- A wordwise pass keeps the white space of a text and works on each word by itself. -/
theorem Wordwise.eq_flatMap_runs (h : Wordwise pass) (t : Text) :
    pass t = (runs isBlank t).flatMap fun run => if run.all isBlank then run else pass run := by
  have := h.flatten (areRuns_runs isBlank t)
  rwa [flatten_runs] at this

/-- The words that are left are what is left of the words. -/
theorem Wordwise.words (h : Wordwise pass) (hs : ∀ t, (pass t).Sublist t) (t : Text) :
    Text.words (pass t) = ((Text.words t).map pass).filter (!·.isEmpty) := by
  induction t using Text.cutInduction with
  | visible t ht =>
    have hv : ∀ c ∈ pass t, ¬ isBlank c := fun c hc => ht c ((hs t).subset hc)
    rcases Text.words_of_visible ht with ⟨rfl, hw⟩ | ⟨-, hw⟩ <;> rw [hw]
    · rw [h.nil]
      rfl
    · rcases Text.words_of_visible hv with ⟨hp, hw⟩ | ⟨hp, hw⟩ <;> rw [hw]
      · simp [hp]
      · simp [hp.ne_nil]
  | cut s c t hc ihs iht =>
    rw [h.cut s c t hc, Text.words_append_cons hc, Text.words_append_cons hc, List.map_append,
      List.filter_append, ihs, iht]

/-! ### Lines -/

/-- A word is a line of its own, and there is nothing in it to collapse. -/
theorem normalizeLine_of_isSolid (r : Rules) (h : Text.IsSolid w) :
    r.normalizeLine w = untilStable r.removeTokens w := by
  have hbreak : Line.Unbroken w :=
    Line.unbroken_of_spaces fun c hc hb => absurd hb (h.visible c hc)
  have hs := hbreak.splitTerminator_append .none
  have hv : ∀ c ∈ untilStable r.removeTokens w, ¬ isBlank c := fun c hc =>
    h.visible c ((untilStable_sublist r.removeTokens_sublist w).subset hc)
  rw [List.append_nil] at hs
  simp only [normalizeLine, hs, List.append_nil, normalizeBody,
    Text.collapse_eq_self (Text.isCollapsed_of_visible hv), ite_self]

theorem isSolid_of_mem_runs {run : Text} (h : run ∈ runs isBlank t) (hrun : ¬ run.all isBlank) :
    Text.IsSolid run := by
  have hruns := areRuns_runs isBlank t
  exact ⟨hruns.filled run h, fun c hc hb => hrun ((hruns.all_eq h hc).trans hb)⟩

theorem normalizeLine_append (r : Rules) (hb : Line.Unbroken b) (he : Line.IsTerminator e) :
    r.normalizeLine (b ++ e) = r.normalizeBody b ++ e := by
  rw [normalizeLine, hb.splitTerminator_append he]

/-- With the removal of links off, a line is normalized word by word. If white space is not
collapsed, its runs stay as they are and each word is what it is when normalized on its own; if it
is, the words that are not empty then follow each other with single spaces between them. -/
theorem normalizeLine_wordwise (hr : ¬ r.removeLinks) (hb : Line.Unbroken b)
    (he : Line.IsTerminator e) :
    (¬ r.collapseBlanks → r.normalizeLine (b ++ e) =
      ((runs isBlank b).flatMap fun run =>
        if run.all isBlank then run else r.normalizeLine run) ++ e) ∧
    (r.collapseBlanks → r.normalizeLine (b ++ e) =
      Text.joinWith [' ']
        ((((runs isBlank b).filter (!·.all isBlank)).map r.normalizeLine).filter (!·.isEmpty)) ++
        e) := by
  have hloop := (wordwise_removeTokens hr).untilStable r.removeTokens_sublist
  rw [normalizeLine_append r hb he]
  constructor
  · intro hcol
    have hbody : r.normalizeBody b = untilStable r.removeTokens b := by
      rw [normalizeBody, if_neg hcol]
    rw [hbody, hloop.eq_flatMap_runs b]
    congr 1
    refine List.flatMap_congr fun run hrun => ?_
    split
    · rfl
    · next hall => exact (normalizeLine_of_isSolid r (isSolid_of_mem_runs hrun hall)).symm
  · intro hcol
    have hbody : r.normalizeBody b = Text.collapse (untilStable r.removeTokens b) := by
      rw [normalizeBody, if_pos hcol]
    have hwords : Text.words b = (runs isBlank b).filter (!·.all isBlank) :=
      filter_splitOnP isBlank b
    rw [hbody, Text.collapse_eq_joinWith, hloop.words (untilStable_sublist r.removeTokens_sublist),
      hwords]
    congr 3
    refine List.map_congr_left fun run hrun => ?_
    obtain ⟨hrun, hall⟩ := List.mem_filter.1 hrun
    exact (normalizeLine_of_isSolid r (isSolid_of_mem_runs hrun (by simpa using hall))).symm

/-- The first word becomes a URL when its address is dropped, and is gone after a second pass; the
next one needs a single pass, and the last none. -/
theorem normalizeLine_wordwise_passes :
    let r (on : Bool) : Rules :=
      { removeLinks := false, removeUrls := true, removeEmails := true, collapseBlanks := on }
    let b : Text := ['h', 't', 't', 'p', ':', '/', 'a', '@', 'b', '.', 'i', 'o', '/', 'c', '\u00A0',
      '\u3000', 'd', '@', 'e', '.', 'i', 'o', '!', ' ', 'f']
    let e : Text := ['\r', '\n']
    (∀ on, ¬ (r on).removeLinks) ∧ Line.Unbroken b ∧ Line.IsTerminator e ∧
      (¬ (r false).collapseBlanks ∧
        (r false).normalizeLine (b ++ e) = ['\u00A0', '\u3000', '!', ' ', 'f', '\r', '\n']) ∧
      (r true).collapseBlanks ∧ (r true).normalizeLine (b ++ e) = ['!', ' ', 'f', '\r', '\n'] := by
  intro r b e
  have hr : ∀ on, ¬ (r on).removeLinks := fun _ => Bool.false_ne_true
  have hb : Line.Unbroken b := ⟨by decide, by decide⟩
  have he : Line.IsTerminator e := .crlf
  have hoff : ¬ (r false).collapseBlanks := by decide
  have hon : (r true).collapseBlanks := by decide
  refine ⟨hr, hb, he, ⟨hoff, ?_⟩, hon, ?_⟩
  · exact ((normalizeLine_wordwise (hr false) hb he).1 hoff).trans (by decide +kernel)
  · exact ((normalizeLine_wordwise (hr true) hb he).2 hon).trans (by decide +kernel)

end Rules

end Quire
