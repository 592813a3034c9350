import Quire.Proofs.Text.Reader
import Quire.Toml.Quoted

/-!
# Quoted strings, read again

Quotes at the start of what is left of a string are too few to close it, unless the string ends with
them (`StartsOpen`), and what is escaped stands for itself. So each string is read as it was written
(`string_quoted`), whichever style it is written in.
-/

namespace Quire.Toml

open Reader

variable {s : Style} {c x : Char} {t u body : Text} {q fuel : Nat}

/-! ### The end of a string -/

/-- The quotes at the start of what is written for a text, after `q` of them, are fewer than close
the string, and a character that is no quote follows them, unless they are the whole text. -/
def StartsOpen (s : Style) (q : Nat) (body t : Text) : Prop :=
  ∃ j rest, body = List.replicate j s.quote ++ rest ∧ q + j < s.delimiter.length ∧
    (rest = [] ∧ t = body ∨ ∃ x rest', rest = x :: rest' ∧ x ≠ s.quote)

theorem length_delimiter (s : Style) : s.delimiter.length = if s.multiline then 3 else 1 :=
  List.length_replicate

theorem length_delimiter_pos (s : Style) : 0 < s.delimiter.length := by cases s <;> decide

theorem quote_of_escapes (hs : s.escapes = true) : s.quote = '"' := by
  cases s with
  | basic | multilineBasic => rfl
  | literal | multilineLiteral => cases hs

theorem takeWhile_replicate_append (j : Nat) (hx : x ≠ c) (u : Text) :
    (List.replicate j c ++ x :: u).takeWhile (· == c) = List.replicate j c := by
  refine (takeWhile_append_of_head? (fun d hd => ?_) (fun d hd => ?_)).1
  · rw [List.eq_of_mem_replicate hd]
    exact beq_self_eq_true c
  · rw [List.head?_cons, Option.mem_some_iff] at hd
    rw [← hd, beq_iff_eq]
    exact hx

theorem closing_quotes {j : Nat} (hj : j < s.delimiter.length) (hc : c ≠ s.quote) (u : Text) :
    closing s (List.replicate j s.quote ++ (s.delimiter ++ c :: u)) =
      some (List.replicate j s.quote, c :: u) := by
  have hquotes := takeWhile_replicate_append (j + s.delimiter.length) hc u
  rw [length_delimiter] at hj hquotes
  rw [← List.append_assoc, Style.delimiter, List.replicate_append_replicate, closing, hquotes,
    List.length_replicate]
  cases hm : s.multiline with
  | true =>
    rw [hm, if_pos rfl] at hj
    have hinside : min (j + 3 - 3) 2 = j := by omega
    rw [if_pos rfl, if_pos rfl, if_neg (by omega), hinside]
    exact congrArg (fun v => some (_, v)) (List.drop_left' List.length_replicate)
  | false =>
    rw [hm, if_neg Bool.false_ne_true] at hj
    obtain rfl : j = 0 := by omega
    rfl

theorem closing_quotes_cons {j : Nat} (hj : j < s.delimiter.length) (hx : x ≠ s.quote) (u : Text) :
    closing s (List.replicate j s.quote ++ x :: u) = none := by
  rw [length_delimiter] at hj
  rw [closing, takeWhile_replicate_append j hx, List.length_replicate]
  cases hm : s.multiline with
  | true =>
    rw [hm, if_pos rfl] at hj
    rw [if_pos rfl, if_pos hj]
  | false =>
    rw [hm, if_neg Bool.false_ne_true] at hj
    rw [if_neg Bool.false_ne_true, if_pos (by omega)]

namespace StartsOpen

theorem nil (hq : q < s.delimiter.length) : StartsOpen s q [] [] :=
  ⟨0, [], rfl, hq, .inl ⟨rfl, rfl⟩⟩

theorem cons (hq : q < s.delimiter.length) (hx : x ≠ s.quote) (body t : Text) :
    StartsOpen s q (x :: body) t :=
  ⟨0, x :: body, rfl, hq, .inr ⟨x, body, rfl, hx⟩⟩

theorem quote (h : StartsOpen s (q + 1) body t) :
    StartsOpen s q (s.quote :: body) (s.quote :: t) := by
  obtain ⟨j, rest, rfl, hj, hrest⟩ := h
  refine ⟨j + 1, rest, rfl, by omega, ?_⟩
  rcases hrest with ⟨rfl, ht⟩ | hrest
  · exact .inl ⟨rfl, congrArg (s.quote :: ·) ht⟩
  · exact .inr hrest

theorem closing_append (h : StartsOpen s q body t) (hc : c ≠ s.quote) (u : Text) :
    closing s (body ++ (s.delimiter ++ c :: u)) = none ∨
      closing s (body ++ (s.delimiter ++ c :: u)) = some (t, c :: u) := by
  obtain ⟨j, rest, rfl, hj, ⟨rfl, rfl⟩ | ⟨x, rest, rfl, hx⟩⟩ := h
  · right
    rw [List.append_nil]
    exact closing_quotes (by omega) hc u
  · left
    rw [List.append_assoc]
    exact closing_quotes_cons (by omega) hx _

end StartsOpen

/-! ### Characters and escapes -/

theorem stringRest_of_closing {found : Text × Text} (h : closing s (c :: t) = some found) :
    stringRest s (fuel + 1) (c :: t) = some found := by
  rw [stringRest.eq_def]
  dsimp only
  rw [h]

theorem stringRest_of_plain (hclose : closing s (c :: t) = none) (hslash : s.escapes → c ≠ '\\')
    (hplain : isControl c = true → s.multiline = true ∧ c = '\n') :
    stringRest s (fuel + 1) (c :: t) = prepend [c] (stringRest s fuel t) := by
  rw [stringRest.eq_def]
  dsimp only
  rw [hclose]
  dsimp only
  have h₁ : ¬ (s.escapes && c == '\\') = true := by
    rw [Bool.and_eq_true, beq_iff_eq]
    exact fun h => hslash h.1 h.2
  rw [if_neg h₁]
  by_cases hc : isControl c = true
  · obtain ⟨hm, rfl⟩ := hplain hc
    rw [hm]
    rfl
  · have h₂ : ¬ (s.multiline && c == '\n') = true := by
      rw [Bool.and_eq_true, beq_iff_eq]
      rintro ⟨-, rfl⟩
      exact hc rfl
    have h₃ : ¬ (s.multiline && c == '\r') = true := by
      rw [Bool.and_eq_true, beq_iff_eq]
      rintro ⟨-, rfl⟩
      exact hc rfl
    rw [if_neg h₂, if_neg h₃, if_neg hc]

theorem stringRest_of_escape {w : Text} (hs : s.escapes = true) (h : escape s t = some (w, u)) :
    stringRest s (fuel + 1) ('\\' :: t) = prepend w (stringRest s fuel u) := by
  have hquote : '\\' ≠ s.quote := by cases s <;> decide
  have hclose : closing s ('\\' :: t) = none :=
    closing_quotes_cons (j := 0) (length_delimiter_pos s) hquote t
  rw [stringRest.eq_def]
  dsimp only
  rw [hclose]
  dsimp only
  rw [hs, if_pos (by decide), h]

theorem lt_of_isControl (h : isControl c = true) : c.toNat < 128 := by
  simp only [isControl, Bool.or_eq_true, Bool.and_eq_true, decide_eq_true_eq, beq_iff_eq] at h
  omega

theorem fourDigits_of_lt : ∀ n < 128, (fourDigits n).length = 4 ∧
    Text.readNat? 16 (fourDigits n) = some n := by decide

theorem codePoint_fourDigits (h : isControl c = true) (u : Text) :
    codePoint 4 (fourDigits c.toNat ++ u) = some (c, u) := by
  obtain ⟨hlen, hread⟩ := fourDigits_of_lt c.toNat (lt_of_isControl h)
  have hvalid : c.toNat.isValidChar := c.valid
  rw [codePoint, if_neg (by rw [List.length_append]; omega), List.take_left' hlen, hread]
  dsimp only
  rw [if_pos hvalid, List.drop_left' hlen, Char.ofNat_toNat]

/-- A character is written between double quotes as an escape that stands for it, or as it is. -/
theorem escaped_cases (s : Style) (c : Char) :
    (∃ w, escaped s c = '\\' :: w ∧ ∀ u, escape s (w ++ u) = some ([c], u)) ∨
      escaped s c = [c] ∧ c ≠ '\\' ∧ (isControl c = true → s.multiline = true ∧ c = '\n') := by
  unfold escaped
  split
  · exact .inl ⟨_, rfl, fun _ => rfl⟩
  · exact .inl ⟨_, rfl, fun _ => rfl⟩
  · cases hm : s.multiline with
    | true => exact .inr ⟨rfl, by decide, fun _ => ⟨rfl, rfl⟩⟩
    | false => exact .inl ⟨_, rfl, fun _ => rfl⟩
  · exact .inl ⟨_, rfl, fun _ => rfl⟩
  · exact .inl ⟨_, rfl, fun _ => rfl⟩
  · exact .inl ⟨_, rfl, fun _ => rfl⟩
  · next hslash =>
    by_cases hc : isControl c = true
    · rw [if_pos hc]
      refine .inl ⟨_, rfl, fun u => ?_⟩
      show (codePoint 4 (fourDigits c.toNat ++ u)).map _ = _
      rw [codePoint_fourDigits hc]
      rfl
    · rw [if_neg hc]
      exact .inr ⟨rfl, hslash, fun h => absurd h hc⟩

theorem stringRest_escaped (hs : s.escapes = true) (hc : c ≠ '"') (u : Text) :
    stringRest s (fuel + 1) (escaped s c ++ u) = prepend [c] (stringRest s fuel u) := by
  obtain ⟨w, hw, hescape⟩ | ⟨hw, hslash, hplain⟩ := escaped_cases s c
  · rw [hw, List.cons_append, stringRest_of_escape hs (hescape u)]
  · have hquote : c ≠ s.quote := by rw [quote_of_escapes hs]; exact hc
    have hclose : closing s (c :: u) = none :=
      closing_quotes_cons (j := 0) (length_delimiter_pos s) hquote u
    rw [hw, List.singleton_append, stringRest_of_plain hclose (fun _ => hslash) hplain]

/-! ### Strings -/

theorem stringRest_delimiter (hc : c ≠ s.quote) (u : Text) :
    stringRest s (fuel + 1) (s.delimiter ++ c :: u) = some ([], c :: u) := by
  have hclose : closing s (s.delimiter ++ c :: u) = some ([], c :: u) :=
    closing_quotes (j := 0) (length_delimiter_pos s) hc u
  cases s <;> exact stringRest_of_closing hclose

/-- A character of a string that stands for itself, before others that are read. -/
theorem stringRest_of_startsOpen (hopen : StartsOpen s q (x :: body) (x :: t)) (hc : c ≠ s.quote)
    (hslash : s.escapes → x ≠ '\\')
    (hplain : isControl x = true → s.multiline = true ∧ x = '\n')
    (h : stringRest s fuel (body ++ (s.delimiter ++ c :: u)) = some (t, c :: u)) :
    stringRest s (fuel + 1) (x :: body ++ (s.delimiter ++ c :: u)) = some (x :: t, c :: u) := by
  rcases hopen.closing_append hc u with hclose | hclose
  · rw [List.cons_append] at hclose ⊢
    rw [stringRest_of_plain hclose hslash hplain, h]
    rfl
  · exact stringRest_of_closing hclose

theorem startsOpen_escapedFrom (hs : s.escapes = true) (hq : q < s.delimiter.length) (t : Text) :
    StartsOpen s q (escapedFrom s q t) t := by
  have hquote := quote_of_escapes hs
  induction t generalizing q with
  | nil => exact .nil hq
  | cons x t ih =>
    rw [escapedFrom]
    by_cases hx : x = '"'
    · rw [if_pos hx, hx]
      by_cases hlt : q + 1 < s.delimiter.length
      · rw [if_pos hlt, ← hquote]
        exact (ih hlt).quote
      · rw [if_neg hlt]
        exact .cons hq (by rw [hquote]; decide) _ _
    · rw [if_neg hx]
      obtain ⟨w, hw, -⟩ | ⟨hw, -⟩ := escaped_cases s x
      · rw [hw]
        exact .cons hq (by rw [hquote]; decide) _ _
      · rw [hw]
        exact .cons hq (by rw [hquote]; exact hx) _ _

theorem stringRest_escapedFrom (hs : s.escapes = true) (hc : c ≠ s.quote) (u : Text)
    (hq : q < s.delimiter.length) (hfuel : t.length < fuel) :
    stringRest s fuel (escapedFrom s q t ++ (s.delimiter ++ c :: u)) = some (t, c :: u) := by
  -- Each character of the text takes one step of the reader, however it is written.
  induction t generalizing q fuel with
  | nil =>
    obtain ⟨fuel, rfl⟩ := Nat.exists_eq_add_one.2 hfuel
    exact stringRest_delimiter hc u
  | cons x t ih =>
    rw [List.length_cons] at hfuel
    obtain ⟨fuel, rfl⟩ : ∃ k, fuel = k + 1 := Nat.exists_eq_add_one.2 (by omega)
    have hopen := startsOpen_escapedFrom hs hq (x :: t)
    have hzero := length_delimiter_pos s
    rw [escapedFrom] at hopen ⊢
    by_cases hx : x = '"'
    · rw [if_pos hx] at hopen ⊢
      by_cases hlt : q + 1 < s.delimiter.length
      · rw [if_pos hlt] at hopen ⊢
        subst hx
        exact stringRest_of_startsOpen hopen hc (fun _ => by decide) (fun h => absurd h (by decide))
          (ih hlt (by omega))
      · rw [if_neg hlt, hx, List.cons_append, List.cons_append, stringRest_of_escape hs rfl,
          ih hzero (by omega)]
        rfl
    · rw [if_neg hx, List.append_assoc, stringRest_escaped hs hx, ih hzero (by omega)]
      rfl

theorem le_longestRunFrom (c : Char) (longest current : Nat) (t : Text) :
    longest ≤ longestRunFrom c longest current t := by
  induction t generalizing longest current with
  | nil => exact le_refl longest
  | cons x t ih =>
    rw [longestRunFrom]
    split
    · exact le_trans (le_max_left _ _) (ih _ _)
    · exact ih _ _

theorem startsOpen_of_longestRunFrom {longest : Nat} (hq : q ≤ longest)
    (h : longestRunFrom s.quote longest q t < s.delimiter.length) : StartsOpen s q t t := by
  induction t generalizing longest q with
  | nil => exact .nil (lt_of_le_of_lt hq h)
  | cons x t ih =>
    by_cases hx : x = s.quote
    · rw [longestRunFrom, if_pos hx] at h
      rw [hx]
      exact (ih (le_max_right _ _) h).quote
    · have hle := le_longestRunFrom s.quote longest q (x :: t)
      exact .cons (by omega) hx t _

theorem stringRest_plain (hs : s.escapes = false)
    (hplain : ∀ x ∈ t, isControl x = true → s.multiline = true ∧ x = '\n') {longest : Nat}
    (hq : q ≤ longest) (hrun : longestRunFrom s.quote longest q t < s.delimiter.length)
    (hc : c ≠ s.quote) (u : Text) (hfuel : t.length < fuel) :
    stringRest s fuel (t ++ (s.delimiter ++ c :: u)) = some (t, c :: u) := by
  -- The run of quotes before what is left is the one that `longestRunFrom` is counting.
  induction t generalizing longest q fuel with
  | nil =>
    obtain ⟨fuel, rfl⟩ := Nat.exists_eq_add_one.2 hfuel
    exact stringRest_delimiter hc u
  | cons x t ih =>
    rw [List.length_cons] at hfuel
    obtain ⟨fuel, rfl⟩ : ∃ k, fuel = k + 1 := Nat.exists_eq_add_one.2 (by omega)
    obtain ⟨hx, ht⟩ := List.forall_mem_cons.1 hplain
    have hrest : stringRest s fuel (t ++ (s.delimiter ++ c :: u)) = some (t, c :: u) := by
      rw [longestRunFrom] at hrun
      split at hrun
      · exact ih ht (le_max_right _ _) hrun (by omega)
      · exact ih ht (Nat.zero_le _) hrun (by omega)
    have hslash : s.escapes = true → x ≠ '\\' := by
      rw [hs]
      exact fun h => absurd h Bool.false_ne_true
    exact stringRest_of_startsOpen (startsOpen_of_longestRunFrom hq hrun) hc hslash hx hrest

/-- What stands between the delimiters of a text that is written in a style. -/
def written (s : Style) (t : Text) : Text := if s.escapes then escapedFrom s 0 t else t

theorem of_isPlainIn (h : isPlainIn s t = true) :
    (∀ x ∈ t, isControl x = true → s.multiline = true ∧ x = '\n') ∧
      longestRun s.quote t < s.delimiter.length := by
  simp only [isPlainIn, Bool.and_eq_true, Bool.not_eq_true', List.any_eq_false, bne_iff_ne,
    Bool.or_eq_true, decide_eq_true_eq] at h
  obtain ⟨⟨⟨hctl, -⟩, hline⟩, hrun⟩ := h
  refine ⟨fun x hx hc => ?_, by rw [length_delimiter]; exact hrun⟩
  obtain rfl : x = '\n' := by
    by_contra hne
    exact hctl x hx ⟨hc, hne⟩
  refine ⟨hline.resolve_right fun hnot => ?_, rfl⟩
  rw [List.contains_eq_mem, decide_eq_false_iff_not] at hnot
  exact hnot hx

theorem length_escaped_pos (s : Style) (c : Char) : 0 < (escaped s c).length := by
  obtain ⟨w, hw, -⟩ | ⟨hw, -⟩ := escaped_cases s c <;> rw [hw] <;> exact Nat.succ_pos _

theorem length_le_length_escapedFrom (s : Style) (q : Nat) (t : Text) :
    t.length ≤ (escapedFrom s q t).length := by
  fun_induction escapedFrom s q t with
  | case1 => exact le_refl 0
  | case2 q t _ ih => simpa using ih
  | case3 q t _ ih =>
    simp only [List.length_cons]
    omega
  | case4 q c t _ ih =>
    have := length_escaped_pos s c
    rw [List.length_cons, List.length_append]
    omega

theorem length_le_length_written (s : Style) (t : Text) : t.length ≤ (written s t).length := by
  rw [written]
  split
  · exact length_le_length_escapedFrom s 0 t
  · exact le_refl _

theorem quotedIn_eq (s : Style) (t : Text) : quotedIn s t =
    s.delimiter ++ ((if s.multiline && t.contains '\n' then ['\n'] else []) ++
      (written s t ++ s.delimiter)) := by
  rw [quotedIn, written, List.append_assoc, List.append_assoc]

theorem newline_of_not_isControl (h : ¬ isControl x = true) (u : Text) :
    newline (x :: u) = none := by
  rw [newline, orElse_of_none (literal_of_ne _), literal_of_ne _]
  · rintro rfl
    exact h (by decide)
  · rintro rfl
    exact h (by decide)

theorem styleOf?_quote (hm : s.multiline = false) (hu : ∀ v, u ≠ s.quote :: s.quote :: v) :
    styleOf? (s.quote :: u) = some s := by
  unfold styleOf?
  cases s with
  | basic =>
    split
    · next h => exact absurd (List.cons.inj h).2 (hu _)
    · rfl
    · next h => exact absurd (List.cons.inj h).1 (by decide)
    · next h => exact absurd (List.cons.inj h).1 (by decide)
    · next h _ _ => exact absurd rfl (h u)
  | literal =>
    split
    · next h => exact absurd (List.cons.inj h).1 (by decide)
    · next h => exact absurd (List.cons.inj h).1 (by decide)
    · next h => exact absurd (List.cons.inj h).2 (hu _)
    · rfl
    · next h => exact absurd rfl (h u)
  | multilineBasic => cases hm
  | multilineLiteral => cases hm

/-! ### Texts in a style that can hold them -/

section Written

variable (h : s.escapes = true ∨ isPlainIn s t = true)
include h

theorem written_cases : s.escapes = true ∧ written s t = escapedFrom s 0 t ∨
    s.escapes = false ∧ isPlainIn s t = true ∧ written s t = t := by
  rw [written]
  cases hs : s.escapes with
  | true => exact .inl ⟨rfl, rfl⟩
  | false =>
    rw [hs] at h
    exact .inr ⟨rfl, h.resolve_left Bool.false_ne_true, rfl⟩

theorem startsOpen_written : StartsOpen s 0 (written s t) t := by
  have hq := length_delimiter_pos s
  obtain ⟨hs, hw⟩ | ⟨-, hplain, hw⟩ := written_cases h
  · rw [hw]
    exact startsOpen_escapedFrom hs hq t
  · rw [hw]
    exact startsOpen_of_longestRunFrom (le_refl 0) (of_isPlainIn hplain).2

theorem stringRest_written (hc : c ≠ s.quote) (u : Text) (hfuel : t.length < fuel) :
    stringRest s fuel (written s t ++ (s.delimiter ++ c :: u)) = some (t, c :: u) := by
  have hq := length_delimiter_pos s
  obtain ⟨hs, hw⟩ | ⟨hs, hplain, hw⟩ := written_cases h
  · rw [hw]
    exact stringRest_escapedFrom hs hc u hq hfuel
  · rw [hw]
    obtain ⟨hctl, hrun⟩ := of_isPlainIn hplain
    exact stringRest_plain hs hctl (le_refl 0) hrun hc u hfuel

theorem not_isControl_head_written (hline : '\n' ∉ t) {body : Text}
    (hx : written s t = x :: body) : ¬ isControl x = true := by
  obtain ⟨hs, hw⟩ | ⟨-, hplain, hw⟩ := written_cases h
  · cases t with
    | nil => cases hw.symm.trans hx
    | cons y t =>
      rw [hw, escapedFrom] at hx
      split at hx
      · split at hx <;> cases hx <;> decide
      · obtain ⟨w, hw, -⟩ | ⟨hw, -, hctl⟩ := escaped_cases s y
        · rw [hw] at hx
          cases hx
          decide
        · rw [hw] at hx
          cases hx
          exact fun hc => hline ((hctl hc).2 ▸ List.mem_cons_self)
  · rw [hw] at hx
    intro hc
    obtain ⟨-, rfl⟩ := (of_isPlainIn hplain).1 x (hx ▸ List.mem_cons_self) hc
    exact hline (hx ▸ List.mem_cons_self)

theorem styleOf?_quotedIn (hc : c ≠ s.quote) (u : Text) :
    styleOf? (quotedIn s t ++ c :: u) = some s := by
  cases hm : s.multiline with
  | true =>
    cases s with
    | basic | literal => cases hm
    | multilineBasic | multilineLiteral => rfl
  | false =>
    have hdelim : s.delimiter = [s.quote] := by rw [Style.delimiter, hm]; rfl
    have hwritten : ∀ v, written s t ++ [s.quote] ++ c :: u ≠ s.quote :: s.quote :: v := by
      obtain ⟨j, rest, hw, hj, hrest⟩ := startsOpen_written h
      rw [length_delimiter, hm, if_neg Bool.false_ne_true] at hj
      obtain rfl : j = 0 := by omega
      intro v hv
      rw [hw] at hv
      obtain ⟨rfl, -⟩ | ⟨x, rest, rfl, hx⟩ := hrest
      · exact hc (List.cons.inj (List.cons.inj hv).2).1
      · exact hx (List.cons.inj hv).1
    rw [quotedIn_eq, hm, hdelim]
    exact styleOf?_quote hm hwritten

/-- A text is read of a string in a style that can hold it. -/
theorem string_quotedIn (hc : c ≠ s.quote) (u : Text) :
    string (quotedIn s t ++ c :: u) = some (t, c :: u) := by
  have hfuel := length_le_length_written s t
  have hread : ∀ v, v = written s t ++ s.delimiter ++ c :: u →
      stringRest s (v.length + 1) v = some (t, c :: u) := by
    rintro v rfl
    rw [List.append_assoc]
    refine stringRest_written h hc u ?_
    rw [List.length_append]
    omega
  rw [string, styleOf?_quotedIn h hc u]
  dsimp only
  rw [quotedIn_eq, List.append_assoc, stringIn, bind_eq (literal_append _ _)]
  cases hm : s.multiline with
  | false => exact hread _ rfl
  | true =>
    by_cases hline : '\n' ∈ t
    · rw [List.contains_iff_mem.2 hline]
      exact (bind_eq (opt_of_some (r := newline) rfl)).trans (hread _ rfl)
    · have hnone : newline (written s t ++ s.delimiter ++ c :: u) = none := by
        cases hw : written s t with
        | nil => cases s <;> rfl
        | cons x body => exact newline_of_not_isControl (not_isControl_head_written h hline hw) _
      rw [Bool.eq_false_iff.2 (mt List.contains_iff_mem.1 hline)]
      exact (bind_eq (opt_of_none hnone)).trans (hread _ rfl)

end Written

/-- A text is read as it was written. -/
theorem string_quoted (t : Text) (hc : c ≠ '"' ∧ c ≠ '\'') (u : Text) :
    string (quoted t ++ c :: u) = some (t, c :: u) := by
  have hstyle : (styleFor t).escapes = true ∨ isPlainIn (styleFor t) t = true := by
    unfold styleFor
    split
    · next s hs => exact .inr (List.find?_some (p := (isPlainIn · t)) hs)
    · split <;> exact .inl rfl
  refine string_quotedIn hstyle ?_ u
  cases styleFor t
  · exact hc.1
  · exact hc.2
  · exact hc.1
  · exact hc.2

example : quoted ['a', '"', 'b', '\'', '\n', '\\', '\x00'] =
    "\"\"\"\na\"b'\n\\\\\\u0000\"\"\"".toList := by decide

end Quire.Toml
