import Quire.Proofs.Text.Decimal
import Quire.Proofs.Text.Reader
import Quire.Toml.Number

/-!
# Written integers, read again

An integer is no date, no time and no float if what follows it goes on with none of them: it is read
as the integer that was written (`number_signedDecimal`).
-/

namespace Quire.Toml

open Reader

variable {c : Char} {t u : Text} {n : Nat} {i : Int}

/-- The characters that stand behind a value in what is written. -/
def IsStop (c : Char) : Prop := c = '\n' ∨ c = ',' ∨ c = ']'

/-! ### Digits -/

theorem isDigit_of_mem_decimal (h : c ∈ Text.decimal n) : isDigit c = true := by
  have hc := Text.isDigit_of_mem_decimal h
  simpa [isDigit, Char.isDigit, Char.le_def] using hc

theorem IsStop.not_isDigit (hc : IsStop c) : ¬ isDigit c = true := by
  rcases hc with rfl | rfl | rfl <;> decide

theorem optUnderscore_of_ne {p : Char → Bool} (h : c ≠ '_') (t : Text) :
    (do let _ ← opt (literal ['_']); char p : Reader Char) (c :: t) = char p (c :: t) :=
  bind_eq (opt_of_none (literal_of_ne h))

theorem moreDigits_append {w : Text} (hw : ∀ d ∈ w, isDigit d = true) (hc : IsStop c) (u : Text) :
    moreDigits isDigit (w ++ c :: u) = some (w, c :: u) := by
  have hmany : many (do let _ ← opt (literal ['_']); char isDigit : Reader Char)
      (w.flatMap (fun d => [d]) ++ c :: u) = some (w, c :: u) := by
    refine many_flatMap (fun _ _ => List.cons_ne_nil _ _) (fun d hd rest => ?_) ?_
    · have hne : d ≠ '_' := by
        rintro rfl
        exact absurd (hw _ hd) (by decide)
      rw [List.singleton_append, optUnderscore_of_ne hne, char_of_pos (hw d hd)]
    · have hne : c ≠ '_' := by rcases hc with rfl | rfl | rfl <;> decide
      rw [optUnderscore_of_ne hne, char_of_neg hc.not_isDigit]
  rw [List.flatMap_singleton'] at hmany
  rw [moreDigits, bind_eq hmany]
  rcases hc with rfl | rfl | rfl <;> rfl

theorem exists_decimal_eq_cons (n : Nat) : ∃ d w, Text.decimal n = d :: w ∧
    isDigit d = true ∧ (∀ e ∈ w, isDigit e = true) ∧ (n ≠ 0 → d ≠ '0') := by
  obtain ⟨d, w, hdw⟩ := List.exists_cons_of_ne_nil (Text.decimal_ne_nil n)
  have hdigits : ∀ e ∈ d :: w, isDigit e = true := fun e he => isDigit_of_mem_decimal (hdw ▸ he)
  obtain ⟨hd, hw⟩ := List.forall_mem_cons.1 hdigits
  refine ⟨d, w, hdw, hd, hw, ?_⟩
  rintro hn rfl
  exact Text.head?_decimal hn (by rw [hdw]; rfl)

theorem plainDigits_decimal (n : Nat) (hc : IsStop c) (u : Text) :
    plainDigits (Text.decimal n ++ c :: u) = some (Text.decimal n, c :: u) := by
  by_cases hn : n = 0
  · subst hn
    rfl
  · obtain ⟨d, w, hdw, hd, hw, hzero⟩ := exists_decimal_eq_cons n
    rw [hdw, List.cons_append, plainDigits,
      orElse_of_none (bind_of_none (literal_of_ne (hzero hn))), digits, bind_eq (char_of_pos hd),
      bind_eq (moreDigits_append hw hc u)]
    rfl

/-! ### Integers -/

theorem sign_signedDecimal (i : Int) (u : Text) :
    sign (Text.signedDecimal i ++ u) = some (decide (i < 0), Text.decimal i.natAbs ++ u) := by
  cases i with
  | ofNat n =>
    obtain ⟨d, w, hdw, hd, -, -⟩ := exists_decimal_eq_cons n
    have hsign : ¬ (d == '+' || d == '-') = true := by
      simp only [Bool.or_eq_true, beq_iff_eq, not_or]
      constructor <;> rintro rfl <;> exact absurd hd (by decide)
    show sign (Text.decimal n ++ u) = some (_, Text.decimal n ++ u)
    rw [hdw, List.cons_append, sign, bind_eq (opt_of_none (char_of_neg hsign))]
    rfl
  | negSucc n =>
    rw [Text.signedDecimal, List.cons_append, sign, bind_eq (opt_of_some (char_of_pos rfl)),
      decide_eq_true (Int.negSucc_lt_zero n)]
    rfl

theorem decimalInteger_signedDecimal (i : Int) (hc : IsStop c) (u : Text) :
    decimalInteger (Text.signedDecimal i ++ c :: u) = some (i, c :: u) := by
  have hread : ((Text.readNat? 10 (Text.decimal i.natAbs) : Option Nat) : Reader Nat) (c :: u) =
      some (i.natAbs, c :: u) := by
    rw [Text.readNat?_decimal]
    rfl
  rw [decimalInteger, bind_eq (sign_signedDecimal i _), bind_eq (plainDigits_decimal _ hc u),
    bind_eq hread]
  refine congrArg (fun j => some (j, c :: u)) ?_
  by_cases hi : i < 0
  · rw [decide_eq_true hi, if_pos rfl]
    omega
  · rw [decide_eq_false hi, if_neg Bool.false_ne_true]
    omega

theorem exists_signedDecimal_eq_cons (i : Int) :
    ∃ d w, Text.signedDecimal i = d :: w ∧ (d = '-' ∨ isDigit d = true) := by
  cases i with
  | ofNat n =>
    obtain ⟨d, w, hdw, hd, -, -⟩ := exists_decimal_eq_cons n
    exact ⟨d, w, hdw, .inr hd⟩
  | negSucc n => exact ⟨_, _, rfl, .inl rfl⟩

theorem eq_of_signedDecimal_append {x : Char} {v : Text}
    (h : Text.signedDecimal i ++ c :: u = '0' :: x :: v) : x = c := by
  cases i with
  | ofNat n =>
    by_cases hn : n = 0
    · subst hn
      exact (List.cons.inj (List.cons.inj h).2).1.symm
    · obtain ⟨d, w, hdw, -, -, hzero⟩ := exists_decimal_eq_cons n
      change Text.decimal n ++ c :: u = _ at h
      rw [hdw] at h
      exact absurd (List.cons.inj h).1 (hzero hn)
  | negSucc n => exact absurd (List.cons.inj h).1 (by decide)

theorem integer_signedDecimal (n : Int64) (hc : IsStop c) (u : Text) :
    integer (Text.signedDecimal n.toInt ++ c :: u) = some (n, c :: u) := by
  -- The letter of another base would have to be what stands behind the number.
  have hbase : ∀ x v, Text.signedDecimal n.toInt ++ c :: u = '0' :: x :: v →
      x ≠ 'x' ∧ x ≠ 'o' ∧ x ≠ 'b' := by
    intro x v h
    rw [eq_of_signedDecimal_append h]
    rcases hc with rfl | rfl | rfl <;> decide
  unfold integer
  split
  · next h => exact absurd rfl (hbase _ _ h).1
  · next h => exact absurd rfl (hbase _ _ h).2.1
  · next h => exact absurd rfl (hbase _ _ h).2.2
  · dsimp only
    rw [decimalInteger_signedDecimal _ hc]
    show (Text.int64? n.toInt).map _ = _
    rw [Text.int64?_toInt]
    rfl

/-! ### Dates, times and floats -/

theorem field_of_not_isDigit {count low high : Nat} (h : ¬ isDigit c = true) (t : Text) :
    field (count + 1) low high (c :: t) = none := by
  rw [field, if_neg]
  rw [List.take_succ_cons, List.all_cons, Bool.eq_false_iff.2 h, Bool.false_and, Bool.and_false]
  exact Bool.false_ne_true

theorem dateTime_of_not_isDigit (h : ¬ isDigit c = true) (t : Text) : dateTime (c :: t) = none := by
  have hdate : date (c :: t) = none := bind_of_none (field_of_not_isDigit h t)
  have htime : time (c :: t) = none := bind_of_none (field_of_not_isDigit h t)
  rw [dateTime, orElse_of_none (bind_of_none hdate), htime]

theorem of_field_eq_some {count low high k : Nat} {rest : Text}
    (h : field count low high t = some (k, rest)) :
    rest = t.drop count ∧ ∀ d ∈ t.take count, isDigit d = true := by
  unfold field at h
  split at h
  · next hdigits =>
    rw [Bool.and_eq_true, List.all_eq_true] at hdigits
    split at h
    · split at h
      · cases h
        exact ⟨rfl, hdigits.2⟩
      · cases h
    · cases h
  · cases h

/-- A field that is read of a number has either another digit behind it or what stands behind the
number. -/
theorem literal_of_field_eq_some {count low high k : Nat} {w rest : Text} {s : Char}
    (hw : ∀ d ∈ w, isDigit d = true) (hc : IsStop c) (hs : ¬ isDigit s = true) (hsc : c ≠ s)
    (h : field count low high (w ++ c :: u) = some (k, rest)) : literal [s] rest = none := by
  obtain ⟨hrest, hdigits⟩ := of_field_eq_some h
  have hcount : count ≤ w.length := by
    by_contra hlt
    refine hc.not_isDigit (hdigits c ?_)
    obtain ⟨m, rfl⟩ : ∃ m, count = w.length + (m + 1) := ⟨count - w.length - 1, by omega⟩
    rw [List.take_length_add_append, List.take_succ_cons]
    exact List.mem_append_right w List.mem_cons_self
  rw [hrest, List.drop_append_of_le_length hcount]
  cases hdrop : w.drop count with
  | nil => exact literal_of_ne hsc
  | cons d v =>
    refine literal_of_ne ?_
    rintro rfl
    exact hs (hw d (List.mem_of_mem_drop (hdrop ▸ List.mem_cons_self)))

theorem dateTime_signedDecimal (i : Int) (hc : IsStop c) (u : Text) :
    dateTime (Text.signedDecimal i ++ c :: u) = none := by
  have hstop : c ≠ '-' ∧ c ≠ ':' := by rcases hc with rfl | rfl | rfl <;> decide
  cases i with
  | ofNat n =>
    have hw : ∀ d ∈ Text.decimal n, isDigit d = true := fun d => isDigit_of_mem_decimal
    have hdate : date (Text.decimal n ++ c :: u) = none :=
      bind_of_forall fun k rest h =>
        bind_of_none (literal_of_field_eq_some hw hc (by decide) hstop.1 h)
    have htime : time (Text.decimal n ++ c :: u) = none :=
      bind_of_forall fun k rest h =>
        bind_of_none (literal_of_field_eq_some hw hc (by decide) hstop.2 h)
    exact (orElse_of_none (bind_of_none hdate)).trans htime
  | negSucc n => exact dateTime_of_not_isDigit (by decide) _

theorem float_signedDecimal (i : Int) (hc : IsStop c) (u : Text) :
    float (Text.signedDecimal i ++ c :: u) = none := by
  have hstop : c ≠ '.' ∧ ¬ (c == 'e' || c == 'E') = true := by
    rcases hc with rfl | rfl | rfl <;> decide
  have hfraction : fraction (c :: u) = none := bind_of_none (literal_of_ne hstop.1)
  have hexponent : exponent (c :: u) = none := bind_of_none (char_of_neg hstop.2)
  have hspecial : (literal "inf".toList <|> literal "nan".toList : Reader Unit)
      (Text.decimal i.natAbs ++ c :: u) = none := by
    obtain ⟨d, w, hdw, hd, -, -⟩ := exists_decimal_eq_cons i.natAbs
    have hne : d ≠ 'i' ∧ d ≠ 'n' := by
      constructor <;> rintro rfl <;> exact absurd hd (by decide)
    rw [hdw]
    exact (orElse_of_none (literal_of_ne hne.1)).trans (literal_of_ne hne.2)
  have hdecimal : decimalFloat (Text.signedDecimal i ++ c :: u) = none := by
    rw [decimalFloat, bind_eq (sign_signedDecimal i _), bind_eq (plainDigits_decimal _ hc u),
      bind_eq (opt_of_none hfraction)]
    exact bind_of_none (bind_of_none hexponent)
  rw [float, orElse_of_none hdecimal, specialFloat, bind_eq (sign_signedDecimal i _), hspecial]

theorem number_signedDecimal (n : Int64) (hc : IsStop c) (u : Text) :
    number (Text.signedDecimal n.toInt ++ c :: u) =
      some (.scalar (.integer n), c :: u) := by
  rw [number, orElse_of_none (bind_of_none (dateTime_signedDecimal _ hc u)),
    orElse_of_none (bind_of_none (float_signedDecimal _ hc u)),
    bind_eq (integer_signedDecimal n hc u)]
  rfl

end Quire.Toml
