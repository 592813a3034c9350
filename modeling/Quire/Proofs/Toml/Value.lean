import Quire.Proofs.Toml.Number
import Quire.Proofs.Toml.Quoted
import Quire.Toml.Document
import Quire.Toml.Printer

/-!
# Written values, read again

A scalar is read before what stands behind it (`scalar_print`). A list may be on one line or have a
line for each of its items, with a comma behind the last one; in both forms it is read as it was
written, and so is each setting (`value_print`).
-/

namespace Quire.Toml

open Reader

variable {c x : Char} {t u : Text} {depth : Nat}

/-! ### Scalars -/

theorem IsStop.ne_quote (hc : IsStop c) : c ≠ '"' ∧ c ≠ '\'' := by
  rcases hc with rfl | rfl | rfl <;> decide

theorem string_of_ne (h : x ≠ '"' ∧ x ≠ '\'') (u : Text) : string (x :: u) = none := by
  have hstyle : styleOf? (x :: u) = none := by
    unfold styleOf?
    split
    · next heq => exact absurd (List.cons.inj heq).1 h.1
    · next heq => exact absurd (List.cons.inj heq).1 h.1
    · next heq => exact absurd (List.cons.inj heq).1 h.2
    · next heq => exact absurd (List.cons.inj heq).1 h.2
    · rfl
  rw [string, hstyle]

/-- A character with which nothing begins that may stand around the items of a list. -/
def IsVisible (x : Char) : Prop := x ∉ ['\n', '\r', '#', ' ', '\t']

instance (x : Char) : Decidable (IsVisible x) :=
  inferInstanceAs (Decidable (x ∉ ['\n', '\r', '#', ' ', '\t']))

theorem isVisible_of_pos {p : Char → Bool} (hx : p x = true)
    (hp : ['\n', '\r', '#', ' ', '\t'].any p = false) : IsVisible x :=
  fun hmem => List.any_eq_false.1 hp x hmem hx

theorem IsVisible.ne (hx : IsVisible x) {y : Char} (hy : y ∈ ['\n', '\r', '#', ' ', '\t']) :
    x ≠ y := fun h => hx (h ▸ hy)

theorem IsVisible.not_isSpace (hx : IsVisible x) : ¬ isSpace x = true := by
  rw [isSpace, Bool.or_eq_true, beq_iff_eq, beq_iff_eq, not_or]
  exact ⟨hx.ne (by decide), hx.ne (by decide)⟩

theorem Scalar.exists_print_eq_cons (v : Scalar) : ∃ x w, v.print = x :: w ∧ IsVisible x := by
  cases v with
  | text t =>
    show ∃ x w, quotedIn (styleFor t) t = x :: w ∧ _
    rw [quotedIn_eq]
    cases styleFor t <;> exact ⟨_, _, rfl, by decide⟩
  | integer n =>
    obtain ⟨x, w, hxw, hx⟩ := exists_signedDecimal_eq_cons n.toInt
    refine ⟨x, w, hxw, ?_⟩
    rcases hx with rfl | hx
    · decide
    · exact isVisible_of_pos hx rfl
  | boolean b => cases b <;> exact ⟨_, _, rfl, by decide⟩

theorem scalar_print (v : Scalar) (hc : IsStop c) (u : Text) :
    scalar (v.print ++ c :: u) = some (.scalar v, c :: u) := by
  cases v with
  | text t => exact orElse_of_some (bind_eq (string_quoted t hc.ne_quote u))
  | integer n =>
    obtain ⟨x, w, hxw, hx⟩ := exists_signedDecimal_eq_cons n.toInt
    have hne : (x ≠ '"' ∧ x ≠ '\'') ∧ x ≠ 't' ∧ x ≠ 'f' := by
      refine ⟨⟨?_, ?_⟩, ?_, ?_⟩ <;> rintro rfl <;> revert hx <;> decide
    have hnumber := number_signedDecimal n hc u
    show scalar (Text.signedDecimal n.toInt ++ c :: u) = _
    rw [hxw, List.cons_append] at hnumber ⊢
    have htrue : literal "true".toList (x :: (w ++ c :: u)) = none := literal_of_ne hne.2.1
    have hfalse : literal "false".toList (x :: (w ++ c :: u)) = none := literal_of_ne hne.2.2
    rw [scalar, orElse_of_none (bind_of_none (string_of_ne hne.1 _)),
      orElse_of_none (bind_of_none htrue), orElse_of_none (bind_of_none hfalse), hnumber]
  | boolean b =>
    cases b with
    | false => rfl
    | true => rfl

theorem number_of_bracket (hx : x = '[' ∨ x = ']') (u : Text) : number (x :: u) = none := by
  have hdigit : ¬ isDigit x = true := by rcases hx with rfl | rfl <;> decide
  rw [number, orElse_of_none (bind_of_none (dateTime_of_not_isDigit hdigit u))]
  rcases hx with rfl | rfl <;> rfl

theorem scalar_of_bracket (hx : x = '[' ∨ x = ']') (u : Text) : scalar (x :: u) = none := by
  have hstring : string (x :: u) = none :=
    string_of_ne (by rcases hx with rfl | rfl <;> decide) u
  rw [scalar, orElse_of_none (bind_of_none hstring)]
  rcases hx with rfl | rfl
  · exact number_of_bracket (.inl rfl) u
  · exact number_of_bracket (.inr rfl) u

/-! ### Lists -/

/-- One piece of what may stand around the items of a list. -/
def gapPart : Reader Unit := newline <|> comment <|> do let _ ← run1 isSpace

theorem newline_of_isVisible (hx : IsVisible x) (u : Text) : newline (x :: u) = none :=
  (orElse_of_none (literal_of_ne (hx.ne (by decide)))).trans (literal_of_ne (hx.ne (by decide)))

theorem gapPart_of_isVisible (hx : IsVisible x) (u : Text) : gapPart (x :: u) = none := by
  have hrun : run1 isSpace (x :: u) = none := by
    rw [run1, List.takeWhile_cons_of_neg hx.not_isSpace]
  have hcomment : comment (x :: u) = none := bind_of_none (literal_of_ne (hx.ne (by decide)))
  have hnewline := newline_of_isVisible hx u
  rw [gapPart, orElse_of_none hnewline, orElse_of_none hcomment, bind_of_none hrun]

theorem gap_of_isVisible (hx : IsVisible x) (u : Text) : gap (x :: u) = some ((), x :: u) :=
  bind_eq (many_of_none (gapPart_of_isVisible hx u))

theorem gap_newline (hx : IsVisible x) (u : Text) :
    gap ('\n' :: x :: u) = some ((), x :: u) := by
  have hmany : many gapPart ('\n' :: x :: u) = some ([()], x :: u) := by
    rw [many, manyWithin_of_some (a := ()) (u := x :: u) rfl,
      manyWithin_of_none (gapPart_of_isVisible hx u)]
  exact bind_eq hmany

theorem gap_indent (hx : IsVisible x) (u : Text) :
    gap ('\n' :: ("    ".toList ++ x :: u)) = some ((), x :: u) := by
  have hspaces : gapPart ("    ".toList ++ x :: u) = some ((), x :: u) := by
    have hrun : run1 isSpace ("    ".toList ++ x :: u) = some ("    ".toList, x :: u) :=
      run1_append (by decide) (List.all_eq_true.1 rfl) hx.not_isSpace u
    exact (orElse_of_none rfl).trans ((orElse_of_none rfl).trans (bind_eq hrun))
  have hrest (bound : Text) :
      manyWithin gapPart (' ' :: bound) ("    ".toList ++ x :: u) = ([()], x :: u) := by
    rw [manyWithin_of_some hspaces, manyWithin_of_none (gapPart_of_isVisible hx u)]
  have hmany : many gapPart ('\n' :: ("    ".toList ++ x :: u)) =
      some ([(), ()], x :: u) := by
    rw [many, manyWithin_of_some (a := ()) (u := "    ".toList ++ x :: u) rfl]
    exact congrArg (fun y => some (() :: y.1, y.2)) (hrest ([' ', ' ', ' '] ++ x :: u))
  exact bind_eq hmany

/-- An item of a list with what may stand around it. -/
def item (depth : Nat) : Reader Value := do
  gap
  let v ← valueWithin depth
  gap
  return v

theorem valueWithin_print (v : Scalar) (hc : IsStop c) (u : Text) :
    valueWithin depth (v.print ++ c :: u) = some (.scalar v, c :: u) := by
  cases depth with
  | zero => exact scalar_print v hc u
  | succ depth => exact orElse_of_some (scalar_print v hc u)

theorem valueWithin_bracket (depth : Nat) (u : Text) : valueWithin depth (']' :: u) = none := by
  have hscalar := scalar_of_bracket (.inr rfl) u
  cases depth with
  | zero => exact hscalar
  | succ depth => exact (orElse_of_none hscalar).trans rfl

theorem item_append (depth : Nat) {w : Text} (v : Scalar) (hc : c = ',' ∨ c = ']') (u : Text)
    (hw : ∀ x t, IsVisible x → gap (w ++ x :: t) = some ((), x :: t)) :
    item depth (w ++ (v.print ++ c :: u)) = some (.scalar v, c :: u) := by
  obtain ⟨x, y, hxy, hx⟩ := v.exists_print_eq_cons
  have hvisible : IsVisible c := by rcases hc with rfl | rfl <;> decide
  have hgap : gap (w ++ (v.print ++ c :: u)) = some ((), v.print ++ c :: u) := by
    rw [hxy]
    exact hw x _ hx
  rw [item, bind_eq hgap, bind_eq (valueWithin_print v (.inr hc) u),
    bind_eq (gap_of_isVisible hvisible u)]
  rfl

theorem append_flatMap_append {α β : Type} (l : List α) (f : β → List α) (bs : List β)
    (w : List α) :
    l ++ (bs.flatMap (fun b => f b ++ l) ++ w) = bs.flatMap (fun b => l ++ f b) ++ (l ++ w) := by
  induction bs with
  | nil => rfl
  | cons b bs ih =>
    rw [List.flatMap_cons, List.flatMap_cons, List.append_assoc, List.append_assoc, ih,
      List.append_assoc, List.append_assoc]

theorem isVisible_bracket : IsVisible ']' := by decide

theorem item_bracket (depth : Nat) (u : Text) : item depth (']' :: u) = none := by
  rw [item, bind_eq (gap_of_isVisible isVisible_bracket u),
    bind_of_none (valueWithin_bracket depth u)]

theorem item_newline_bracket (depth : Nat) (u : Text) : item depth ('\n' :: ']' :: u) = none := by
  rw [item, bind_eq (gap_newline isVisible_bracket u), bind_of_none (valueWithin_bracket depth u)]

/-- The end of a list behind its items. -/
theorem list_of_separated {vs : List Value} {w : Text}
    (h : separated (item depth) (literal [',']) t = some (vs, w))
    (hend : w = ']' :: u ∨ vs ≠ [] ∧ w = ',' :: '\n' :: ']' :: u) :
    list (valueWithin depth) ('[' :: t) = some (vs, u) := by
  have hclose : (do literal [']']; return vs : Reader (List Value)) (']' :: u) = some (vs, u) :=
    bind_eq (literal_singleton ']' u)
  rw [list, bind_eq (literal_singleton '[' t)]
  refine (bind_eq h).trans ?_
  rcases hend with rfl | ⟨hne, rfl⟩
  · have hgap := gap_of_isVisible isVisible_bracket u
    cases vs with
    | nil => exact (bind_eq hgap).trans hclose
    | cons v vs =>
      have hcomma : literal [','] (']' :: u) = none := literal_of_ne (by decide)
      exact (bind_eq (opt_of_none hcomma)).trans ((bind_eq hgap).trans hclose)
  · have hgap := gap_newline isVisible_bracket u
    cases vs with
    | nil => exact absurd rfl hne
    | cons v vs =>
      exact (bind_eq (opt_of_some (literal_singleton ',' _))).trans ((bind_eq hgap).trans hclose)

theorem list_print_nil (u : Text) :
    list (valueWithin depth) ((Setting.many []).print ++ u) = some ([], u) :=
  list_of_separated (orElse_of_none (bind_of_none (item_bracket depth u))) (.inl rfl)

theorem list_print_singleton (v : Scalar) (u : Text) :
    list (valueWithin depth) ((Setting.many [v]).print ++ u) = some ([.scalar v], u) := by
  have hothers : many (do literal [',']; item depth) (']' :: u) = some ([], ']' :: u) :=
    many_of_none (bind_of_none (literal_of_ne (by decide)))
  have hitem := item_append depth (w := []) v (.inr rfl) u fun _ _ hx =>
    gap_of_isVisible hx _
  show list (valueWithin depth) ('[' :: (v.print ++ [']'] ++ u)) = _
  rw [List.append_assoc]
  exact list_of_separated (orElse_of_some ((bind_eq hitem).trans (bind_eq hothers))) (.inl rfl)

theorem list_print_cons_cons (v v' : Scalar) (vs : List Scalar) (u : Text) :
    list (valueWithin depth) ((Setting.many (v :: v' :: vs)).print ++ u) =
      some ((v :: v' :: vs).map .scalar, u) := by
  have hitem (s : Scalar) (rest : Text) :
      item depth (['\n'] ++ "    ".toList ++ (s.print ++ ',' :: rest)) =
        some (.scalar s, ',' :: rest) :=
    item_append depth s (.inl rfl) rest fun _ _ hx => gap_indent hx _
  have hothers : many (do literal [',']; item depth)
      ((v' :: vs).flatMap (fun s => [',', '\n'] ++ ("    ".toList ++ s.print)) ++
        (',' :: '\n' :: ']' :: u)) =
      some ((v' :: vs).map .scalar, ',' :: '\n' :: ']' :: u) := by
    refine many_map_flatMap (P := fun w => ∃ rest, w = ',' :: rest)
      (fun _ _ => List.cons_ne_nil _ _) (fun _ _ _ => ⟨_, rfl⟩) ?_ ⟨_, rfl⟩ ?_
    · rintro s - _ ⟨rest, rfl⟩
      rw [List.append_assoc, List.append_assoc]
      exact (bind_eq (literal_singleton ',' _)).trans (hitem s rest)
    · exact (bind_eq (literal_singleton ',' _)).trans (item_newline_bracket depth u)
  -- The comma and the newline behind an item are read with the one that follows it.
  have hprint : (Setting.many (v :: v' :: vs)).print ++ u = '[' :: (['\n'] ++ "    ".toList ++
      (v.print ++ ((v' :: vs).flatMap (fun s => [',', '\n'] ++ ("    ".toList ++ s.print)) ++
        (',' :: '\n' :: ']' :: u)))) := by
    have hrotate := append_flatMap_append [',', '\n'] (fun s : Scalar => "    ".toList ++ s.print)
      (v' :: vs) (']' :: u)
    have hmany : (Setting.many (v :: v' :: vs)).print = ['[', '\n'] ++
      (v :: v' :: vs).flatMap (fun s => "    ".toList ++ s.print ++ [',', '\n']) ++ [']'] := rfl
    rw [hmany, List.flatMap_cons, List.append_assoc, List.append_assoc, List.append_assoc,
      List.append_assoc, List.append_assoc]
    exact congrArg (fun w => ['[', '\n'] ++ ("    ".toList ++ (v.print ++ w))) hrotate
  rw [hprint]
  refine list_of_separated (orElse_of_some ?_) (.inr ⟨List.cons_ne_nil _ _, rfl⟩)
  rw [separated1]
  exact (bind_eq (hitem v _)).trans (bind_eq hothers)

theorem list_print (items : List Scalar) (u : Text) :
    list (valueWithin depth) ((Setting.many items).print ++ u) = some (items.map .scalar, u) := by
  match items with
  | [] => exact list_print_nil u
  | [v] => exact list_print_singleton v u
  | v :: v' :: items => exact list_print_cons_cons v v' items u

theorem exists_print_many_eq_cons (items : List Scalar) :
    ∃ w, (Setting.many items).print = '[' :: w := by
  match items with
  | [] => exact ⟨_, rfl⟩
  | [v] => exact ⟨_, rfl⟩
  | v :: v' :: items => exact ⟨_, rfl⟩

theorem Setting.exists_print_eq_cons (v : Setting) : ∃ x w, v.print = x :: w ∧ IsVisible x := by
  cases v with
  | one v => exact v.exists_print_eq_cons
  | many items =>
    obtain ⟨w, hw⟩ := exists_print_many_eq_cons items
    exact ⟨_, w, hw, by decide⟩

/-- A setting is read as it was written. -/
theorem value_print (v : Setting) (hc : IsStop c) (u : Text) :
    value (v.print ++ c :: u) = some (v.value, c :: u) := by
  cases v with
  | one v => exact valueWithin_print v hc u
  | many items =>
    obtain ⟨w, hw⟩ := exists_print_many_eq_cons items
    have hscalar : scalar ((Setting.many items).print ++ c :: u) = none := by
      rw [hw]
      exact scalar_of_bracket (.inl rfl) _
    exact (orElse_of_none hscalar).trans (orElse_of_some (bind_eq (list_print items (c :: u))))

end Quire.Toml
