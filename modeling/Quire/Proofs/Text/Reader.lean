import Mathlib.Data.List.TakeWhile
import Quire.Text.Reader

/-!
# Readers and what was written

What has been written is found by a reader at the start of a text if what follows cannot belong to
it. `bind_eq` puts such facts together in the order of the reader's steps, and `many_flatMap`
repeats one of them for as many items as have been written.
-/

namespace Quire.Reader

variable {α β : Type} {p : Char → Bool} {r : Reader α} {t u w : Text}

theorem bind_eq {f : α → Reader β} {a : α} (h : r t = some (a, u)) : (r >>= f) t = f a u := by
  show (r t).bind _ = _
  rw [h]
  rfl

theorem bind_of_none {f : α → Reader β} (h : r t = none) : (r >>= f) t = none := by
  show (r t).bind _ = _
  rw [h]
  rfl

theorem bind_of_forall {f : α → Reader β} (h : ∀ a u, r t = some (a, u) → f a u = none) :
    (r >>= f) t = none := by
  cases hr : r t with
  | none => exact bind_of_none hr
  | some x => rw [bind_eq hr, h x.1 x.2 hr]

theorem orElse_of_some {s : Reader α} {a : α} (h : r t = some (a, u)) :
    (r <|> s) t = some (a, u) := by
  show (r t <|> s t) = _
  rw [h]
  rfl

theorem orElse_of_none {s : Reader α} (h : r t = none) : (r <|> s) t = s t := by
  show (r t <|> s t) = _
  rw [h]
  rfl

theorem char_of_pos {c : Char} (h : p c) : char p (c :: t) = some (c, t) := if_pos h

theorem char_of_neg {c : Char} (h : ¬ p c) : char p (c :: t) = none := if_neg h

theorem takeWhile_append_of_head? (hw : ∀ c ∈ w, p c) (hu : ∀ c ∈ u.head?, ¬ p c) :
    (w ++ u).takeWhile p = w ∧ (w ++ u).dropWhile p = u := by
  rw [List.takeWhile_append_of_pos hw, List.dropWhile_append_of_pos hw]
  cases u with
  | nil => exact ⟨List.append_nil w, rfl⟩
  | cons c u =>
    have hc := hu c rfl
    rw [List.takeWhile_cons_of_neg hc, List.dropWhile_cons_of_neg hc, List.append_nil]
    exact ⟨rfl, rfl⟩

theorem run_append (hw : ∀ c ∈ w, p c) {c : Char} (hc : ¬ p c) (u : Text) :
    run p (w ++ c :: u) = some (w, c :: u) := by
  obtain ⟨ht, hd⟩ := takeWhile_append_of_head? hw (u := c :: u) (by simpa using hc)
  rw [run, ht, hd]

theorem run1_append (hne : w ≠ []) (hw : ∀ c ∈ w, p c) {c : Char} (hc : ¬ p c) (u : Text) :
    run1 p (w ++ c :: u) = some (w, c :: u) := by
  obtain ⟨ht, hd⟩ := takeWhile_append_of_head? hw (u := c :: u) (by simpa using hc)
  obtain ⟨d, w, rfl⟩ := List.exists_cons_of_ne_nil hne
  rw [run1, ht, hd]

theorem literal_append (s u : Text) : literal s (s ++ u) = some ((), u) := by
  rw [literal, Text.stripPrefix?_eq_some_iff.2 rfl]
  rfl

theorem literal_singleton (c : Char) (u : Text) : literal [c] (c :: u) = some ((), u) :=
  literal_append [c] u

theorem literal_of_ne {c d : Char} {s : Text} (h : c ≠ d) : literal (d :: s) (c :: t) = none := by
  rw [literal, Text.stripPrefix?, if_neg h.symm]
  rfl

theorem manyWithin_of_none (h : r t = none) (bound : Text) : manyWithin r bound t = ([], t) := by
  cases bound with
  | nil => rfl
  | cons c bound => rw [manyWithin, h]

theorem manyWithin_of_some {a : α} (h : r t = some (a, u)) (c : Char) (bound : Text) :
    manyWithin r (c :: bound) t =
      (a :: (manyWithin r bound u).1, (manyWithin r bound u).2) := by
  rw [manyWithin, h]

theorem many_of_none (h : r t = none) : many r t = some ([], t) := by
  rw [many, manyWithin_of_none h]

section Repetition

variable {print : β → Text} {f : β → α} {bs : List β} {P : Text → Prop}
  (hne : ∀ b ∈ bs, print b ≠ []) (hprint : ∀ b ∈ bs, ∀ rest, P (print b ++ rest))
  (h : ∀ b ∈ bs, ∀ rest, P rest → r (print b ++ rest) = some (f b, rest)) (hP : P u)
  (hu : r u = none)
include hne hprint h hP hu

theorem manyWithin_map_flatMap {bound : Text} (hb : (bs.flatMap print).length ≤ bound.length) :
    manyWithin r bound (bs.flatMap print ++ u) = (bs.map f, u) := by
  induction bs generalizing bound with
  | nil => exact manyWithin_of_none hu bound
  | cons b bs ih =>
    obtain ⟨hb₁, hne⟩ := List.forall_mem_cons.1 hne
    obtain ⟨hb₂, h⟩ := List.forall_mem_cons.1 h
    obtain ⟨-, hprint⟩ := List.forall_mem_cons.1 hprint
    have hpos := List.length_pos_iff.2 hb₁
    rw [List.flatMap_cons, List.length_append] at hb
    obtain ⟨c, bound, rfl⟩ : ∃ c bound', bound = c :: bound' :=
      List.exists_cons_of_length_pos (by omega)
    rw [List.length_cons] at hb
    have hrest : manyWithin r bound (bs.flatMap print ++ u) = (bs.map f, u) :=
      ih hne hprint h (by omega)
    have hP : P (bs.flatMap print ++ u) := by
      cases bs with
      | nil => exact hP
      | cons b' bs =>
        rw [List.flatMap_cons, List.append_assoc]
        exact hprint b' List.mem_cons_self _
    rw [List.flatMap_cons, List.append_assoc, manyWithin_of_some (hb₂ _ hP), hrest]
    rfl

/-- Items are read one after the other if each is read before anything that begins as an item or as
what follows them all. -/
theorem many_map_flatMap : many r (bs.flatMap print ++ u) = some (bs.map f, u) := by
  rw [many, manyWithin_map_flatMap hne hprint h hP hu]
  rw [List.length_append]
  omega

end Repetition

theorem many_flatMap {print : α → Text} {as : List α} (hne : ∀ a ∈ as, print a ≠ [])
    (h : ∀ a ∈ as, ∀ rest, r (print a ++ rest) = some (a, rest)) (hu : r u = none) :
    many r (as.flatMap print ++ u) = some (as, u) := by
  have hmany := many_map_flatMap (f := id) (P := fun _ => True) hne
    (fun _ _ _ => trivial) (fun a ha rest _ => h a ha rest) trivial hu
  rw [List.map_id] at hmany
  exact hmany

theorem opt_of_some {a : α} (h : r t = some (a, u)) : opt r t = some (some a, u) := by
  rw [opt, h]

theorem opt_of_none (h : r t = none) : opt r t = some (none, t) := by
  rw [opt, h]

end Quire.Reader
