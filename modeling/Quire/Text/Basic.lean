/-!
# Texts

A text is the list of its characters. This file gives the two measures of a text (characters,
which is `List.length`, and `utf8Length`), its UTF-8 bytes (`utf8`), and the small operations
that the formats share: `joinWith`, `stripPrefix?`, `containsAny`, `lowercase`.
-/

namespace Quire

/-- A text, as the list of its characters. -/
abbrev Text := List Char

namespace Text

/-- The number of bytes that a text takes in UTF-8. -/
def utf8Length (t : Text) : Nat := t.foldr (fun c n => c.utf8Size + n) 0

/-- The UTF-8 bytes of a text. -/
def utf8 (t : Text) : ByteArray := (String.ofList t).toUTF8

@[simp] theorem utf8Length_nil : utf8Length [] = 0 := rfl

@[simp] theorem utf8Length_cons (c : Char) (t : Text) :
    utf8Length (c :: t) = c.utf8Size + utf8Length t := rfl

@[simp] theorem utf8Length_append (s t : Text) :
    utf8Length (s ++ t) = utf8Length s + utf8Length t := by
  induction s with
  | nil => simp
  | cons c s ih => simp [ih, Nat.add_assoc]

theorem utf8_append (s t : Text) : utf8 (s ++ t) = utf8 s ++ utf8 t := by
  simp [utf8, String.ofList_append, String.toByteArray_append]

theorem utf8Length_eq_zero_iff {t : Text} : utf8Length t = 0 ↔ t = [] := by
  cases t with
  | nil => exact iff_of_true rfl rfl
  | cons c t =>
    have := c.utf8Size_pos
    rw [utf8Length_cons]
    exact iff_of_false (by omega) (List.cons_ne_nil c t)

theorem size_utf8 (t : Text) : (utf8 t).size = utf8Length t := by
  induction t with
  | nil => rfl
  | cons c t ih =>
    have hc : (utf8 [c]).size = c.utf8Size := by
      rw [utf8, ← String.singleton_eq_ofList, String.toUTF8_eq_toByteArray,
        String.size_toByteArray, String.utf8ByteSize_singleton]
    rw [← List.singleton_append, utf8_append, ByteArray.size_append, hc, ih]
    rfl

/-- Texts put together with `separator` between neighbours. -/
def joinWith (separator : Text) (ts : List Text) : Text := separator.intercalate ts

/-- What follows `start` in a text that begins with it. -/
def stripPrefix? : (start : Text) → Text → Option Text
  | [], t => some t
  | _ :: _, [] => none
  | s :: start, c :: t => if s = c then stripPrefix? start t else none

theorem stripPrefix?_eq_some_iff {start t r : Text} :
    stripPrefix? start t = some r ↔ t = start ++ r := by
  fun_induction stripPrefix? start t with
  | case1 => simp [eq_comm]
  | case2 => simp
  | case3 _ _ _ ih => simp [ih]
  | case4 _ _ _ _ h => simp [Ne.symm h]

/-- Whether one of the characters `cs` occurs in a text. -/
def containsAny (cs t : Text) : Bool := t.any cs.contains

/-- A text with its ASCII capitals made small. -/
def lowercase (t : Text) : Text := t.map Char.toLower

end Text

end Quire
