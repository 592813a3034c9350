import Quire.Chunk
import Quire.Proofs.Line

/-!
# Chunks and their text

Both divisions only cut: packed lines put together are the lines (`flatten_packLines`), slices put
together are the text (`flatten_slices`), and so the chunks of a text put together are the text
(`flatten_texts`). In particular each chunk is a piece of it (`text_infix_of_mem_split`). The first
slice is taken off and the rest is sliced in the same way (`slices_of_ne_nil`).
-/

namespace Quire.Chunk

/-! ### Packed lines -/

/-- What is full, then the group that is being filled, then the lines that are left. -/
theorem flatten_packFrom (max : Nat) (done : List (List Text)) (group : List Text) (size : Nat)
    (lines : List Text) : (packFrom max done group size lines).flatten =
      done.reverse.flatten ++ (group.reverse ++ lines) := by
  induction lines generalizing done group size with
  | nil => cases group <;> simp [packFrom]
  | cons line lines ih =>
    rw [packFrom]
    split
    · rw [ih]
      simp
    · rw [ih]
      simp

theorem flatten_packLines (max : Nat) (lines : List Text) :
    (packLines max lines).flatten = lines := flatten_packFrom max [] [] 0 lines

/-! ### Slices -/

theorem slicesFrom_nil (size : Budget) (done : List Text) :
    slicesFrom size done [] = done.reverse := by
  rw [slicesFrom, if_pos rfl]

theorem slicesFrom_of_ne_nil (size : Budget) (done : List Text) {t : Text} (ht : t ≠ []) :
    slicesFrom size done t = slicesFrom size (t.take size :: done) (t.drop size) := by
  rw [slicesFrom, if_neg ht]

theorem slices_nil (size : Budget) : slices size [] = [] := slicesFrom_nil size []

theorem length_drop_lt (size : Budget) {t : Text} (ht : t ≠ []) :
    (t.drop size).length < t.length := by
  have := size.property
  have := List.length_pos_iff.2 ht
  rw [List.length_drop]
  omega

theorem slicesFrom_eq_append (size : Budget) (done : List Text) (t : Text) :
    slicesFrom size done t = done.reverse ++ slices size t := by
  induction hn : t.length using Nat.strong_induction_on generalizing done t with
  | _ n ih =>
    by_cases ht : t = []
    · subst ht
      rw [slicesFrom_nil, slices_nil, List.append_nil]
    · have hlt := length_drop_lt size ht
      rw [slices, slicesFrom_of_ne_nil size done ht, slicesFrom_of_ne_nil size [] ht,
        ih _ (hn ▸ hlt) _ _ rfl, ih _ (hn ▸ hlt) [_] _ rfl, List.reverse_cons, List.append_assoc]
      rfl

theorem slices_of_ne_nil (size : Budget) {t : Text} (ht : t ≠ []) :
    slices size t = t.take size :: slices size (t.drop size) := by
  rw [slices, slicesFrom_of_ne_nil size [] ht, slicesFrom_eq_append]
  rfl

theorem flatten_slicesFrom (size : Budget) (done : List Text) (t : Text) :
    (slicesFrom size done t).flatten = done.reverse.flatten ++ t := by
  fun_induction slicesFrom size done t with
  | case1 done => simp
  | case2 done t _ ih =>
    rw [ih]
    simp

theorem flatten_slices (size : Budget) (t : Text) : (slices size t).flatten = t :=
  flatten_slicesFrom size [] t

/-! ### Chunks -/

theorem flatten_texts (t : Text) (d : Division) : (texts t d).flatten = t := by
  cases d with
  | byBytes budget =>
    rw [texts, ← List.flatten_flatten, flatten_packLines, Line.flatten_split]
  | byChars budget => exact flatten_slices budget t

theorem map_text_split (t : Text) (d : Division) : (split t d).map Chunk.text = texts t d := by
  apply List.ext_getElem
  · simp [split]
  · intro i _ _
    simp [split]

theorem text_infix_of_mem_split {t : Text} {d : Division} {chunk : Chunk}
    (h : chunk ∈ split t d) : chunk.text <:+: t := by
  have hm : chunk.text ∈ texts t d := by
    rw [← map_text_split]
    exact List.mem_map_of_mem h
  have := List.infix_of_mem_flatten hm
  rwa [flatten_texts] at this

end Quire.Chunk
