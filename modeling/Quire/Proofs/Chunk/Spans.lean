import Quire.Proofs.Chunk.Slices
import Quire.Proofs.Line.Spans

/-!
# Slices counted along byte offsets

`spans` counts characters and cuts at the byte offset at which the character begins that is one too
many. The ranges between these `cuts` are those of the slices, one after the other (`spans_eq_tile`),
and the cuts are the offsets before every character whose place is a multiple of the size
(`getElem?_cuts`). With the lines of a text this makes two scans that never cut inside a character
(`spans_hold_lines_and_slices`).
-/

namespace Quire.Chunk

/-- Goes on at the byte `offset`, after `count` characters of a slice that begins at the byte
`start`. -/
def spansFrom (size : Budget) (start count offset : Nat) : Text → List Span
  | [] => if start < offset then [⟨start, offset⟩] else []
  | c :: t =>
    if count = size then ⟨start, offset⟩ :: spansFrom size offset 1 (offset + c.utf8Size) t
    else spansFrom size start (count + 1) (offset + c.utf8Size) t

/-- The ranges of the slices of a text. -/
def spans (size : Budget) (t : Text) : List Span := spansFrom size 0 0 0 t

/-- The offsets at which one slice ends and the next begins. -/
def cuts (size : Budget) (t : Text) : List Nat := (spans size t).tail.map Span.start

variable {size : Budget} {t : Text} {k : Nat}

/-! ### Ranges -/

theorem slices_of_length_le (hne : t ≠ []) (h : t.length ≤ size) : slices size t = [t] := by
  rw [slices_of_ne_nil size hne, List.take_of_length_le h, List.drop_of_length_le h, slices_nil]

theorem slices_append_of_length_eq (h : t.length = size) (u : Text) :
    slices size (t ++ u) = t :: slices size u := by
  have hne : t ++ u ≠ [] := by
    have := size.property
    exact List.append_ne_nil_of_left_ne_nil (List.length_pos_iff.1 (h ▸ this)) u
  rw [slices_of_ne_nil size hne, List.take_left' h, List.drop_left' h]

/-- `done` is what the slice that is being filled has so far. -/
theorem spansFrom_eq_tile (start : Nat) (done : Text) (h : done.length ≤ size) (t : Text) :
    spansFrom size start done.length (start + Text.utf8Length done) t =
      Span.tile start (slices size (done ++ t)) := by
  induction t generalizing start done with
  | nil =>
    rw [spansFrom, List.append_nil]
    by_cases hne : done = []
    · subst hne
      rw [slices_nil, Text.utf8Length_nil, Nat.add_zero, if_neg (Nat.lt_irrefl start)]
      rfl
    · have hpos : Text.utf8Length done ≠ 0 := mt Text.utf8Length_eq_zero_iff.1 hne
      rw [slices_of_length_le hne h, if_pos (by omega)]
      rfl
  | cons c t ih =>
    rw [spansFrom]
    split
    · next hfull =>
      have hone := ih (start + Text.utf8Length done) [c] size.property
      rw [slices_append_of_length_eq hfull, Span.tile]
      exact congrArg _ hone
    · next hroom =>
      have hmore := ih start (done ++ [c]) (by
        rw [List.length_append, List.length_singleton]
        omega)
      rw [List.length_append, Text.utf8Length_append, ← Nat.add_assoc, List.append_assoc] at hmore
      exact hmore

theorem spans_eq_tile (size : Budget) (t : Text) : spans size t = Span.tile 0 (slices size t) :=
  spansFrom_eq_tile 0 [] (Nat.zero_le _) t

/-! ### Cuts -/

theorem flatten_take_slices (size : Budget) (t : Text) (k : Nat) :
    ((slices size t).take k).flatten = t.take (k * size) := by
  induction k generalizing t with
  | zero => rw [Nat.zero_mul, List.take_zero, List.take_zero, List.flatten_nil]
  | succ k ih =>
    by_cases hne : t = []
    · subst hne
      rw [slices_nil, List.take_nil, List.take_nil, List.flatten_nil]
    · rw [slices_of_ne_nil size hne, List.take_succ_cons, List.flatten_cons, ih, Nat.succ_mul,
        Nat.add_comm, List.take_add]

theorem getElem?_map_start_tile (start : Nat) (ps : List Text) (k : Nat) :
    ((Span.tile start ps).map Span.start)[k]? =
      if k < ps.length then some (start + Text.utf8Length (ps.take k).flatten) else none := by
  induction ps generalizing start k with
  | nil => rfl
  | cons p ps ih =>
    cases k with
    | zero => rfl
    | succ k =>
      rw [Span.tile, List.map_cons, List.getElem?_cons_succ, ih, List.take_succ_cons,
        List.flatten_cons, Text.utf8Length_append, Nat.add_assoc]
      simp only [List.length_cons, Nat.add_lt_add_iff_right]

/-- The cut number `k`, counted from zero, is before the character at `k + 1` times the size. -/
theorem getElem?_cuts (size : Budget) (t : Text) (k : Nat) :
    (cuts size t)[k]? =
      if (k + 1) * size < t.length then some (Text.utf8Length (t.take ((k + 1) * size)))
      else none := by
  have hstart := getElem?_map_start_tile 0 (slices size t) (k + 1)
  rw [flatten_take_slices, length_slices, Nat.zero_add, ← spans_eq_tile] at hstart
  rw [cuts, List.map_tail, List.getElem?_tail, hstart]
  exact if_congr (lt_ceilDiv_iff size) rfl rfl

/-- The line breaks that are found among the bytes of a text give its lines, and the slices that
are counted along byte offsets are its slices: range by range, with both ends between characters.
The cuts between the slices are before the characters number `size`, `2 * size` and so on, counted
from zero, and the cut between the body and the terminator of a line is between characters too. -/
theorem spans_hold_lines_and_slices (t : Text) (size : Budget) :
    List.Forall₂ (fun s line => s.Holds t line) (Line.spans (Text.utf8 t)) (Line.split t) ∧
    List.Forall₂ (fun s slice => s.Holds t slice) (spans size t) (slices size t) ∧
    (∀ k, (cuts size t)[k]? =
      if (k + 1) * size < t.length then some (Text.utf8Length (t.take ((k + 1) * size)))
      else none) ∧
    ∀ line, Text.splitAt? line (Line.bodySize line) = some (Line.splitTerminator line) := by
  have hlines := Span.forall₂_tile [] (Line.split t)
  have hslices := Span.forall₂_tile [] (slices size t)
  rw [List.nil_append, Line.flatten_split, Text.utf8Length_nil] at hlines
  rw [List.nil_append, flatten_slices, Text.utf8Length_nil] at hslices
  rw [Line.spans_utf8, spans_eq_tile]
  exact ⟨hlines, hslices, getElem?_cuts size t, Line.splitAt?_bodySize⟩

end Quire.Chunk
