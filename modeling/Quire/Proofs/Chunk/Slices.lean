import Mathlib.Algebra.Order.Floor.Div
import Quire.Proofs.Chunk

/-!
# Where slices begin and end

Slice number `k`, counted from zero, has the characters of the text from place `k * size` up to but
not including place `(k + 1) * size`, or up to the end of the text if that comes first. There are
as many slices as it takes to reach the end (`length_slices`), so all but the last are full.
-/

namespace Quire.Chunk

variable {size : Budget} {t : Text} {k : Nat}

/-! ### The number of slices -/

theorem ceilDiv_eq_succ {n : Nat} (hn : 0 < n) (size : Budget) :
    n ⌈/⌉ (size : Nat) = (n - size) ⌈/⌉ (size : Nat) + 1 := by
  have hs := size.property
  rw [Nat.ceilDiv_eq_add_pred_div, Nat.ceilDiv_eq_add_pred_div, ← Nat.add_div_right _ hs]
  rcases Nat.le_total size n with h | h
  · congr 1
    omega
  · -- Both quotients are one: a budget or more, and less than two.
    rw [Nat.sub_eq_zero_of_le h, Nat.div_eq_of_lt_le (k := 1) (by omega) (by omega),
      Nat.div_eq_of_lt_le (k := 1) (by omega) (by omega)]

theorem lt_ceilDiv_iff (size : Budget) : k < t.length ⌈/⌉ (size : Nat) ↔ k * size < t.length := by
  rw [← not_le, ceilDiv_le_iff_le_mul size.property, not_le, Nat.mul_comm]

theorem length_slices (size : Budget) (t : Text) :
    (slices size t).length = t.length ⌈/⌉ (size : Nat) := by
  induction hn : t.length using Nat.strong_induction_on generalizing t with
  | _ n ih =>
    subst hn
    by_cases ht : t = []
    · subst ht
      rw [slices_nil, List.length_nil, List.length_nil, zero_ceilDiv]
    · rw [slices_of_ne_nil size ht, List.length_cons, ih _ (length_drop_lt size ht) _ rfl,
        List.length_drop, ceilDiv_eq_succ (List.length_pos_iff.2 ht)]

/-! ### One slice -/

/-- Slices before the end are taken from where the slices before them end. -/
theorem getElem?_slices (h : k * size < t.length) :
    (slices size t)[k]? = some ((t.drop (k * size)).take size) := by
  induction k generalizing t with
  | zero =>
    rw [Nat.zero_mul] at h
    rw [slices_of_ne_nil size (List.length_pos_iff.1 h), Nat.zero_mul]
    rfl
  | succ k ih =>
    have hne : t ≠ [] := List.length_pos_iff.1 (Nat.zero_lt_of_lt h)
    have hrest : k * size < (t.drop size).length := by
      rw [Nat.succ_mul] at h
      rw [List.length_drop]
      omega
    rw [slices_of_ne_nil size hne, List.getElem?_cons_succ, ih hrest, List.drop_drop,
      Nat.succ_mul, Nat.add_comm]

theorem getElem_slices (h : k < (slices size t).length) :
    (slices size t)[k] = (t.drop (k * size)).take size := by
  have hlt : k * size < t.length := by rwa [length_slices, lt_ceilDiv_iff] at h
  exact (List.getElem_eq_iff h).2 (getElem?_slices hlt)

theorem extract_eq_take_drop (size : Budget) (t : Text) (k : Nat) :
    t.extract (k * size) (min ((k + 1) * size) t.length) = (t.drop (k * size)).take size := by
  rw [List.extract_eq_take_drop, List.take_eq_take_iff, List.length_drop, Nat.succ_mul]
  omega

/-! ### All slices -/

theorem length_of_mem_dropLast_slices {s : Text} (h : s ∈ (slices size t).dropLast) :
    s.length = size := by
  obtain ⟨k, hk, rfl⟩ := List.mem_iff_getElem.1 h
  -- The next slice begins before the end, so this one is full.
  have hnext : (k + 1) * size < t.length := by
    rw [← lt_ceilDiv_iff, ← length_slices]
    rw [List.length_dropLast] at hk
    omega
  rw [Nat.succ_mul] at hnext
  rw [List.getElem_dropLast, getElem_slices, List.length_take, List.length_drop]
  omega

theorem ne_nil_of_mem_slices {s : Text} (h : s ∈ slices size t) : s ≠ [] := by
  obtain ⟨k, hk, rfl⟩ := List.mem_iff_getElem.1 h
  have hs := size.property
  have hlt := hk
  rw [length_slices, lt_ceilDiv_iff] at hlt
  rw [getElem_slices, ← List.length_pos_iff, List.length_take, List.length_drop]
  omega

/-- The chunks of so many characters are as many as it takes to reach the end of the text, numbered
from one, each with the characters from where the chunk before it ends; so all but the last are
full, none is empty, and put together they are the text. -/
theorem split_byChars (t : Text) (size : Budget) :
    (split t (.byChars size)).length = t.length ⌈/⌉ (size : Nat) ∧
    (∀ k (hk : k < (split t (.byChars size)).length), (split t (.byChars size))[k] =
      ⟨k + 1, t.extract (k * size) (min ((k + 1) * size) t.length)⟩) ∧
    (∀ c ∈ (split t (.byChars size)).dropLast, c.text.length = size) ∧
    (∀ c ∈ split t (.byChars size), c.text ≠ []) ∧
    ((split t (.byChars size)).map Chunk.text).flatten = t := by
  have htexts : (split t (.byChars size)).map Chunk.text = slices size t := map_text_split t _
  refine ⟨?_, fun k hk => ?_, fun c hc => ?_, fun c hc => ?_, ?_⟩
  · rw [← length_slices, ← htexts, List.length_map]
  · have hslice : k < (slices size t).length := by rwa [← htexts, List.length_map]
    rw [extract_eq_take_drop, ← getElem_slices hslice]
    exact List.getElem_mapIdx
  · have hm : c.text ∈ (slices size t).dropLast := by
      rw [← htexts, ← List.map_dropLast]
      exact List.mem_map_of_mem hc
    exact length_of_mem_dropLast_slices hm
  · have hm : c.text ∈ slices size t := by
      rw [← htexts]
      exact List.mem_map_of_mem hc
    exact ne_nil_of_mem_slices hm
  · rw [htexts, flatten_slices]

end Quire.Chunk
