import Mathlib.Data.List.Basic
import Quire.Xml.Escape

/-!
# References, read again

What is escaped is decoded to the same text (`decode?_escape`). An escaped text has no character
with a meaning in markup (`not_mem_escape`), and its line breaks are those of the text, so that it
may stand between tags and between quotes.
-/

namespace Quire.Xml

variable {c : Char} {t : Text}

theorem decodeFrom_escapeChar (done : Text) (c : Char) (rest : Text) :
    decodeFrom done none (escapeChar c ++ rest) = decodeFrom (c :: done) none rest := by
  unfold escapeChar
  split
  case h_6 h _ _ _ _ => exact if_neg h
  all_goals rfl

theorem decodeFrom_escape (done t : Text) :
    decodeFrom done none (escape t) = some (done.reverse ++ t) := by
  induction t generalizing done with
  | nil => exact congrArg some (List.append_nil _).symm
  | cons c t ih =>
    rw [escape, List.flatMap_cons, decodeFrom_escapeChar]
    refine (ih _).trans ?_
    rw [List.reverse_cons, List.append_assoc]
    rfl

theorem decode?_escape (t : Text) : decode? (escape t) = some t := decodeFrom_escape [] t

theorem escape_ne_nil (h : t ≠ []) : escape t ≠ [] := by
  obtain ⟨c, t, rfl⟩ := List.exists_cons_of_ne_nil h
  rw [escape, List.flatMap_cons]
  refine List.append_ne_nil_of_left_ne_nil ?_ _
  unfold escapeChar
  split <;> exact List.cons_ne_nil _ _

theorem mem_escapeChar {d : Char} (h : d ∈ escapeChar c) :
    d = c ∧ d ∉ ['<', '>', '"', '\''] ∨ d ∈ "&ampltgquos;".toList := by
  unfold escapeChar at h
  split at h
  case h_6 =>
    rw [List.mem_singleton] at h
    subst h
    simp_all
  all_goals exact Or.inr (List.contains_iff_mem.1 (List.all_eq_true.1 (by decide) d h))

theorem not_mem_escape (h : c ∈ ['<', '>', '"', '\'']) (t : Text) : c ∉ escape t := by
  intro hc
  obtain ⟨d, -, hd⟩ := List.mem_flatMap.1 hc
  rcases mem_escapeChar hd with ⟨-, hn⟩ | hm
  · exact hn h
  · simp only [List.mem_cons, List.not_mem_nil, or_false] at h
    rcases h with rfl | rfl | rfl | rfl <;> exact absurd hm (by decide)

theorem not_mem_escape_of_not_mem (h : '\r' ∉ t) : '\r' ∉ escape t := by
  intro hc
  obtain ⟨d, hd, hm⟩ := List.mem_flatMap.1 hc
  rcases mem_escapeChar hm with ⟨rfl, -⟩ | hm
  · exact h hd
  · exact absurd hm (by decide)

theorem normalizeLines_eq_self (h : '\r' ∉ t) : normalizeLines t = t := by
  fun_induction normalizeLines t with
  | case1 => rfl
  | case2 t _ => exact absurd List.mem_cons_self h
  | case3 t _ _ => exact absurd List.mem_cons_self h
  | case4 c t _ _ ih => rw [ih fun hm => h (List.mem_cons_of_mem c hm)]

theorem decode?_normalizeLines_escape (h : '\r' ∉ t) :
    decode? (normalizeLines (escape t)) = some t := by
  rw [normalizeLines_eq_self (not_mem_escape_of_not_mem h), decode?_escape]

end Quire.Xml
