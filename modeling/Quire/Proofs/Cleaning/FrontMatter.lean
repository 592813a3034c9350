import Mathlib.Algebra.Group.Nat.Even
import Quire.Cleaning.Rules
import Quire.Proofs.Line

/-!
# Lines without front matter

Stripping only drops lines (`strip_sublist`), delimiters among them
(`not_isDelimiter_of_mem_strip`), so lines are left alone exactly if none of them is a delimiter
(`strip_eq_self_iff`). Whether a line is one depends on its body alone (`isDelimiter_eq_body`).

All that lines tell about what follows them is whether they end inside a block, which they do if an
odd number of them are delimiters: `strip_append` strips them first and goes on from there. So the
lines that are left are those with an even number of delimiters before them (`strip_eq_outside`).
-/

namespace Quire.FrontMatter

variable {lines : List Text} {line : Text}

theorem isDelimiter_eq_body (line : Text) : isDelimiter line = isDelimiter (Line.body line) := by
  have h := Text.trim_append_of_blank (t := Line.body line) (Line.isBlank_of_mem_terminator line)
  rw [Line.body_append_terminator] at h
  rw [isDelimiter, isDelimiter, h]

theorem stripFrom_sublist (inside : Bool) (lines : List Text) :
    (stripFrom [] inside lines).Sublist lines := by
  induction lines generalizing inside with
  | nil => exact List.Sublist.refl _
  | cons line lines ih =>
    rw [stripFrom]
    split
    · exact (ih _).cons line
    · split
      · exact (ih _).cons line
      · rw [stripFrom_eq]
        exact (ih _).cons_cons line

theorem strip_sublist (lines : List Text) : (strip lines).Sublist lines :=
  stripFrom_sublist false lines

theorem not_isDelimiter_of_mem_stripFrom {inside : Bool} (h : line ∈ stripFrom [] inside lines) :
    ¬ isDelimiter line := by
  induction lines generalizing inside with
  | nil => exact absurd h List.not_mem_nil
  | cons l lines ih =>
    rw [stripFrom] at h
    split at h
    · exact ih h
    · next hl =>
      split at h
      · exact ih h
      · rw [stripFrom_eq, List.reverse_singleton, List.singleton_append, List.mem_cons] at h
        rcases h with rfl | h
        · exact hl
        · exact ih h

theorem not_isDelimiter_of_mem_strip (h : line ∈ strip lines) : ¬ isDelimiter line :=
  not_isDelimiter_of_mem_stripFrom h

theorem strip_eq_self_iff : strip lines = lines ↔ ∀ line ∈ lines, ¬ isDelimiter line := by
  constructor
  · intro h line hl
    rw [← h] at hl
    exact not_isDelimiter_of_mem_strip hl
  · intro h
    induction lines with
    | nil => rfl
    | cons line lines ih =>
      obtain ⟨hl, hls⟩ := List.forall_mem_cons.1 h
      rw [strip, stripFrom, if_neg hl, if_neg (by decide), stripFrom_eq, ← strip, ih hls]
      rfl

/-! ### Blocks -/

/-- Whether a block of front matter is open after some lines. -/
def endsInside (lines : List Text) : Bool := !decide (Even (lines.countP isDelimiter))

/-- The lines that are no delimiters and have an even number of delimiters before them. -/
def outside (lines : List Text) : List Text :=
  (lines.zipIdx.filter fun (line, i) =>
    ¬ isDelimiter line ∧ Even ((lines.take i).countP isDelimiter)).map Prod.fst

theorem endsInside_cons (line : Text) (lines : List Text) :
    endsInside (line :: lines) = (isDelimiter line ^^ endsInside lines) := by
  unfold endsInside
  rw [List.countP_cons]
  cases isDelimiter line
  · rw [if_neg Bool.false_ne_true, Nat.add_zero, Bool.false_xor]
  · simp only [if_true, Nat.even_add_one, decide_not, Bool.true_xor]

theorem stripFrom_cons (inside : Bool) (line : Text) (lines : List Text) :
    stripFrom [] inside (line :: lines) =
      (if isDelimiter line || inside then [] else [line]) ++
        stripFrom [] (isDelimiter line ^^ inside) lines := by
  rw [stripFrom]
  cases isDelimiter line <;> cases inside
  · exact stripFrom_eq [line] false lines
  all_goals rfl

/-- What is left of lines and of those that follow. -/
theorem stripFrom_append (inside : Bool) (a b : List Text) :
    stripFrom [] inside (a ++ b) =
      stripFrom [] inside a ++ stripFrom [] (inside ^^ endsInside a) b := by
  induction a generalizing inside with
  | nil => cases inside <;> rfl
  | cons line a ih =>
    have hstate : ((isDelimiter line ^^ inside) ^^ endsInside a) =
        (inside ^^ endsInside (line :: a)) := by
      rw [endsInside_cons, Bool.xor_assoc, Bool.xor_left_comm]
    rw [List.cons_append, stripFrom_cons, stripFrom_cons, ih, hstate, List.append_assoc]

theorem strip_append (a b : List Text) :
    strip (a ++ b) = strip a ++ stripFrom [] (endsInside a) b := by
  rw [strip, stripFrom_append, Bool.false_xor]
  rfl

theorem strip_append_of_endsInside {a : List Text} (h : endsInside a) {d : Text}
    (hd : isDelimiter d) (b : List Text) : strip (a ++ b) = strip a ++ strip (d :: b) := by
  rw [strip_append, h, strip, strip, stripFrom_cons false d b, hd]
  rfl

theorem strip_append_of_not_endsInside {a : List Text} (h : endsInside a = false)
    (b : List Text) : strip (a ++ b) = strip a ++ strip b := by
  rw [strip_append, h]
  rfl

/-- Nothing of an open block is left, and it stays open. -/
theorem stripFrom_block {block : List Text} (h : ∀ line ∈ block, ¬ isDelimiter line) :
    stripFrom [] true block = [] ∧ endsInside block = false := by
  induction block with
  | nil => exact ⟨rfl, rfl⟩
  | cons line block ih =>
    obtain ⟨hl, hls⟩ := List.forall_mem_cons.1 h
    rw [stripFrom_cons, endsInside_cons, Bool.eq_false_iff.2 hl, Bool.false_xor, Bool.false_xor]
    exact ih hls

theorem strip_append_block {a block : List Text} (ha : endsInside a)
    (h : ∀ line ∈ block, ¬ isDelimiter line) (b : List Text) :
    strip (a ++ (block ++ b)) = strip (a ++ b) := by
  obtain ⟨hblock, hopen⟩ := stripFrom_block h
  rw [strip_append, strip_append, ha, stripFrom_append, hblock, hopen]
  rfl

theorem outside_append_singleton (lines : List Text) (line : Text) :
    outside (lines ++ [line]) =
      outside lines ++ stripFrom [] (endsInside lines) [line] := by
  have hbefore : ∀ p ∈ lines.zipIdx, (lines ++ [line]).take p.2 = lines.take p.2 := by
    intro p hp
    exact List.take_append_of_le_length (List.snd_lt_of_mem_zipIdx hp).le
  have hlast : (lines ++ [line]).take lines.length = lines := List.take_left' rfl
  unfold outside
  rw [List.zipIdx_append, List.filter_append, List.map_append]
  congr 1
  · exact congrArg _ (List.filter_congr fun ⟨l, i⟩ hp => by simp only [hbefore _ hp])
  · rw [stripFrom_cons, endsInside]
    simp only [List.zipIdx_singleton, Nat.zero_add, List.filter_singleton, hlast, stripFrom]
    by_cases hl : isDelimiter line <;>
      by_cases he : Even (lines.countP isDelimiter) <;> simp [hl, he]

theorem strip_eq_outside (lines : List Text) : strip lines = outside lines := by
  induction lines using List.reverseRecOn with
  | nil => rfl
  | append_singleton lines line ih => rw [strip_append, outside_append_singleton, ih]

theorem text_clean_append {r : Rules} (hr : r.stripFrontMatter) {a b c : List Text}
    (h : strip (a ++ b) = strip a ++ strip c) :
    (r.clean (a ++ b)).text = (r.clean a).text ++ (r.clean c).text := by
  simp only [Rules.clean, Rules.keptLines, if_pos hr, h, List.map_append, List.flatten_append]

/-- Of lines those outside the blocks of front matter are left, and stripping them again drops
nothing. What is left of lines and others after them is what is left of each, if the former end
outside a block. If they end inside one, the others count as if a delimiter stood before them, and
nothing in front of their first delimiter matters. Cleaned texts are put together likewise. -/
theorem strip_parity (lines : List Text) :
    strip lines = outside lines ∧ strip (strip lines) = strip lines ∧
    (Even (lines.countP isDelimiter) → ∀ rest, strip (lines ++ rest) = strip lines ++ strip rest ∧
      ∀ r : Rules, r.stripFrontMatter →
        (r.clean (lines ++ rest)).text = (r.clean lines).text ++ (r.clean rest).text) ∧
    (¬ Even (lines.countP isDelimiter) → ∀ d rest, isDelimiter d →
      strip (lines ++ rest) = strip lines ++ strip (d :: rest) ∧
      (∀ r : Rules, r.stripFrontMatter →
        (r.clean (lines ++ rest)).text = (r.clean lines).text ++ (r.clean (d :: rest)).text) ∧
      ∀ block, (∀ line ∈ block, ¬ isDelimiter line) →
        strip (lines ++ (block ++ rest)) = strip (lines ++ rest)) := by
  refine ⟨strip_eq_outside lines, ?_, fun heven rest => ?_, fun hodd d rest hd => ?_⟩
  · exact strip_eq_self_iff.2 fun line hl => not_isDelimiter_of_mem_strip hl
  · have hs : strip (lines ++ rest) = strip lines ++ strip rest :=
      strip_append_of_not_endsInside (by simp [endsInside, heven]) rest
    exact ⟨hs, fun r hr => text_clean_append hr hs⟩
  · have hopen : endsInside lines := by simp [endsInside, hodd]
    have hs := strip_append_of_endsInside hopen hd rest
    exact ⟨hs, fun r hr => text_clean_append hr hs,
      fun block hb => strip_append_block hopen hb rest⟩

/-- A block that is open at the end of the first lines is closed by the others. -/
theorem strip_parity_open_block :
    strip ([['a', '\n'], ['-', '-', '-', '\n'], ['b', '\n']] ++ [['c'], [' ', '-', '-', '-'], ['d']]) =
      strip [['a', '\n'], ['-', '-', '-', '\n'], ['b', '\n']] ++
        strip [['-', '-', '-'], ['c'], [' ', '-', '-', '-'], ['d']] :=
  ((strip_parity _).2.2.2 (by decide) _ _ (by decide)).1

end Quire.FrontMatter
