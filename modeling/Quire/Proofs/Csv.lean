import Mathlib.Data.List.Basic
import Quire.Csv

/-!
# Tables, read again

Reading what is written gives the records back (`read?_print`). Within a field the reader only
gathers characters, with or without quotes (`foldlM_bare`, `foldlM_doubled`), so after a field it
holds the field's text, at a place where a comma or a line feed ends the field
(`exists_foldlM_printField`). Hence it reads a record (`foldlM_printRecord`) and a table.
-/

namespace Quire.Csv

open Scan

variable {records : List (List Text)} {fields : List Text} {field t : Text} {place : Place}

/-! ### Characters of a field -/

theorem not_needsQuotes_cons {c : Char} :
    needsQuotes (c :: t) = false ↔
      (c ≠ ',' ∧ c ≠ '"' ∧ c ≠ '\r' ∧ c ≠ '\n') ∧ needsQuotes t = false := by
  simp [needsQuotes, Text.containsAny, List.any_cons, and_assoc]

theorem stepBare_push {c : Char} (h : c ≠ ',' ∧ c ≠ '"' ∧ c ≠ '\r' ∧ c ≠ '\n') (s : Scan) :
    s.stepBare c = some (s.push c .bare) := by
  simp [stepBare, h]

/-- Characters that need no quotes are gathered. -/
theorem foldlM_bare (h : needsQuotes t = false) :
    t.foldlM step ⟨records, fields, field, .bare⟩ =
      some ⟨records, fields, t.reverse ++ field, .bare⟩ := by
  induction t generalizing field with
  | nil => rfl
  | cons c t ih =>
    obtain ⟨hc, ht⟩ := not_needsQuotes_cons.1 h
    have hstep : step ⟨records, fields, field, .bare⟩ c =
        some ⟨records, fields, c :: field, .bare⟩ := stepBare_push hc _
    rw [List.foldlM_cons, hstep, List.reverse_cons, List.append_assoc]
    exact ih ht

/-- Between quotes all characters are gathered, with one quote for two. -/
theorem foldlM_doubled :
    (doubled t).foldlM step ⟨records, fields, field, .quoted⟩ =
      some ⟨records, fields, t.reverse ++ field, .quoted⟩ := by
  induction t generalizing field with
  | nil => rfl
  | cons c t ih =>
    have hc : (if c = '"' then ['"', '"'] else [c]).foldlM step ⟨records, fields, field, .quoted⟩ =
        some ⟨records, fields, c :: field, .quoted⟩ := by
      by_cases hq : c = '"'
      · subst hq
        rfl
      · simp [hq, step, push]
    rw [doubled, List.flatMap_cons, List.foldlM_append, hc, List.reverse_cons, List.append_assoc]
    exact ih

/-! ### Fields -/

/-- Where a field may begin. -/
def IsStart (place : Place) : Prop := place = .recordStart ∨ place = .fieldStart

/-- After a field the reader holds its text and is not between quotes. -/
theorem exists_foldlM_printField (records : List (List Text)) (fields : List Text)
    (h : IsStart place) (t : Text) :
    ∃ after, after ≠ .quoted ∧
      (printField t).foldlM step ⟨records, fields, [], place⟩ =
        some ⟨records, fields, t.reverse, after⟩ := by
  unfold printField
  split
  · -- The closing quote may still turn out to be the first of two; what follows decides.
    refine ⟨.quoteSeen, by decide, ?_⟩
    have hopen : step ⟨records, fields, [], place⟩ '"' = some ⟨records, fields, [], .quoted⟩ := by
      rcases h with rfl | rfl <;> rfl
    rw [List.cons_append, List.foldlM_cons, hopen]
    show (doubled t ++ ['"']).foldlM step _ = _
    rw [List.foldlM_append, foldlM_doubled, List.append_nil]
    rfl
  · next hq =>
    rw [Bool.not_eq_true] at hq
    cases t with
    -- Of an empty field nothing is written, so that the reader is still where it was.
    | nil => exact ⟨place, by rcases h with rfl | rfl <;> decide, rfl⟩
    | cons c t =>
      obtain ⟨hc, ht⟩ := not_needsQuotes_cons.1 hq
      have hfirst : step ⟨records, fields, [], place⟩ c = some ⟨records, fields, [c], .bare⟩ := by
        rcases h with rfl | rfl <;> simp [step, hc, stepBare_push hc, push]
      refine ⟨.bare, by decide, ?_⟩
      rw [List.foldlM_cons, hfirst, List.reverse_cons]
      exact foldlM_bare ht

theorem step_comma (h : place ≠ .quoted) :
    step ⟨records, fields, field, place⟩ ',' =
      some ⟨records, field.reverse :: fields, [], .fieldStart⟩ := by
  cases place with
  | quoted => exact absurd rfl h
  | _ => rfl

theorem step_newline (h : place ≠ .quoted) :
    step ⟨records, fields, field, place⟩ '\n' =
      some ⟨(field.reverse :: fields).reverse :: records, [], [], .recordStart⟩ := by
  cases place with
  | quoted => exact absurd rfl h
  | _ => rfl

/-! ### Records and tables -/

theorem printRecord_singleton (t : Text) : printRecord [t] = printField t ++ ['\n'] := by
  simp [printRecord, Text.joinWith, List.intercalate]

theorem printRecord_cons_cons (t u : Text) (new : List Text) :
    printRecord (t :: u :: new) = printField t ++ ',' :: printRecord (u :: new) := by
  simp [printRecord, Text.joinWith, List.intercalate]

theorem foldlM_printRecord (h : IsStart place) {new : List Text} (hne : new ≠ []) :
    (printRecord new).foldlM step ⟨records, fields, [], place⟩ =
      some ⟨(fields.reverse ++ new) :: records, [], [], .recordStart⟩ := by
  induction new generalizing fields place with
  | nil => exact absurd rfl hne
  | cons t new ih =>
    obtain ⟨after, ha, ht⟩ := exists_foldlM_printField records fields h t
    cases new with
    | nil =>
      rw [printRecord_singleton, List.foldlM_append, ht]
      show ['\n'].foldlM step _ = _
      rw [List.foldlM_cons, step_newline ha, List.reverse_reverse, List.reverse_cons]
      rfl
    | cons u new =>
      have hrest : (printRecord (u :: new)).foldlM step ⟨records, t :: fields, [], .fieldStart⟩ =
          some ⟨((t :: fields).reverse ++ (u :: new)) :: records, [], [], .recordStart⟩ :=
        ih (Or.inr rfl) (List.cons_ne_nil u new)
      rw [List.reverse_cons, List.append_assoc] at hrest
      rw [printRecord_cons_cons, List.foldlM_append, ht]
      show (',' :: printRecord (u :: new)).foldlM step _ = _
      rw [List.foldlM_cons, step_comma ha, List.reverse_reverse]
      exact hrest

theorem foldlM_print {new : List (List Text)} (h : ∀ fields ∈ new, fields ≠ []) :
    (print new).foldlM step ⟨records, [], [], .recordStart⟩ =
      some ⟨new.reverse ++ records, [], [], .recordStart⟩ := by
  induction new generalizing records with
  | nil => rfl
  | cons fields new ih =>
    obtain ⟨hfields, hnew⟩ := List.forall_mem_cons.1 h
    rw [print, List.flatMap_cons, List.foldlM_append, foldlM_printRecord (Or.inl rfl) hfields,
      List.reverse_cons, List.append_assoc]
    exact ih hnew

/-- A table whose records have fields is read back from what is written. -/
theorem read?_print (h : ∀ fields ∈ records, fields ≠ []) :
    read? (print records) = some records := by
  rw [read?, foldlM_print h, List.append_nil]
  exact congrArg some records.reverse_reverse

end Quire.Csv
