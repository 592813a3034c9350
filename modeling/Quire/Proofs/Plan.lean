import Mathlib.Data.List.Basic
import Quire.Plan
import Quire.Proofs.Path

/-!
# Plans from settings

A plan is made of the parts that the sections of settings give (`Plan.of_ofSettings_eq_ok`). Its
chain of encodings is not empty (`Plan.encodings_ne_nil`), since settings that are not refused name
one, and the file of its output has a name that stays in its place (`Output.isName_fileName`).
-/

namespace Quire

section Except

variable {ε α β : Type}

/-- Of two steps that succeed one after the other, each succeeds. -/
theorem exists_of_bind_eq_ok {x : Except ε α} {f : α → Except ε β} {b : β}
    (h : x >>= f = .ok b) : ∃ a, x = .ok a ∧ f a = .ok b := by
  cases x with
  | error e => cases h
  | ok a => exact ⟨a, rfl, h⟩

theorem exists_of_map_eq_ok {x : Except ε α} {f : α → β} {b : β} (h : x.map f = .ok b) :
    ∃ a, x = .ok a ∧ f a = b := by
  cases x with
  | error e => cases h
  | ok a =>
    cases h
    exact ⟨a, rfl, rfl⟩

theorem length_eq_of_mapM_eq_ok {f : α → Except ε β} {as : List α} {bs : List β}
    (h : as.mapM f = .ok bs) : bs.length = as.length := by
  induction as generalizing bs with
  | nil =>
    rw [List.mapM_nil] at h
    cases h
    rfl
  | cons a as ih =>
    rw [List.mapM_cons] at h
    obtain ⟨b, -, h⟩ := exists_of_bind_eq_ok h
    obtain ⟨bs, hbs, h⟩ := exists_of_bind_eq_ok h
    cases h
    rw [List.length_cons, List.length_cons, ih hbs]

end Except

theorem Encoding.ne_nil_of_chainOfLabels {labels : List Text} {chain : List Encoding}
    (h : chainOfLabels labels = .ok chain) : chain ≠ [] := by
  cases labels with
  | nil => cases h
  | cons label labels =>
    rintro rfl
    cases length_eq_of_mapM_eq_ok h

/-! ### Output -/

theorem Output.ofSection_eq_ok_iff {s : OutputSection} {o : Output} :
    ofSection s = .ok o ↔ o = trimmed s ∧ o.fileStem ≠ [] ∧ hasSeparator o.fileStem = false ∧
      hasSeparator o.entryPrefix = false ∧ hasSeparator o.entryExtension = false := by
  unfold ofSection
  dsimp only
  constructor
  · intro h
    split at h
    · cases h
    next hstem =>
    split at h
    · cases h
    next hprefix =>
    split at h
    · cases h
    next hextension =>
    cases h
    rw [Bool.or_eq_true, not_or, List.isEmpty_iff, Bool.not_eq_true] at hstem
    exact ⟨rfl, hstem.1, hstem.2, Bool.eq_false_iff.2 hprefix, Bool.eq_false_iff.2 hextension⟩
  · rintro ⟨rfl, hne, hstem, hprefix, hextension⟩
    have hempty : (trimmed s).fileStem.isEmpty = false := by simpa using hne
    rw [hempty, hstem, hprefix, hextension]
    rfl

theorem Output.slash_not_mem {t : Text} (h : hasSeparator t = false) : '/' ∉ t := by
  intro hc
  rw [hasSeparator, Text.containsAny, List.any_eq_false] at h
  exact h '/' hc rfl

theorem Output.isName_fileName {s : OutputSection} {o : Output} (h : ofSection s = .ok o) :
    Path.IsName o.fileName := by
  obtain ⟨-, -, hstem, -, -⟩ := ofSection_eq_ok_iff.1 h
  have hextension : 3 ≤ o.format.extension.length ∧ '/' ∉ o.format.extension := by
    cases o.format <;> decide
  refine Path.IsName.of_length ?_ ?_
  · rw [fileName, List.length_append]
    omega
  · simp only [fileName, List.mem_append, List.mem_singleton, not_or]
    exact ⟨⟨slash_not_mem hstem, by decide⟩, hextension.2⟩

/-! ### Plans -/

theorem Plan.of_ofSettings_eq_ok {s : Settings} {p : Plan} (h : Plan.ofSettings s = .ok p) :
    p.rules = s.cleaning ∧ Division.ofSection s.split = .ok p.division ∧
      Output.ofSection s.output = .ok p.output ∧
      Encoding.chainOfLabels s.extract.encodings = .ok p.encodings := by
  obtain ⟨division, hd, h⟩ := exists_of_bind_eq_ok h
  obtain ⟨output, ho, h⟩ := exists_of_bind_eq_ok h
  obtain ⟨encodings, he, h⟩ := exists_of_bind_eq_ok h
  cases h
  exact ⟨rfl, hd, ho, he⟩

theorem Plan.encodings_ne_nil {s : Settings} {p : Plan} (h : Plan.ofSettings s = .ok p) :
    p.encodings ≠ [] := Encoding.ne_nil_of_chainOfLabels (of_ofSettings_eq_ok h).2.2.2

theorem Plan.isName_fileName {s : Settings} {p : Plan} (h : Plan.ofSettings s = .ok p) :
    Path.IsName p.output.fileName := Output.isName_fileName (of_ofSettings_eq_ok h).2.2.1

end Quire
