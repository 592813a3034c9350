import Quire.Proofs.Command.Shown
import Quire.Proofs.Output

/-!
# Outputs whose settings are given again

The names of an output are made by trimming, and those of a normal output (`Output.IsNormal`) are
left alone by it. The dots in front of an extension are dropped after it is trimmed, so that white
space behind the dots comes to its start (`isTrimmed_entryExtension_iff`). An output without that
is normal, and it is the output of its own settings, also when these go through a settings file;
any other one is not (`Output.ofSection_toSection_eq_iff`).
-/

namespace Quire

namespace Text

/-- A text with no white space at its ends. -/
structure IsTrimmed (t : Text) : Prop where
  head : ∀ c ∈ t.head?, ¬ isBlank c
  last : ∀ c ∈ t.getLast?, ¬ isBlank c

variable {t : Text}

theorem isTrimmed_trim (t : Text) : IsTrimmed (trim t) := ⟨head?_trim t, getLast?_trimEnd _⟩

theorem trim_eq_self_iff : trim t = t ↔ IsTrimmed t := by
  constructor
  · intro h
    rw [← h]
    exact isTrimmed_trim t
  · intro h
    rw [trim, trimStart_eq_self h.head, trimEnd_eq_self h.last]

end Text

namespace Output

open Text (IsTrimmed)

variable {s : OutputSection} {o : Output} {t : Text}

/-- The names of an output have nothing that does not count: no white space at their ends, and no
dot in front of the extension. -/
structure IsNormal (o : Output) : Prop where
  fileStem : IsTrimmed o.fileStem
  entryPrefix : IsTrimmed o.entryPrefix
  entryExtension : IsTrimmed o.entryExtension
  dot_not_mem : '.' ∉ o.entryExtension.head?

/-! ### Extensions -/

theorem dot_not_mem_head?_dropWhile (t : Text) : '.' ∉ (t.dropWhile (· == '.')).head? := by
  intro h
  have hne := List.head?_dropWhile_not (· == '.') t
  rw [Option.mem_def] at h
  rw [h] at hne
  exact absurd rfl (beq_eq_false_iff_ne.1 hne)

theorem dropWhile_dots_eq_self (h : '.' ∉ t.head?) : t.dropWhile (· == '.') = t := by
  cases t with
  | nil => rfl
  | cons c t =>
    apply List.dropWhile_cons_of_neg
    rw [beq_iff_eq]
    rintro rfl
    exact h rfl

theorem exists_eq_dots_append (t : Text) :
    ∃ n, t = List.replicate n '.' ++ t.dropWhile (· == '.') := by
  induction t with
  | nil => exact ⟨0, rfl⟩
  | cons c t ih =>
    by_cases hc : c = '.'
    · subst hc
      obtain ⟨n, hn⟩ := ih
      refine ⟨n + 1, ?_⟩
      rw [List.dropWhile_cons_of_pos (by rfl), List.replicate_succ, List.cons_append, ← hn]
    · refine ⟨0, ?_⟩
      rw [dropWhile_dots_eq_self]
      · rfl
      · simpa [eq_comm] using hc

theorem dropWhile_dots_append (n : Nat) (h : '.' ∉ t.head?) :
    (List.replicate n '.' ++ t).dropWhile (· == '.') = t := by
  rw [List.dropWhile_append_of_pos, dropWhile_dots_eq_self h]
  intro c hc
  rw [List.eq_of_mem_replicate hc]
  rfl

theorem not_isBlank_last_dropWhile (h : IsTrimmed t) :
    ∀ c ∈ (t.dropWhile (· == '.')).getLast?, ¬ isBlank c := by
  intro c hc
  obtain ⟨n, hn⟩ := exists_eq_dots_append t
  apply h.last c
  rw [hn, List.getLast?_append, hc]
  rfl

/-- The extension begins with white space exactly if white space follows the dots in front of it. -/
theorem isTrimmed_entryExtension_iff (s : OutputSection) :
    IsTrimmed (trimmed s).entryExtension ↔
      ∀ n c rest, Text.trim s.entryExtension = List.replicate n '.' ++ c :: rest → ¬ isBlank c := by
  constructor
  · intro h n c rest hs hc
    have hdot : '.' ∉ (c :: rest).head? := by
      rintro ⟨rfl⟩
      exact absurd hc (by decide)
    refine h.head c ?_ hc
    rw [trimmed, hs, dropWhile_dots_append n hdot]
    rfl
  · intro h
    refine ⟨fun c hc => ?_, not_isBlank_last_dropWhile (Text.isTrimmed_trim _)⟩
    obtain ⟨n, hn⟩ := exists_eq_dots_append (Text.trim s.entryExtension)
    obtain ⟨rest, hrest⟩ : ∃ rest, (Text.trim s.entryExtension).dropWhile (· == '.') = c :: rest :=
      List.head?_eq_some_iff.1 hc
    rw [hrest] at hn
    exact h n c rest hn

/-! ### Settings of an output -/

theorem hasSeparator_trim (h : hasSeparator t = false) : hasSeparator (Text.trim t) = false := by
  obtain ⟨hslash, hback⟩ := hasSeparator_eq_false_iff.1 h
  have hsub := (Text.trim_infix t).subset
  exact hasSeparator_eq_false_iff.2 ⟨fun hc => hslash (hsub hc), fun hc => hback (hsub hc)⟩

/-- What is not refused once is not refused when it is given again. -/
theorem ofSection_toSection (h : ofSection s = .ok o) :
    ofSection o.toSection = .ok (trimmed o.toSection) := by
  obtain ⟨rfl, hne, hstem, hprefix, hextension⟩ := ofSection_eq_ok_iff.1 h
  refine ofSection_eq_ok_iff.2 ⟨rfl, ?_, hasSeparator_trim hstem, hasSeparator_trim hprefix, ?_⟩
  · show Text.trim (Text.trim s.fileStem) ≠ []
    rwa [Text.trim_eq_self_iff.2 (Text.isTrimmed_trim _)]
  · exact (hasSeparator_dropWhile _).trans (hasSeparator_trim hextension)

theorem trimmed_toSection_eq_iff : trimmed o.toSection = o ↔ o.IsNormal := by
  constructor
  · intro h
    have hstem : Text.trim o.fileStem = o.fileStem := congrArg fileStem h
    have hprefix : Text.trim o.entryPrefix = o.entryPrefix := congrArg entryPrefix h
    have hextension : (Text.trim o.entryExtension).dropWhile (· == '.') = o.entryExtension :=
      congrArg entryExtension h
    have hdot := dot_not_mem_head?_dropWhile (Text.trim o.entryExtension)
    rw [hextension] at hdot
    refine ⟨Text.trim_eq_self_iff.1 hstem, Text.trim_eq_self_iff.1 hprefix, ?_, hdot⟩
    -- Neither step makes the extension longer, so that neither changes it.
    have hlen := (Text.trim_infix o.entryExtension).length_le
    have hsuffix := List.dropWhile_suffix (· == '.') (l := Text.trim o.entryExtension)
    rw [hextension] at hsuffix
    exact Text.trim_eq_self_iff.1 (hsuffix.eq_of_length_le hlen).symm
  · rintro ⟨hstem, hprefix, hextension, hdot⟩
    rw [trimmed, toSection, Text.trim_eq_self_iff.2 hstem, Text.trim_eq_self_iff.2 hprefix,
      Text.trim_eq_self_iff.2 hextension, dropWhile_dots_eq_self hdot]

/-- Of an output that settings give, all names are normal but for white space in front of the
extension, which is there exactly if it follows the dots of the extension that was given. Its own
settings are never refused; they give the same output, also through a settings file, exactly if the
output is normal. -/
theorem ofSection_toSection_eq_iff (h : ofSection s = .ok o) :
    (IsTrimmed o.fileStem ∧ IsTrimmed o.entryPrefix ∧ '.' ∉ o.entryExtension.head? ∧
      ∀ c ∈ o.entryExtension.getLast?, ¬ isBlank c) ∧
    (o.IsNormal ↔ ∀ n c rest,
      Text.trim s.entryExtension = List.replicate n '.' ++ c :: rest → ¬ isBlank c) ∧
    (∃ o', ofSection o.toSection = .ok o') ∧
    (ofSection o.toSection = .ok o ↔ o.IsNormal) ∧
    ∀ settings : Settings, settings.output = o.toSection →
      ∃ read, Settings.read? (settings.print ++ ['\n']) = some read ∧
        (ofSection read.output = .ok o ↔ o.IsNormal) := by
  have hagain : ofSection o.toSection = .ok o ↔ o.IsNormal := by
    rw [ofSection_toSection h, Except.ok.injEq, trimmed_toSection_eq_iff]
  have hexists : ∃ o', ofSection o.toSection = .ok o' := ⟨_, ofSection_toSection h⟩
  have hfile : ∀ settings : Settings, settings.output = o.toSection →
      ∃ read, Settings.read? (settings.print ++ ['\n']) = some read ∧
        (ofSection read.output = .ok o ↔ o.IsNormal) := by
    intro settings hsettings
    refine ⟨settings, settings.read?_print, ?_⟩
    rw [hsettings, hagain]
  obtain ⟨rfl, -⟩ := ofSection_eq_ok_iff.1 h
  have hstem : IsTrimmed (trimmed s).fileStem := Text.isTrimmed_trim _
  have hprefix : IsTrimmed (trimmed s).entryPrefix := Text.isTrimmed_trim _
  have hdot : '.' ∉ (trimmed s).entryExtension.head? := dot_not_mem_head?_dropWhile _
  have hlast := not_isBlank_last_dropWhile (Text.isTrimmed_trim s.entryExtension)
  refine ⟨⟨hstem, hprefix, hdot, hlast⟩, ?_, hexists, hagain, hfile⟩
  rw [← isTrimmed_entryExtension_iff]
  exact ⟨IsNormal.entryExtension, fun hextension => ⟨hstem, hprefix, hextension, hdot⟩⟩

/-- White space of several kinds around each name, and dots in front of an extension that has one
inside. -/
theorem ofSection_toSection_eq_archive :
    let s : OutputSection :=
      ⟨.zip, "\u00A0notes \u3000".toList, " \t".toList, "\n..tar. gz ".toList⟩
    let o : Output := ⟨.zip, "notes".toList, [], "tar. gz".toList⟩
    ofSection s = .ok o ∧ ofSection o.toSection = .ok o ∧ o.IsNormal ∧
      ∃ read, Settings.read? (Settings.print { output := o.toSection } ++ ['\n']) = some read ∧
        ofSection read.output = .ok o := by
  intro s o
  have ho : ofSection s = .ok o := by decide
  obtain ⟨-, -, -, hagain, hfile⟩ := ofSection_toSection_eq_iff ho
  have ho' : ofSection o.toSection = .ok o := by decide
  have hnormal := hagain.1 ho'
  obtain ⟨read, hread, houtput⟩ := hfile { output := o.toSection } rfl
  exact ⟨ho, ho', hnormal, read, hread, houtput.2 hnormal⟩

/-- White space behind the dot in front of an extension stays. -/
theorem not_isNormal_and_ofSection_toSection_eq : ¬ ∀ (s : OutputSection) (o : Output),
    ofSection s = .ok o → o.IsNormal ∧ ofSection o.toSection = .ok o := by
  intro h
  obtain ⟨hnormal, -⟩ :=
    h { entryExtension := ". md".toList } { entryExtension := " md".toList } rfl
  exact absurd (by decide) (hnormal.entryExtension.head ' ' rfl)

end Output

end Quire
