import Quire.Artifact
import Quire.Proofs.Disk
import Quire.Proofs.Text.Decimal

/-!
# Names of an output

The settings of an output are refused if a separator is left in one of its names. What is not
refused gives the artifact and the files of an archive names that stay in their place
(`IsPlainName`), so that the path of the artifact leads right below its directory
(`Disk.IsBelow`).
-/

namespace Quire

namespace Path

variable {directory name : Text}

/-- A name that no kind of separator leads out of. -/
structure IsPlainName (t : Text) : Prop extends IsName t where
  backslash_not_mem : '\\' ∉ t

theorem IsPlainName.of_mem {c : Char} (hc : c ∈ name) (hdot : c ≠ '.') (hslash : '/' ∉ name)
    (hback : '\\' ∉ name) : IsPlainName name where
  ne_nil := List.ne_nil_of_mem hc
  ne_dot := by
    rintro rfl
    simp_all
  ne_dots := by
    rintro rfl
    simp_all
  slash_not_mem := hslash
  backslash_not_mem := hback

end Path

namespace Disk

variable {d : Disk} {q : Place} {directory name : Text}

theorem resolve_name (hn : Path.IsName name) (h : d.resolve name = .ok q) :
    d.node? d.here = some .directory ∧ q = d.here ++ [name] := by
  obtain ⟨start, ho, hw⟩ := exists_of_bind_eq_ok h
  rw [Path.segments_of_isName hn] at hw
  have hstart : start = d.here := by
    rw [origin, hn.isAbsolute_eq_false, if_neg Bool.false_ne_true] at ho
    split_ifs at ho
    cases ho
    rfl
  subst hstart
  exact walk_name hn hw

/-- A path that names something right below a directory: on a disk where it leads anywhere, it leads
to that name in the directory. The empty path is the directory where relative paths start. -/
structure IsBelow (directory name path : Text) : Prop where
  components_eq : Path.components path = Path.components directory ++ [name]
  isAbsolute_eq : Path.isAbsolute path = Path.isAbsolute directory
  resolve : ∀ (d : Disk) (q : Place), d.resolve path = .ok q →
    ∃ p, q = p ++ [name] ∧ d.node? p = some .directory ∧
      (d.resolve directory = .ok p ∨ directory = [] ∧ p = d.here)

theorem isBelow_join (directory : Text) (hn : Path.IsName name) :
    IsBelow directory name (Path.join directory name) where
  components_eq := Path.components_join directory hn
  isAbsolute_eq := by
    by_cases hd : directory = []
    · subst hd
      rw [Path.join_nil]
      exact hn.isAbsolute_eq_false
    · exact Path.isAbsolute_join hd hn
  resolve := by
    intro d q h
    by_cases hd : directory = []
    · subst hd
      rw [Path.join_nil] at h
      obtain ⟨hdir, rfl⟩ := resolve_name hn h
      exact ⟨d.here, rfl, hdir, Or.inr ⟨rfl, rfl⟩⟩
    · obtain ⟨p, hp, hdir, rfl⟩ := resolve_join hd hn h
      exact ⟨p, rfl, hdir, Or.inl hp⟩

end Disk

namespace Output

variable {s : OutputSection} {o : Output} {t : Text} {c : Char}

/-! ### Separators -/

theorem hasSeparator_iff : hasSeparator t = true ↔ ∃ c ∈ ['/', '\\'], c ∈ t := by
  rw [hasSeparator, Text.containsAny, List.any_eq_true]
  constructor
  · rintro ⟨c, hc, hsep⟩
    exact ⟨c, List.contains_iff_mem.1 hsep, hc⟩
  · rintro ⟨c, hsep, hc⟩
    exact ⟨c, hc, List.contains_iff_mem.2 hsep⟩

theorem not_mem_of_hasSeparator (h : hasSeparator t = false) : '/' ∉ t ∧ '\\' ∉ t := by
  refine ⟨fun hc => ?_, fun hc => ?_⟩
  · have := hasSeparator_iff.2 ⟨'/', by decide, hc⟩
    simp_all
  · have := hasSeparator_iff.2 ⟨'\\', by decide, hc⟩
    simp_all

theorem hasSeparator_eq_false_iff : hasSeparator t = false ↔ '/' ∉ t ∧ '\\' ∉ t := by
  refine ⟨not_mem_of_hasSeparator, fun ⟨hslash, hback⟩ => ?_⟩
  rw [← Bool.not_eq_true, hasSeparator_iff]
  rintro ⟨c, hsep, hc⟩
  simp only [List.mem_cons, List.not_mem_nil, or_false] at hsep
  rcases hsep with rfl | rfl
  · exact hslash hc
  · exact hback hc

/-- No separator is lost with the dots in front of an extension. -/
theorem hasSeparator_dropWhile (t : Text) :
    hasSeparator (t.dropWhile (· == '.')) = hasSeparator t := by
  induction t with
  | nil => rfl
  | cons c t ih =>
    rw [List.dropWhile_cons]
    split
    · next hdot =>
      obtain rfl := beq_iff_eq.1 hdot
      rw [ih]
      rfl
    · rfl

/-! ### Names -/

theorem isPlainName_fileName (h : ofSection s = .ok o) : Path.IsPlainName o.fileName := by
  obtain ⟨-, -, hstem, -, -⟩ := ofSection_eq_ok_iff.1 h
  obtain ⟨hslash, hback⟩ := not_mem_of_hasSeparator hstem
  have hextension : '/' ∉ o.format.extension ∧ '\\' ∉ o.format.extension := by
    cases o.format <;> decide
  refine ⟨isName_fileName h, ?_⟩
  simp only [fileName, List.mem_append, List.mem_singleton, not_or]
  exact ⟨⟨hback, by decide⟩, hextension.2⟩

/-- The number in the name of an archive's file keeps it from being made of dots. -/
theorem isPlainName_entryName (h : ofSection s = .ok o) (index : Nat) :
    Path.IsPlainName (Artifact.entryName o.entryPrefix index o.entryExtension) := by
  obtain ⟨-, -, -, hprefix, hextension⟩ := ofSection_eq_ok_iff.1 h
  have hpre := not_mem_of_hasSeparator hprefix
  have hext := not_mem_of_hasSeparator hextension
  have hdigit : ∀ c ∈ Text.decimal index, c ≠ '.' ∧ c ≠ '/' ∧ c ≠ '\\' := by
    intro c hc
    have := Text.isDigit_of_mem_decimal hc
    refine ⟨?_, ?_, ?_⟩ <;> rintro rfl <;> exact absurd this (by decide)
  obtain ⟨c, hc⟩ := List.exists_mem_of_ne_nil _ (Text.decimal_ne_nil index)
  have hslash : '/' ∉ Text.decimal index := fun hm => (hdigit _ hm).2.1 rfl
  have hback : '\\' ∉ Text.decimal index := fun hm => (hdigit _ hm).2.2 rfl
  refine Path.IsPlainName.of_mem (c := c) ?_ (hdigit c hc).1 ?_ ?_
  all_goals
    unfold Artifact.entryName
    dsimp only
    split_ifs <;> simp_all

theorem exists_ofSection_eq_error (h : hasSeparator (Text.trim s.fileStem) = true ∨
    hasSeparator (Text.trim s.entryPrefix) = true ∨
    hasSeparator (Text.trim s.entryExtension) = true) : ∃ fault, ofSection s = .error fault := by
  cases hs : ofSection s with
  | error fault => exact ⟨fault, rfl⟩
  | ok o =>
    obtain ⟨rfl, -, hstem, hprefix, hextension⟩ := ofSection_eq_ok_iff.1 hs
    rw [trimmed] at hstem hprefix hextension
    rw [hasSeparator_dropWhile] at hextension
    simp_all

/-- Settings that are not refused name an artifact that goes right below its directory, and files of
an archive that stay where it is unpacked. Settings with a separator left in a name are refused. -/
theorem names_of_ofSection (s : OutputSection) :
    (∀ o, ofSection s = .ok o →
      Path.IsPlainName o.fileName ∧
      (∀ index, Path.IsPlainName (Artifact.entryName o.entryPrefix index o.entryExtension)) ∧
      ∀ directory, Disk.IsBelow directory o.fileName (Path.join directory o.fileName)) ∧
    ∀ c ∈ ['/', '\\'], c ∈ Text.trim s.fileStem ∨ c ∈ Text.trim s.entryPrefix ∨
      c ∈ Text.trim s.entryExtension → ∃ fault, ofSection s = .error fault := by
  refine ⟨fun o h => ⟨isPlainName_fileName h, isPlainName_entryName h, fun directory => ?_⟩, ?_⟩
  · exact Disk.isBelow_join directory (isName_fileName h)
  · intro c hsep hc
    have hhas {t : Text} (hm : c ∈ t) : hasSeparator t = true := hasSeparator_iff.2 ⟨c, hsep, hm⟩
    exact exists_ofSection_eq_error (hc.imp hhas (Or.imp hhas hhas))

/-- Names made of dots and white space, and an extension that would lead out of its directory. -/
theorem names_of_dots :
    let o : Output := ⟨.zip, ['.', '.'], [], ['m', 'd']⟩
    ofSection ⟨.zip, " .. ".toList, [' '], " ..md".toList⟩ = .ok o ∧
      Path.IsPlainName o.fileName ∧
      Path.IsPlainName (Artifact.entryName o.entryPrefix 0 o.entryExtension) ∧
      Disk.IsBelow ['.', '.'] o.fileName (Path.join ['.', '.'] o.fileName) ∧
      ∃ fault, ofSection { entryExtension := ".x/../../evil".toList } = .error fault := by
  intro o
  have ho : ofSection ⟨.zip, " .. ".toList, [' '], " ..md".toList⟩ = .ok o := rfl
  obtain ⟨hname, hentry, hbelow⟩ := (names_of_ofSection _).1 o ho
  refine ⟨ho, hname, hentry 0, hbelow _, ?_⟩
  exact (names_of_ofSection { entryExtension := ".x/../../evil".toList }).2 '/' (by decide)
    (Or.inr (Or.inr (by decide)))

end Output

end Quire
