import Mathlib
import Quire.Command.Request
import Quire.Proofs.Plan
import Quire.Proofs.Settings

/-!
# Options before files

What the options of a command line say of a key (`Options.flag?`) goes before what the settings file
says, and that before the default. A plan is made of the values of all keys but one, the budget in
the unit that is not used (`Key.idle`), so that files which differ in nothing else make the same
plan, or are refused for the same fault.
-/

namespace Quire

attribute [ext] Rules OutputSection ExtractSection

/-! ### Plans -/

/-- The key that does not matter to a plan in a mode. -/
def Settings.Key.idle : SplitMode → Key
  | .bytes => .chunkSize
  | .chars => .maxBytes

open Settings (Key)

theorem Division.ofSection_congr {a b : SplitSection} (hmode : a.mode = b.mode)
    (hbytes : a.mode = .bytes → a.maxBytes = b.maxBytes)
    (hchars : a.mode = .chars → a.chunkSize = b.chunkSize) : ofSection a = ofSection b := by
  unfold ofSection
  rw [← hmode]
  cases hm : a.mode with
  | bytes => rw [hbytes hm]
  | chars => rw [hchars hm]

theorem Plan.ofSettings_congr {a b : Settings}
    (h : ∀ k, k ≠ Key.idle a.split.mode → k.get a = k.get b) : ofSettings a = ofSettings b := by
  -- Whatever the mode is, it leaves out one of the budgets and nothing else.
  have hactive {k : Key} (h₁ : k ≠ .chunkSize) (h₂ : k ≠ .maxBytes) : k.get a = k.get b := by
    apply h
    cases a.split.mode with
    | bytes => exact h₁
    | chars => exact h₂
  have hcleaning : a.cleaning = b.cleaning := by
    apply Rules.ext
    · exact hactive (k := .removeLinks) nofun nofun
    · exact hactive (k := .removeUrls) nofun nofun
    · exact hactive (k := .removeEmails) nofun nofun
    · exact hactive (k := .collapseBlanks) nofun nofun
    · exact hactive (k := .stripFrontMatter) nofun nofun
  have hdivision : Division.ofSection a.split = Division.ofSection b.split := by
    refine Division.ofSection_congr (hactive (k := .mode) nofun nofun) ?_ ?_
    · intro hm
      exact h .maxBytes (hm ▸ nofun)
    · intro hm
      exact h .chunkSize (hm ▸ nofun)
  have houtput : a.output = b.output := by
    apply OutputSection.ext
    · exact hactive (k := .format) nofun nofun
    · exact hactive (k := .fileStem) nofun nofun
    · exact hactive (k := .entryPrefix) nofun nofun
    · exact hactive (k := .entryExtension) nofun nofun
  have hextract : a.extract.encodings = b.extract.encodings :=
    hactive (k := .encodings) nofun nofun
  rw [ofSettings, ofSettings, hcleaning, hdivision, houtput, hextract]

/-! ### Options -/

namespace Command

/-- What the options of a command line say of a key. -/
def Options.flag? (s : Options) : (k : Key) → Option k.Kind
  | .removeLinks => if .keepLinks ∈ s.given then some false else none
  | .removeUrls => if .stripUrls ∈ s.given then some true else none
  | .removeEmails => if .stripEmails ∈ s.given then some true else none
  | .collapseBlanks => if .keepWhitespace ∈ s.given then some false else none
  | .stripFrontMatter => if .keepFrontMatter ∈ s.given then some false else none
  | .mode => (s.byBytes.map fun _ => SplitMode.bytes).or (s.byChars.map fun _ => SplitMode.chars)
  | .maxBytes => s.byBytes
  | .chunkSize => s.byChars
  | .format => s.format
  | .entryExtension => s.ext
  | .fileStem | .entryPrefix | .encodings => none

variable {s : Options} {usual : Option Text} {r : CleanRequest}

theorem Options.overrides_of_cleanRequest_eq_ok (h : s.cleanRequest usual = .ok r) :
    s.division = .ok r.overrides.division ∧
    r.overrides =
      { format := s.format
        division := r.overrides.division
        entryExtension := s.ext
        keepLinks := s.given.contains .keepLinks
        removeUrls := s.given.contains .stripUrls
        removeEmails := s.given.contains .stripEmails
        keepBlanks := s.given.contains .keepWhitespace
        keepFrontMatter := s.given.contains .keepFrontMatter } := by
  unfold cleanRequest at h
  obtain ⟨config, -, h⟩ := exists_of_bind_eq_ok h
  obtain ⟨division, hdivision, h⟩ := exists_of_bind_eq_ok h
  split at h
  · cases h
  · cases h
    exact ⟨hdivision, rfl⟩

theorem override_split {o : Overrides} (h : s.division = .ok o.division) (a : SplitSection) :
    a.override o =
      { mode := ((s.byBytes.map fun _ => SplitMode.bytes).or
          (s.byChars.map fun _ => SplitMode.chars)).getD a.mode
        maxBytes := s.byBytes.getD a.maxBytes
        chunkSize := s.byChars.getD a.chunkSize } := by
  unfold Options.division at h
  unfold SplitSection.override
  cases hb : s.byBytes with
  | none =>
    cases hc : s.byChars with
    | none =>
      rw [hb, hc] at h
      rw [← Except.ok.inj h]
      rfl
    | some m =>
      rw [hb, hc] at h
      rw [← Except.ok.inj h]
      rfl
  | some n =>
    cases hc : s.byChars with
    | none =>
      rw [hb, hc] at h
      rw [← Except.ok.inj h]
      rfl
    | some m =>
      rw [hb, hc] at h
      cases h

theorem and_not_contains (o : OptionName) (given : List OptionName) (b : Bool) :
    (b && !given.contains o) = (if o ∈ given then some false else none).getD b := by
  by_cases h : o ∈ given
  · rw [if_pos h, List.contains_iff_mem.2 h]
    exact Bool.and_false b
  · rw [if_neg h, Bool.eq_false_iff.2 (mt List.contains_iff_mem.1 h)]
    exact Bool.and_true b

theorem or_contains (o : OptionName) (given : List OptionName) (b : Bool) :
    (b || given.contains o) = (if o ∈ given then some true else none).getD b := by
  by_cases h : o ∈ given
  · rw [if_pos h, List.contains_iff_mem.2 h]
    exact Bool.or_true b
  · rw [if_neg h, Bool.eq_false_iff.2 (mt List.contains_iff_mem.1 h)]
    exact Bool.or_false b

/-- A key has the value that the options give it, or else that of the file. -/
theorem get_override (h : s.cleanRequest usual = .ok r) (file : Settings) (k : Key) :
    k.get (file.override r.overrides) = (s.flag? k).getD (k.get file) := by
  obtain ⟨hdivision, hoverrides⟩ := Options.overrides_of_cleanRequest_eq_ok h
  have hsplit := override_split hdivision file.split
  rw [hoverrides] at hsplit ⊢
  cases k with
  | removeLinks => exact and_not_contains _ _ _
  | removeUrls => exact or_contains _ _ _
  | removeEmails => exact or_contains _ _ _
  | collapseBlanks => exact and_not_contains _ _ _
  | stripFrontMatter => exact and_not_contains _ _ _
  | mode => exact congrArg SplitSection.mode hsplit
  | maxBytes => exact congrArg SplitSection.maxBytes hsplit
  | chunkSize => exact congrArg SplitSection.chunkSize hsplit
  | format | entryExtension | fileStem | entryPrefix | encodings => rfl

theorem get_override_of_ofValue? (h : s.cleanRequest usual = .ok r) {v : Toml.Value}
    {file : Settings} (hfile : Settings.ofValue? v = some file) (k : Key) :
    k.get (file.override r.overrides) = ((s.flag? k).or (k.setting? v)).getD k.default := by
  rw [get_override h, Settings.get_of_ofValue?_eq_some hfile]
  cases s.flag? k with
  | none => rfl
  | some a => rfl

/-- The settings of a run are those of the options, of the file and of the defaults, in this order.
What a file says of a key that the options settle, or of the budget that is not used, makes no
difference to the plan, nor to the fault for which there is none. -/
theorem get_override_of_read? (h : s.cleanRequest usual = .ok r) {t : Text} {v : Toml.Value}
    {file : Settings} (hv : Toml.document? t = some v) (hfile : Settings.read? t = some file) :
    (∀ k x, Key.value? k v = some x → (k.read? x).isSome) ∧
    (∀ k, k.get (file.override r.overrides) = ((s.flag? k).or (k.setting? v)).getD k.default) ∧
    ∀ t' v' file', Toml.document? t' = some v' → Settings.read? t' = some file' →
      (∀ k, (s.flag? k).isSome ∨ k = Key.idle (file.override r.overrides).split.mode ∨
        k.setting? v = k.setting? v') →
      Plan.ofSettings (file.override r.overrides) = Plan.ofSettings (file'.override r.overrides) := by
  have hread := Settings.ofValue?_of_read?_eq_some hv hfile
  refine ⟨fun k x hx => Settings.isSome_read?_of_ofValue?_eq_some hread hx,
    get_override_of_ofValue? h hread, ?_⟩
  intro t' v' file' hv' hfile' hsame
  have hread' := Settings.ofValue?_of_read?_eq_some hv' hfile'
  apply Plan.ofSettings_congr
  intro k hk
  rw [get_override_of_ofValue? h hread, get_override_of_ofValue? h hread']
  rcases hsame k with hflag | hidle | hsetting
  · obtain ⟨a, ha⟩ := Option.isSome_iff_exists.1 hflag
    rw [ha]
    rfl
  · exact absurd hidle hk
  · rw [hsetting]

/-- Two budgets in bytes, one of them impossible, are of no account if one in characters is given. -/
theorem get_override_of_read?_byChars :
    let s : Options := { input := some "a.txt".toList, byChars := some 10 }
    ∃ r file file', s.cleanRequest none = .ok r ∧
      Settings.read? "[split]\nmax_bytes = -5\n".toList = some file ∧
      Settings.read? "[split]\nmax_bytes = 7\nunit = \"\"\n".toList = some file' ∧
      Key.chunkSize.get (file.override r.overrides) = (10 : Int64) ∧
      Key.maxBytes.get (file.override r.overrides) = (-5 : Int64) ∧
      Key.format.get (file.override r.overrides) = OutputFormat.zip ∧
      Plan.ofSettings (file.override r.overrides) =
        Plan.ofSettings (file'.override r.overrides) := by
  intro s
  have hv : Toml.document? "[split]\nmax_bytes = -5\n".toList =
      some (.table [("split".toList, .table [("max_bytes".toList, .scalar (.integer (-5)))])]) := by
    cbv
  have hv' : Toml.document? "[split]\nmax_bytes = 7\nunit = \"\"\n".toList =
      some (.table [("split".toList, .table [("max_bytes".toList, .scalar (.integer 7)),
        ("unit".toList, .scalar (.text []))])]) := by cbv
  have hfile : Settings.read? "[split]\nmax_bytes = -5\n".toList =
      some { split := { maxBytes := -5 } } := by rw [Settings.read?, hv]; rfl
  have hfile' : Settings.read? "[split]\nmax_bytes = 7\nunit = \"\"\n".toList =
      some { split := { maxBytes := 7 } } := by rw [Settings.read?, hv']; rfl
  have hr : s.cleanRequest none = .ok
      { input := "a.txt".toList, overrides := { division := some (.chars, 10) } } := rfl
  obtain ⟨-, hget, hplan⟩ := get_override_of_read? hr hv hfile
  refine ⟨_, _, _, hr, hfile, hfile', hget .chunkSize, hget .maxBytes, hget .format, ?_⟩
  refine hplan _ _ _ hv' hfile' fun k => ?_
  cases k with
  | maxBytes => exact Or.inr (Or.inl rfl)
  | chunkSize => exact Or.inl rfl
  | _ => exact Or.inr (Or.inr rfl)

end Command

end Quire
