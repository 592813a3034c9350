import Quire.Settings.File

/-!
# The keys of a settings file

A `Key` names one setting: where a document holds it, what its values are, and what it is by
default. A document gives settings if its sections are sections and the value of each key can be
read (`isSome_ofValue?_iff`); these are the values of the keys it has, and the defaults of the
others (`get_of_ofValue?_eq_some`).
-/

namespace Quire

open Toml (Value)

namespace Setting

variable {α β : Type} {v : Value} {i j : Nat} {name inner : String} {read : Value → Option α}
  {d a : α}

theorem isSection_of_field?_eq_some {x : Value} (h : field? v i name = some x) :
    isSection v = true := by
  unfold field? at h
  split at h
  · rfl
  · rfl
  · cases h

theorem isSome_fieldOr_iff : (fieldOr v i name read d).isSome ↔
    isSection v = true ∧ ∀ x, field? v i name = some x → (read x).isSome := by
  unfold fieldOr
  cases hx : field? v i name with
  | none =>
    by_cases hv : isSection v = true
    · simp [hv]
    · simp [hv]
  | some x =>
    rw [and_iff_right (isSection_of_field?_eq_some hx)]
    exact ⟨fun h y hy => Option.some.inj hy ▸ h, fun h => h x rfl⟩

theorem isSection_of_fieldOr_eq_some (h : fieldOr v i name read d = some a) :
    isSection v = true := (isSome_fieldOr_iff.1 (Option.isSome_of_eq_some h)).1

theorem elim_of_fieldOr_eq_some (h : fieldOr v i name read d = some a) :
    (field? v i name).elim (some d) read = some a := by
  unfold fieldOr at h
  split at h
  · next heq => rw [heq]; exact h
  · next heq =>
    split at h
    · rw [heq]; exact h
    · cases h

theorem read_of_fieldOr_eq_some {x : Value} (h : fieldOr v i name read d = some a)
    (hx : field? v i name = some x) : read x = some a := by
  have hread := elim_of_fieldOr_eq_some h
  rw [hx] at hread
  exact hread

/-- What is read of a field of a section. -/
theorem elim_of_section_eq_some {readSection : Value → Option β} {base s : β} {g : β → α}
    (h : fieldOr v i name readSection base = some s) (hbase : g base = d)
    (hread : ∀ x, readSection x = some s → fieldOr x j inner read d = some (g s)) :
    ((field? v i name).bind fun x => field? x j inner).elim (some d) read = some (g s) := by
  cases hx : field? v i name with
  | none =>
    -- A section that is missing has been replaced by its default as a whole.
    have hs := elim_of_fieldOr_eq_some h
    rw [hx] at hs
    cases hs
    rw [← hbase]
    rfl
  | some x => exact elim_of_fieldOr_eq_some (hread x (read_of_fieldOr_eq_some h hx))

end Setting

open Setting

/-! ### Sections -/

section Sections

variable {v : Value}

theorem Rules.ofValue?_eq_some_iff {r : Rules} : ofValue? v = some r ↔
    fieldOr v 0 "remove_embedded_links" boolean? true = some r.removeLinks ∧
    fieldOr v 1 "remove_urls" boolean? false = some r.removeUrls ∧
    fieldOr v 2 "remove_emails" boolean? false = some r.removeEmails ∧
    fieldOr v 3 "collapse_whitespace" boolean? true = some r.collapseBlanks ∧
    fieldOr v 4 "strip_frontmatter" boolean? true = some r.stripFrontMatter := by
  unfold ofValue?
  simp only [Option.bind_eq_bind, Option.bind_eq_some_iff, Option.pure_def, Option.some.injEq]
  constructor
  · rintro ⟨a, ha, b, hb, c, hc, d, hd, e, he, rfl⟩
    exact ⟨ha, hb, hc, hd, he⟩
  · rintro ⟨ha, hb, hc, hd, he⟩
    exact ⟨_, ha, _, hb, _, hc, _, hd, _, he, rfl⟩

theorem SplitSection.ofValue?_eq_some_iff {s : SplitSection} : ofValue? v = some s ↔
    fieldOr v 0 "mode" (choice? SplitMode.ofName?) .bytes = some s.mode ∧
    fieldOr v 1 "max_bytes" integer? 2097152 = some s.maxBytes ∧
    fieldOr v 2 "chunk_size" integer? 1000 = some s.chunkSize := by
  unfold ofValue?
  simp only [Option.bind_eq_bind, Option.bind_eq_some_iff, Option.pure_def, Option.some.injEq]
  constructor
  · rintro ⟨a, ha, b, hb, c, hc, rfl⟩
    exact ⟨ha, hb, hc⟩
  · rintro ⟨ha, hb, hc⟩
    exact ⟨_, ha, _, hb, _, hc, rfl⟩

theorem OutputSection.ofValue?_eq_some_iff {s : OutputSection} : ofValue? v = some s ↔
    fieldOr v 0 "format" (choice? OutputFormat.ofName?) .zip = some s.format ∧
    fieldOr v 1 "file_stem" text? "cleaned_output".toList = some s.fileStem ∧
    fieldOr v 2 "entry_prefix" text? "cleaned_part".toList = some s.entryPrefix ∧
    fieldOr v 3 "entry_extension" text? "md".toList = some s.entryExtension := by
  unfold ofValue?
  simp only [Option.bind_eq_bind, Option.bind_eq_some_iff, Option.pure_def, Option.some.injEq]
  constructor
  · rintro ⟨a, ha, b, hb, c, hc, d, hd, rfl⟩
    exact ⟨ha, hb, hc, hd⟩
  · rintro ⟨ha, hb, hc, hd⟩
    exact ⟨_, ha, _, hb, _, hc, _, hd, rfl⟩

theorem ExtractSection.ofValue?_eq_some_iff {s : ExtractSection} : ofValue? v = some s ↔
    fieldOr v 0 "encodings" texts? (Encoding.defaultChain.map Encoding.label) =
      some s.encodings := by
  unfold ofValue?
  simp only [Option.bind_eq_bind, Option.bind_eq_some_iff, Option.pure_def, Option.some.injEq]
  constructor
  · rintro ⟨a, ha, rfl⟩
    exact ha
  · exact fun ha => ⟨_, ha, rfl⟩

theorem Settings.ofValue?_eq_some_iff {s : Settings} : ofValue? v = some s ↔
    fieldOr v 0 "cleaning" Rules.ofValue? {} = some s.cleaning ∧
    fieldOr v 1 "split" SplitSection.ofValue? {} = some s.split ∧
    fieldOr v 2 "output" OutputSection.ofValue? {} = some s.output ∧
    fieldOr v 3 "extract" ExtractSection.ofValue? {} = some s.extract := by
  unfold ofValue?
  simp only [Option.bind_eq_bind, Option.bind_eq_some_iff, Option.pure_def, Option.some.injEq]
  constructor
  · rintro ⟨a, ha, b, hb, c, hc, d, hd, rfl⟩
    exact ⟨ha, hb, hc, hd⟩
  · rintro ⟨ha, hb, hc, hd⟩
    exact ⟨_, ha, _, hb, _, hc, _, hd, rfl⟩

end Sections

namespace Settings

/-! ### Keys -/

/-- The names of the settings. -/
inductive Key
  | removeLinks
  | removeUrls
  | removeEmails
  | collapseBlanks
  | stripFrontMatter
  | mode
  | maxBytes
  | chunkSize
  | format
  | fileStem
  | entryPrefix
  | entryExtension
  | encodings
  deriving DecidableEq, Repr

namespace Key

/-- What the value of a key is. -/
def Kind : Key → Type
  | removeLinks | removeUrls | removeEmails | collapseBlanks | stripFrontMatter => Bool
  | mode => SplitMode
  | maxBytes | chunkSize => Int64
  | format => OutputFormat
  | fileStem | entryPrefix | entryExtension => Text
  | encodings => List Text

/-- The value of a key if a file does not give one. -/
def default : (k : Key) → k.Kind
  | removeLinks | collapseBlanks | stripFrontMatter => true
  | removeUrls | removeEmails => false
  | mode => SplitMode.bytes
  | maxBytes => (2097152 : Int64)
  | chunkSize => (1000 : Int64)
  | format => OutputFormat.zip
  | fileStem => "cleaned_output".toList
  | entryPrefix => "cleaned_part".toList
  | entryExtension => "md".toList
  | encodings => ["utf-8".toList, "latin-1".toList, "windows-1252".toList]

/-- The value of a key in settings. -/
def get (s : Settings) : (k : Key) → k.Kind
  | removeLinks => s.cleaning.removeLinks
  | removeUrls => s.cleaning.removeUrls
  | removeEmails => s.cleaning.removeEmails
  | collapseBlanks => s.cleaning.collapseBlanks
  | stripFrontMatter => s.cleaning.stripFrontMatter
  | mode => s.split.mode
  | maxBytes => s.split.maxBytes
  | chunkSize => s.split.chunkSize
  | format => s.output.format
  | fileStem => s.output.fileStem
  | entryPrefix => s.output.entryPrefix
  | entryExtension => s.output.entryExtension
  | encodings => s.extract.encodings

/-- The section of a key, by position and by name. -/
def place : Key → Nat × String
  | removeLinks | removeUrls | removeEmails | collapseBlanks | stripFrontMatter => (0, "cleaning")
  | mode | maxBytes | chunkSize => (1, "split")
  | format | fileStem | entryPrefix | entryExtension => (2, "output")
  | encodings => (3, "extract")

/-- A key in its section, by position and by name. -/
def name : Key → Nat × String
  | removeLinks => (0, "remove_embedded_links")
  | removeUrls => (1, "remove_urls")
  | removeEmails => (2, "remove_emails")
  | collapseBlanks => (3, "collapse_whitespace")
  | stripFrontMatter => (4, "strip_frontmatter")
  | mode => (0, "mode")
  | maxBytes => (1, "max_bytes")
  | chunkSize => (2, "chunk_size")
  | format => (0, "format")
  | fileStem => (1, "file_stem")
  | entryPrefix => (2, "entry_prefix")
  | entryExtension => (3, "entry_extension")
  | encodings => (0, "encodings")

/-- The value of a key as a document has it. -/
def read? : (k : Key) → Value → Option k.Kind
  | removeLinks | removeUrls | removeEmails | collapseBlanks | stripFrontMatter => boolean?
  | mode => choice? SplitMode.ofName?
  | maxBytes | chunkSize => integer?
  | format => choice? OutputFormat.ofName?
  | fileStem | entryPrefix | entryExtension => text?
  | encodings => texts?

/-- What a document has as the section of a key. -/
def section? (k : Key) (v : Value) : Option Value := field? v k.place.1 k.place.2

/-- What a document has at a key. -/
def value? (k : Key) (v : Value) : Option Value :=
  (k.section? v).bind fun x => field? x k.name.1 k.name.2

/-- What a document sets a key to. -/
def setting? (k : Key) (v : Value) : Option k.Kind := (k.value? v).bind k.read?

end Key

section Reading

variable {v x : Value} {s : Settings} {k : Key}

/-- The value of a key that is present has been read, and others have their defaults. -/
theorem elim_value?_of_ofValue?_eq_some (h : ofValue? v = some s) (k : Key) :
    (k.value? v).elim (some k.default) k.read? = some (k.get s) := by
  obtain ⟨hcleaning, hsplit, houtput, hextract⟩ := ofValue?_eq_some_iff.1 h
  cases k with
  | removeLinks =>
    exact elim_of_section_eq_some (g := Rules.removeLinks) hcleaning rfl
      fun x hx => (Rules.ofValue?_eq_some_iff.1 hx).1
  | removeUrls =>
    exact elim_of_section_eq_some (g := Rules.removeUrls) hcleaning rfl
      fun x hx => (Rules.ofValue?_eq_some_iff.1 hx).2.1
  | removeEmails =>
    exact elim_of_section_eq_some (g := Rules.removeEmails) hcleaning rfl
      fun x hx => (Rules.ofValue?_eq_some_iff.1 hx).2.2.1
  | collapseBlanks =>
    exact elim_of_section_eq_some (g := Rules.collapseBlanks) hcleaning rfl
      fun x hx => (Rules.ofValue?_eq_some_iff.1 hx).2.2.2.1
  | stripFrontMatter =>
    exact elim_of_section_eq_some (g := Rules.stripFrontMatter) hcleaning rfl
      fun x hx => (Rules.ofValue?_eq_some_iff.1 hx).2.2.2.2
  | mode =>
    exact elim_of_section_eq_some (g := SplitSection.mode) hsplit rfl
      fun x hx => (SplitSection.ofValue?_eq_some_iff.1 hx).1
  | maxBytes =>
    exact elim_of_section_eq_some (g := SplitSection.maxBytes) hsplit rfl
      fun x hx => (SplitSection.ofValue?_eq_some_iff.1 hx).2.1
  | chunkSize =>
    exact elim_of_section_eq_some (g := SplitSection.chunkSize) hsplit rfl
      fun x hx => (SplitSection.ofValue?_eq_some_iff.1 hx).2.2
  | format =>
    exact elim_of_section_eq_some (g := OutputSection.format) houtput rfl
      fun x hx => (OutputSection.ofValue?_eq_some_iff.1 hx).1
  | fileStem =>
    exact elim_of_section_eq_some (g := OutputSection.fileStem) houtput rfl
      fun x hx => (OutputSection.ofValue?_eq_some_iff.1 hx).2.1
  | entryPrefix =>
    exact elim_of_section_eq_some (g := OutputSection.entryPrefix) houtput rfl
      fun x hx => (OutputSection.ofValue?_eq_some_iff.1 hx).2.2.1
  | entryExtension =>
    exact elim_of_section_eq_some (g := OutputSection.entryExtension) houtput rfl
      fun x hx => (OutputSection.ofValue?_eq_some_iff.1 hx).2.2.2
  | encodings =>
    exact elim_of_section_eq_some (g := ExtractSection.encodings) hextract rfl
      fun x hx => ExtractSection.ofValue?_eq_some_iff.1 hx

theorem isSome_read?_of_ofValue?_eq_some (h : ofValue? v = some s) (hx : k.value? v = some x) :
    (k.read? x).isSome := by
  have hget := elim_value?_of_ofValue?_eq_some h k
  rw [hx] at hget
  exact Option.isSome_of_eq_some hget

theorem get_of_ofValue?_eq_some (h : ofValue? v = some s) (k : Key) :
    k.get s = (k.setting? v).getD k.default := by
  have hget := elim_value?_of_ofValue?_eq_some h k
  rw [Key.setting?]
  cases hx : k.value? v with
  | none =>
    rw [hx] at hget
    exact (Option.some.inj hget).symm
  | some x =>
    rw [hx] at hget
    rw [Option.bind_some, show k.read? x = some (k.get s) from hget]
    rfl

theorem ofValue?_of_read?_eq_some {t : Text} (hv : Toml.document? t = some v)
    (h : read? t = some s) : ofValue? v = some s := by
  rw [read?, hv] at h
  exact h

theorem Key.isSome_fieldOr (hk : ∀ y, k.value? v = some y → (k.read? y).isSome)
    (hx : k.section? v = some x) (hsection : isSection x = true) :
    (fieldOr x k.name.1 k.name.2 k.read? k.default).isSome := by
  refine isSome_fieldOr_iff.2 ⟨hsection, fun y hy => hk y ?_⟩
  rw [value?, hx]
  exact hy

theorem isSection_of_section?_eq_some (h : ofValue? v = some s) (hx : k.section? v = some x) :
    isSection x = true := by
  obtain ⟨hcleaning, hsplit, houtput, hextract⟩ := ofValue?_eq_some_iff.1 h
  cases k with
  | removeLinks | removeUrls | removeEmails | collapseBlanks | stripFrontMatter =>
    have hread := read_of_fieldOr_eq_some hcleaning hx
    exact isSection_of_fieldOr_eq_some (Rules.ofValue?_eq_some_iff.1 hread).1
  | mode | maxBytes | chunkSize =>
    have hread := read_of_fieldOr_eq_some hsplit hx
    exact isSection_of_fieldOr_eq_some (SplitSection.ofValue?_eq_some_iff.1 hread).1
  | format | fileStem | entryPrefix | entryExtension =>
    have hread := read_of_fieldOr_eq_some houtput hx
    exact isSection_of_fieldOr_eq_some (OutputSection.ofValue?_eq_some_iff.1 hread).1
  | encodings =>
    have hread := read_of_fieldOr_eq_some hextract hx
    exact isSection_of_fieldOr_eq_some (ExtractSection.ofValue?_eq_some_iff.1 hread)

theorem exists_ofValue?_eq_some (hv : isSection v = true)
    (hsections : ∀ k x, Key.section? k v = some x → isSection x = true)
    (hkeys : ∀ k x, Key.value? k v = some x → (k.read? x).isSome) : ∃ s, ofValue? v = some s := by
  have hfield (k : Key) {x : Value} (hx : k.section? v = some x) :=
    Option.isSome_iff_exists.1 (k.isSome_fieldOr (hkeys k) hx (hsections k x hx))
  have hcleaning : (fieldOr v 0 "cleaning" Rules.ofValue? {}).isSome := by
    refine isSome_fieldOr_iff.2 ⟨hv, fun x hx => Option.isSome_iff_exists.2 ?_⟩
    obtain ⟨a, ha⟩ := hfield .removeLinks hx
    obtain ⟨b, hb⟩ := hfield .removeUrls hx
    obtain ⟨c, hc⟩ := hfield .removeEmails hx
    obtain ⟨d, hd⟩ := hfield .collapseBlanks hx
    obtain ⟨e, he⟩ := hfield .stripFrontMatter hx
    exact ⟨⟨a, b, c, d, e⟩, Rules.ofValue?_eq_some_iff.2 ⟨ha, hb, hc, hd, he⟩⟩
  have hsplit : (fieldOr v 1 "split" SplitSection.ofValue? {}).isSome := by
    refine isSome_fieldOr_iff.2 ⟨hv, fun x hx => Option.isSome_iff_exists.2 ?_⟩
    obtain ⟨a, ha⟩ := hfield .mode hx
    obtain ⟨b, hb⟩ := hfield .maxBytes hx
    obtain ⟨c, hc⟩ := hfield .chunkSize hx
    exact ⟨⟨a, b, c⟩, SplitSection.ofValue?_eq_some_iff.2 ⟨ha, hb, hc⟩⟩
  have houtput : (fieldOr v 2 "output" OutputSection.ofValue? {}).isSome := by
    refine isSome_fieldOr_iff.2 ⟨hv, fun x hx => Option.isSome_iff_exists.2 ?_⟩
    obtain ⟨a, ha⟩ := hfield .format hx
    obtain ⟨b, hb⟩ := hfield .fileStem hx
    obtain ⟨c, hc⟩ := hfield .entryPrefix hx
    obtain ⟨d, hd⟩ := hfield .entryExtension hx
    exact ⟨⟨a, b, c, d⟩, OutputSection.ofValue?_eq_some_iff.2 ⟨ha, hb, hc, hd⟩⟩
  have hextract : (fieldOr v 3 "extract" ExtractSection.ofValue? {}).isSome := by
    refine isSome_fieldOr_iff.2 ⟨hv, fun x hx => Option.isSome_iff_exists.2 ?_⟩
    obtain ⟨a, ha⟩ := hfield .encodings hx
    exact ⟨⟨a⟩, ExtractSection.ofValue?_eq_some_iff.2 ha⟩
  obtain ⟨a, ha⟩ := Option.isSome_iff_exists.1 hcleaning
  obtain ⟨b, hb⟩ := Option.isSome_iff_exists.1 hsplit
  obtain ⟨c, hc⟩ := Option.isSome_iff_exists.1 houtput
  obtain ⟨d, hd⟩ := Option.isSome_iff_exists.1 hextract
  exact ⟨⟨a, b, c, d⟩, ofValue?_eq_some_iff.2 ⟨ha, hb, hc, hd⟩⟩

/-- A document gives settings if what it has at the keys can be read. What it has elsewhere does not
matter. -/
theorem isSome_ofValue?_iff : (ofValue? v).isSome ↔ isSection v = true ∧
    (∀ k x, Key.section? k v = some x → isSection x = true) ∧
    ∀ k x, Key.value? k v = some x → (k.read? x).isSome := by
  rw [Option.isSome_iff_exists]
  constructor
  · rintro ⟨s, h⟩
    obtain ⟨hcleaning, -⟩ := ofValue?_eq_some_iff.1 h
    exact ⟨isSection_of_fieldOr_eq_some hcleaning,
      fun k x hx => isSection_of_section?_eq_some h hx,
      fun k x hx => isSome_read?_of_ofValue?_eq_some h hx⟩
  · rintro ⟨hv, hsections, hkeys⟩
    exact exists_ofValue?_eq_some hv hsections hkeys

end Reading

end Settings

end Quire
