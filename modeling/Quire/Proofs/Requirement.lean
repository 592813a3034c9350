import Mathlib.Data.List.Forall2
import Mathlib.Order.WellFounded
import Quire.Proofs.Output

/-!
# What settings have to meet

Settings have a plan if they meet five requirements, and then it is the one that they describe
(`IsPlanOf`). If they do not, they are refused for the first requirement in order that they do not
meet, with a fault that shows the value as it was given
(`Plan.ofSettings_isPlanOf_or_isFirstUnmet`).
-/

namespace Quire

section Except

variable {ε α β : Type} {f : α → Except ε β}

theorem mapM_eq_ok_iff {as : List α} {bs : List β} :
    as.mapM f = .ok bs ↔ List.Forall₂ (fun a b => f a = .ok b) as bs := by
  induction as generalizing bs with
  | nil =>
    rw [List.mapM_nil, List.forall₂_nil_left_iff]
    exact ⟨fun h => by cases h; rfl, fun h => by rw [h]; rfl⟩
  | cons a as ih =>
    rw [List.mapM_cons, List.forall₂_cons_left_iff]
    constructor
    · intro h
      obtain ⟨b, hb, h⟩ := exists_of_bind_eq_ok h
      obtain ⟨bs, hbs, h⟩ := exists_of_bind_eq_ok h
      cases h
      exact ⟨b, bs, hb, ih.1 hbs, rfl⟩
    · rintro ⟨b, bs, hb, hbs, rfl⟩
      rw [hb, ih.2 hbs]
      rfl

/-- The first step that fails ends the others. -/
theorem mapM_eq_error_of_find? {p : α → Bool} {e : α → ε} {as : List α} {a : α}
    (hok : ∀ a, p a = false → ∃ b, f a = .ok b) (herror : ∀ a, p a = true → f a = .error (e a))
    (h : as.find? p = some a) : as.mapM f = .error (e a) := by
  induction as with
  | nil => cases h
  | cons c as ih =>
    rw [List.mapM_cons]
    rw [List.find?_cons] at h
    cases hc : p c with
    | true =>
      rw [hc] at h
      cases h
      rw [herror _ hc]
      rfl
    | false =>
      rw [hc] at h
      obtain ⟨b, hb⟩ := hok c hc
      rw [hb, ih h]
      rfl

end Except

/-! ### Requirements -/

namespace Encoding

/-- The names of an encoding, in small letters. -/
def names : Encoding → List Text
  | utf8 => ["utf-8".toList, "utf8".toList]
  | latin1 => ["latin-1".toList, "latin1".toList, "iso-8859-1".toList]
  | windows1252 => ["windows-1252".toList, "cp1252".toList]

/-- Whether a label names an encoding. -/
def isNamed (label : Text) (e : Encoding) : Bool :=
  e.names.contains (Text.lowercase (Text.trim label))

/-- Whether a label names any encoding. -/
def isKnown (label : Text) : Bool := [utf8, latin1, windows1252].any (isNamed label)

variable {label : Text} {e : Encoding}

theorem ofLabel?_eq_some_iff : ofLabel? label = some e ↔ isNamed label e = true := by
  unfold ofLabel? isNamed
  rw [List.contains_iff_mem]
  generalize Text.lowercase (Text.trim label) = w
  constructor
  · intro h
    obtain ⟨before, after, hs, -⟩ := List.lookup_eq_some_iff.1 h
    have hm : (w, e) ∈ spellings := hs ▸ List.mem_append_right before List.mem_cons_self
    simp only [spellings, List.mem_cons, Prod.mk.injEq, List.not_mem_nil, or_false] at hm
    rcases hm with ⟨rfl, rfl⟩ | ⟨rfl, rfl⟩ | ⟨rfl, rfl⟩ | ⟨rfl, rfl⟩ | ⟨rfl, rfl⟩ | ⟨rfl, rfl⟩ |
      ⟨rfl, rfl⟩ <;> decide
  · intro h
    cases e with
    | utf8 =>
      simp only [names, List.mem_cons, List.not_mem_nil, or_false] at h
      rcases h with rfl | rfl <;> rfl
    | latin1 =>
      simp only [names, List.mem_cons, List.not_mem_nil, or_false] at h
      rcases h with rfl | rfl | rfl <;> rfl
    | windows1252 =>
      simp only [names, List.mem_cons, List.not_mem_nil, or_false] at h
      rcases h with rfl | rfl <;> rfl

theorem ofSetting_eq_ok_iff : ofSetting label = .ok e ↔ isNamed label e = true := by
  rw [← ofLabel?_eq_some_iff, ofSetting]
  cases ofLabel? label <;> simp

theorem isKnown_iff : isKnown label = true ↔ ∃ e, isNamed label e = true := by
  rw [isKnown, List.any_eq_true]
  constructor
  · rintro ⟨e, -, he⟩
    exact ⟨e, he⟩
  · rintro ⟨e, he⟩
    refine ⟨e, ?_, he⟩
    cases e <;> decide

theorem exists_ofSetting_eq_ok (h : isKnown label = true) : ∃ e, ofSetting label = .ok e := by
  obtain ⟨e, he⟩ := isKnown_iff.1 h
  exact ⟨e, ofSetting_eq_ok_iff.2 he⟩

theorem ofSetting_eq_error (h : isKnown label = false) :
    ofSetting label = .error (.unknownEncoding label) := by
  cases hl : ofLabel? label with
  | some e =>
    rw [isKnown_iff.2 ⟨e, ofLabel?_eq_some_iff.1 hl⟩] at h
    cases h
  | none => rw [ofSetting, hl]

end Encoding

/-- The budget in the unit that is used. -/
def SplitSection.budget (s : SplitSection) : Int64 :=
  match s.mode with
  | .bytes => s.maxBytes
  | .chars => s.chunkSize

/-- What settings have to meet. -/
inductive Requirement
  | budget
  | fileStem
  | entryPrefix
  | entryExtension
  | encodings
  deriving DecidableEq, Repr

namespace Requirement

/-- The place of a requirement among the others. -/
def place : Requirement → Nat
  | budget => 0
  | fileStem => 1
  | entryPrefix => 2
  | entryExtension => 3
  | encodings => 4

/-- Whether settings meet a requirement. -/
def IsMet (s : Settings) : Requirement → Prop
  | budget => 1 ≤ s.split.budget.toInt
  | fileStem => Text.trim s.output.fileStem ≠ [] ∧
      '/' ∉ Text.trim s.output.fileStem ∧ '\\' ∉ Text.trim s.output.fileStem
  | entryPrefix => '/' ∉ Text.trim s.output.entryPrefix ∧ '\\' ∉ Text.trim s.output.entryPrefix
  | entryExtension => '/' ∉ (Text.trim s.output.entryExtension).dropWhile (· == '.') ∧
      '\\' ∉ (Text.trim s.output.entryExtension).dropWhile (· == '.')
  | encodings => s.extract.encodings ≠ [] ∧
      ∀ label ∈ s.extract.encodings, Encoding.isKnown label = true

/-- The fault of settings that do not meet a requirement. -/
def fault (s : Settings) : Requirement → SettingFault
  | budget => .budget s.split.mode s.split.budget
  | fileStem => .fileStem s.output.fileStem
  | entryPrefix => .entryPrefix s.output.entryPrefix
  | entryExtension => .entryExtension s.output.entryExtension
  | encodings =>
    match s.extract.encodings.find? fun label => !Encoding.isKnown label with
    | some label => .unknownEncoding label
    | none => .noEncoding

/-- The settings meet all requirements before one that they do not meet. -/
structure IsFirstUnmet (s : Settings) (r : Requirement) : Prop where
  unmet : ¬ r.IsMet s
  met : ∀ q : Requirement, q.place < r.place → q.IsMet s

theorem place_inj {q r : Requirement} (h : q.place = r.place) : q = r := by
  revert h
  cases q <;> cases r <;> decide

theorem IsFirstUnmet.eq {s : Settings} {q r : Requirement} (hq : IsFirstUnmet s q)
    (hr : IsFirstUnmet s r) : q = r := by
  rcases Nat.lt_trichotomy q.place r.place with h | h | h
  · exact absurd (hr.met q h) hq.unmet
  · exact place_inj h
  · exact absurd (hq.met r h) hr.unmet

end Requirement

open Requirement

/-! ### Budgets -/

section Division

variable {s : SplitSection}

theorem Division.ofSection_eq_ok (h : 1 ≤ s.budget.toInt) : ∃ d, ofSection s = .ok d ∧
    d.mode = s.mode ∧ (d.budget : Int) = s.budget.toInt := by
  have hpos : 0 < s.budget.toInt := by omega
  have hbudget : Budget.ofSetting s.mode s.budget = .ok ⟨s.budget.toInt.toNat, by omega⟩ :=
    dif_pos hpos
  have hof : ofSection s = ofSetting s.mode s.budget := rfl
  rw [hof, ofSetting, hbudget]
  cases s.mode with
  | bytes => exact ⟨_, rfl, rfl, Int.toNat_of_nonneg (by omega)⟩
  | chars => exact ⟨_, rfl, rfl, Int.toNat_of_nonneg (by omega)⟩

theorem Division.ofSection_eq_error (h : ¬ 1 ≤ s.budget.toInt) :
    ofSection s = .error (.budget s.mode s.budget) := by
  have hbudget : Budget.ofSetting s.mode s.budget = .error (.budget s.mode s.budget) :=
    dif_neg (by omega)
  have hof : ofSection s = ofSetting s.mode s.budget := rfl
  rw [hof, ofSetting, hbudget]
  rfl

theorem Division.eq_of_budget {d e : Division} (hmode : d.mode = e.mode)
    (hbudget : (d.budget : Nat) = e.budget) : d = e := by
  cases d <;> cases e
  · exact congrArg byBytes (Subtype.ext hbudget)
  · cases hmode
  · cases hmode
  · exact congrArg byChars (Subtype.ext hbudget)

end Division

/-! ### Names -/

section Output

variable {s : Settings}

theorem isMet_fileStem_iff : IsMet s .fileStem ↔
    ¬ ((Output.trimmed s.output).fileStem.isEmpty ||
      Output.hasSeparator (Output.trimmed s.output).fileStem) = true := by
  rw [Bool.or_eq_true, not_or, List.isEmpty_iff, Bool.not_eq_true,
    Output.hasSeparator_eq_false_iff]
  rfl

theorem isMet_entryPrefix_iff : IsMet s .entryPrefix ↔
    ¬ Output.hasSeparator (Output.trimmed s.output).entryPrefix = true := by
  rw [Bool.not_eq_true, Output.hasSeparator_eq_false_iff]
  rfl

theorem isMet_entryExtension_iff : IsMet s .entryExtension ↔
    ¬ Output.hasSeparator (Output.trimmed s.output).entryExtension = true := by
  rw [Bool.not_eq_true, Output.hasSeparator_eq_false_iff]
  rfl

theorem Output.ofSection_of_isMet (hstem : IsMet s .fileStem) (hpre : IsMet s .entryPrefix)
    (hextension : IsMet s .entryExtension) :
    ofSection s.output = .ok (trimmed s.output) := by
  rw [ofSection, if_neg (isMet_fileStem_iff.1 hstem), if_neg (isMet_entryPrefix_iff.1 hpre),
    if_neg (isMet_entryExtension_iff.1 hextension)]

theorem Output.ofSection_of_not_fileStem (h : ¬ IsMet s .fileStem) :
    ofSection s.output = .error (fault s .fileStem) := by
  rw [isMet_fileStem_iff, not_not] at h
  rw [ofSection, if_pos h]
  rfl

theorem Output.ofSection_of_not_entryPrefix (hstem : IsMet s .fileStem)
    (h : ¬ IsMet s .entryPrefix) : ofSection s.output = .error (fault s .entryPrefix) := by
  rw [isMet_entryPrefix_iff, not_not] at h
  rw [ofSection, if_neg (isMet_fileStem_iff.1 hstem), if_pos h]
  rfl

theorem Output.ofSection_of_not_entryExtension (hstem : IsMet s .fileStem)
    (hpre : IsMet s .entryPrefix) (h : ¬ IsMet s .entryExtension) :
    ofSection s.output = .error (fault s .entryExtension) := by
  rw [isMet_entryExtension_iff, not_not] at h
  rw [ofSection, if_neg (isMet_fileStem_iff.1 hstem), if_neg (isMet_entryPrefix_iff.1 hpre),
    if_pos h]
  rfl

end Output

/-! ### Encodings -/

namespace Encoding

variable {s : Settings} {labels : List Text} {chain : List Encoding}

theorem mapM_ofSetting_eq_ok_iff : labels.mapM ofSetting = .ok chain ↔
    List.Forall₂ (fun label e => isNamed label e = true) labels chain := by
  rw [mapM_eq_ok_iff]
  simp only [ofSetting_eq_ok_iff]

theorem chainOfLabels_of_ne_nil (h : labels ≠ []) :
    chainOfLabels labels = labels.mapM ofSetting := by
  cases labels with
  | nil => exact absurd rfl h
  | cons label labels => rfl

theorem exists_forall₂_isNamed (h : ∀ label ∈ labels, isKnown label = true) :
    ∃ chain, List.Forall₂ (fun label e => isNamed label e = true) labels chain := by
  induction labels with
  | nil => exact ⟨[], .nil⟩
  | cons label labels ih =>
    obtain ⟨hlabel, hlabels⟩ := List.forall_mem_cons.1 h
    obtain ⟨e, he⟩ := isKnown_iff.1 hlabel
    obtain ⟨chain, hc⟩ := ih hlabels
    exact ⟨e :: chain, .cons he hc⟩

theorem exists_chainOfLabels_eq_ok (h : IsMet s .encodings) :
    ∃ chain, chainOfLabels s.extract.encodings = .ok chain ∧
      List.Forall₂ (fun label e => isNamed label e = true) s.extract.encodings chain := by
  obtain ⟨chain, hc⟩ := exists_forall₂_isNamed h.2
  refine ⟨chain, ?_, hc⟩
  rw [chainOfLabels_of_ne_nil h.1]
  exact mapM_ofSetting_eq_ok_iff.2 hc

theorem chainOfLabels_of_not_isMet (h : ¬ IsMet s .encodings) :
    chainOfLabels s.extract.encodings = .error (fault s .encodings) := by
  by_cases hne : s.extract.encodings = []
  · rw [fault, hne]
    rfl
  · have hunknown : ∃ label ∈ s.extract.encodings, isKnown label = false := by
      by_contra hall
      push Not at hall
      exact h ⟨hne, fun label hl => by simpa using hall label hl⟩
    obtain ⟨label, hl⟩ := Option.isSome_iff_exists.1
      (List.find?_isSome (p := fun label => !isKnown label).2 (by simpa using hunknown))
    rw [chainOfLabels_of_ne_nil hne, fault, hl]
    exact mapM_eq_error_of_find? (fun a ha => exists_ofSetting_eq_ok (by simpa using ha))
      (fun a ha => ofSetting_eq_error (by simpa using ha)) hl

end Encoding

/-! ### Plans -/

/-- A plan that carries out settings as they are meant: names without what does not count, and an
encoding for each label. -/
structure IsPlanOf (s : Settings) (p : Plan) : Prop where
  rules : p.rules = s.cleaning
  mode : p.division.mode = s.split.mode
  budget : (p.division.budget : Int) = s.split.budget.toInt
  format : p.output.format = s.output.format
  fileStem : p.output.fileStem = Text.trim s.output.fileStem
  entryPrefix : p.output.entryPrefix = Text.trim s.output.entryPrefix
  entryExtension : p.output.entryExtension =
    (Text.trim s.output.entryExtension).dropWhile (· == '.')
  encodings : List.Forall₂ (fun label e => Encoding.isNamed label e = true)
    s.extract.encodings p.encodings

namespace Plan

variable {s : Settings} {r : Requirement} {p q : Plan}

theorem eq_of_isPlanOf (hp : IsPlanOf s p) (hq : IsPlanOf s q) : p = q := by
  have hdivision : p.division = q.division := by
    refine Division.eq_of_budget (hp.mode.trans hq.mode.symm) ?_
    have := hp.budget.trans hq.budget.symm
    omega
  have houtput : p.output = q.output := by
    rw [Output.mk.injEq]
    exact ⟨hp.format.trans hq.format.symm, hp.fileStem.trans hq.fileStem.symm,
      hp.entryPrefix.trans hq.entryPrefix.symm, hp.entryExtension.trans hq.entryExtension.symm⟩
  have hencodings : p.encodings = q.encodings := by
    have he := (Encoding.mapM_ofSetting_eq_ok_iff.2 hp.encodings).symm.trans
      (Encoding.mapM_ofSetting_eq_ok_iff.2 hq.encodings)
    exact Except.ok.inj he
  rw [Plan.mk.injEq]
  exact ⟨hp.rules.trans hq.rules.symm, hdivision, houtput, hencodings⟩

theorem exists_ofSettings_eq_ok (h : ∀ r, IsMet s r) :
    ∃ p, ofSettings s = .ok p ∧ IsPlanOf s p := by
  obtain ⟨division, hdivision, hmode, hbudget⟩ := Division.ofSection_eq_ok (h .budget)
  have houtput := Output.ofSection_of_isMet (h .fileStem) (h .entryPrefix) (h .entryExtension)
  obtain ⟨chain, hchain, hnamed⟩ := Encoding.exists_chainOfLabels_eq_ok (h .encodings)
  refine ⟨⟨s.cleaning, division, Output.trimmed s.output, chain⟩, ?_, ?_⟩
  · rw [ofSettings, hdivision, houtput, hchain]
    rfl
  · exact ⟨rfl, hmode, hbudget, rfl, rfl, rfl, rfl, hnamed⟩

/-- The checks are made in the order of the requirements, and the first that fails ends them. -/
theorem ofSettings_of_isFirstUnmet (h : IsFirstUnmet s r) :
    ofSettings s = .error (r.fault s) := by
  have hmet := h.met
  cases r with
  | budget =>
    rw [ofSettings, Division.ofSection_eq_error h.unmet]
    rfl
  | fileStem =>
    obtain ⟨division, hdivision, -, -⟩ := Division.ofSection_eq_ok (hmet .budget (by decide))
    rw [ofSettings, hdivision, Output.ofSection_of_not_fileStem h.unmet]
    rfl
  | entryPrefix =>
    obtain ⟨division, hdivision, -, -⟩ := Division.ofSection_eq_ok (hmet .budget (by decide))
    rw [ofSettings, hdivision,
      Output.ofSection_of_not_entryPrefix (hmet .fileStem (by decide)) h.unmet]
    rfl
  | entryExtension =>
    obtain ⟨division, hdivision, -, -⟩ := Division.ofSection_eq_ok (hmet .budget (by decide))
    rw [ofSettings, hdivision, Output.ofSection_of_not_entryExtension
      (hmet .fileStem (by decide)) (hmet .entryPrefix (by decide)) h.unmet]
    rfl
  | encodings =>
    obtain ⟨division, hdivision, -, -⟩ := Division.ofSection_eq_ok (hmet .budget (by decide))
    rw [ofSettings, hdivision, Output.ofSection_of_isMet (hmet .fileStem (by decide))
      (hmet .entryPrefix (by decide)) (hmet .entryExtension (by decide)),
      Encoding.chainOfLabels_of_not_isMet h.unmet]
    rfl

theorem exists_isFirstUnmet (h : ¬ ∀ r, IsMet s r) : ∃ r, IsFirstUnmet s r := by
  rw [not_forall] at h
  obtain ⟨r, hr, hmin⟩ := (measure Requirement.place).wf.has_min {r | ¬ IsMet s r} h
  exact ⟨r, hr, fun q hq => by_contra fun hn => hmin q hn hq⟩

/-- Settings have a plan if and only if they meet all requirements, and then it is the one that they
describe; else they are refused for the first requirement that they do not meet. -/
theorem ofSettings_isPlanOf_or_isFirstUnmet (s : Settings) :
    ((∃ p, ofSettings s = .ok p) ↔ ∀ r, IsMet s r) ∧
    (∀ p, ofSettings s = .ok p ↔ (∀ r, IsMet s r) ∧ IsPlanOf s p) ∧
    ∀ f, ofSettings s = .error f ↔ ∃ r, IsFirstUnmet s r ∧ f = r.fault s := by
  by_cases h : ∀ r, IsMet s r
  · obtain ⟨p, hp, hplan⟩ := exists_ofSettings_eq_ok h
    refine ⟨iff_of_true ⟨p, hp⟩ h, fun q => ?_, fun f => ?_⟩
    · rw [hp, Except.ok.injEq]
      constructor
      · rintro rfl
        exact ⟨h, hplan⟩
      · rintro ⟨-, hq⟩
        exact eq_of_isPlanOf hplan hq
    · rw [hp]
      exact iff_of_false nofun fun ⟨r, hr, _⟩ => hr.unmet (h r)
  · obtain ⟨r, hr⟩ := exists_isFirstUnmet h
    have hfault := ofSettings_of_isFirstUnmet hr
    refine ⟨iff_of_false ?_ h, fun q => ?_, fun f => ?_⟩
    · rintro ⟨p, hp⟩
      rw [hfault] at hp
      cases hp
    · rw [hfault]
      exact iff_of_false nofun fun hq => h hq.1
    · rw [hfault, Except.error.injEq]
      constructor
      · rintro rfl
        exact ⟨r, hr, rfl⟩
      · rintro ⟨q, hq, rfl⟩
        rw [hr.eq hq]

end Plan

end Quire
