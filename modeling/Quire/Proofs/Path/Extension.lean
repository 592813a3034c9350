import Mathlib.Data.List.TakeDrop
import Mathlib.Data.List.TakeWhile
import Quire.Proofs.Path

/-!
# File names and extensions

The name at the end of a path is its last component, whatever stands above it
(`fileName?_append_cons`), and slashes and dots after it do not count (`components_append_flatten`).
What follows its last dot is the extension, if something stands before the dot
(`extension?_eq_some_iff`). Small letters in place of capitals make no other components, names and
extensions (`extension?_lowercase`).
-/

namespace Quire

/-! ### Small letters -/

namespace Text

variable {c d : Char} {s t : Text}

theorem toNat_toLower (c : Char) :
    c.toLower.toNat = if 65 ≤ c.toNat ∧ c.toNat ≤ 90 then c.toNat + 32 else c.toNat := by
  have hcapital : (c.val ≥ 'A'.val ∧ c.val ≤ 'Z'.val) ↔ 65 ≤ c.toNat ∧ c.toNat ≤ 90 :=
    and_congr UInt32.le_iff_toNat_le UInt32.le_iff_toNat_le
  unfold Char.toLower
  split
  · next h =>
    have hle := (hcapital.1 h).2
    rw [if_pos (hcapital.1 h)]
    show (c.val + 32).toNat = c.val.toNat + 32
    have hval : c.val.toNat ≤ 90 := hle
    rw [UInt32.toNat_add]
    have : (32 : UInt32).toNat = 32 := rfl
    omega
  · next h => rw [if_neg fun hc => h (hcapital.2 hc)]

theorem toLower_toLower (c : Char) : c.toLower.toLower = c.toLower := by
  rw [← Char.toNat_inj, toNat_toLower c.toLower, toNat_toLower]
  split_ifs <;> omega

/-- What is no letter and comes before them is made by no other character. -/
theorem toLower_eq_iff (hd : d.toNat < 65) : c.toLower = d ↔ c = d := by
  rw [← Char.toNat_inj, ← Char.toNat_inj, toNat_toLower]
  split_ifs <;> omega

theorem lowercase_lowercase (t : Text) : lowercase (lowercase t) = lowercase t := by
  rw [lowercase, lowercase, List.map_map]
  exact List.map_congr_left fun c _ => toLower_toLower c

theorem lowercase_eq_iff (ht : t.all (·.toNat < 65)) : lowercase s = t ↔ s = t := by
  induction t generalizing s with
  | nil => exact List.map_eq_nil_iff
  | cons d t ih =>
    rw [List.all_cons, Bool.and_eq_true, decide_eq_true_eq] at ht
    obtain ⟨hd, ht⟩ := ht
    cases s with
    | nil => exact iff_of_false (List.cons_ne_nil d t).symm (List.cons_ne_nil d t).symm
    | cons c s =>
      have hs : lowercase (c :: s) = c.toLower :: lowercase s := rfl
      rw [hs, List.cons.injEq, List.cons.injEq, toLower_eq_iff hd, ih ht]

theorem mem_lowercase_iff (hd : d.toNat < 65) : d ∈ lowercase t ↔ d ∈ t := by
  rw [lowercase, List.mem_map]
  constructor
  · rintro ⟨c, hc, he⟩
    rwa [(toLower_eq_iff hd).1 he] at hc
  · intro h
    exact ⟨d, h, (toLower_eq_iff hd).2 rfl⟩

end Text

namespace Path

variable {d n p q s t : Text}

/-! ### Names -/

theorem fileName?_of_isName (hn : IsName n) : fileName? n = some n := by
  rw [fileName?, components_of_isName hn, List.getLast?_singleton, Option.filter_some_eq_some]
  simpa using hn.ne_dots

theorem fileName?_append_cons (hn : IsName n) (d : Text) :
    fileName? (d ++ '/' :: n) = some n := by
  rw [← fileName?_of_isName hn, fileName?, components_append_cons, components_of_isName hn,
    List.getLast?_concat, fileName?, components_of_isName hn, List.getLast?_singleton]

theorem isName_of_fileName?_eq_some (h : fileName? p = some n) : IsName n := by
  obtain ⟨hlast, hdots⟩ := Option.filter_eq_some_iff.1 h
  obtain ⟨hseg, hcounts⟩ := List.mem_filter.1 (List.mem_of_getLast? hlast)
  simp only [Bool.not_eq_true', Bool.or_eq_false_iff, beq_eq_false_iff_ne] at hcounts
  exact ⟨hcounts.1, hcounts.2, by simpa using hdots, slash_not_mem_of_mem_segments hseg⟩

/-- The name at the end of a path is its own name, and a path without one has the empty name. -/
theorem fileName?_getD (p : Text) : fileName? ((fileName? p).getD []) = fileName? p := by
  cases hp : fileName? p with
  | none => rfl
  | some n => exact fileName?_of_isName (isName_of_fileName?_eq_some hp)

/-- Dots lead up, and are no name. -/
theorem fileName?_append_dots (d : Text) : fileName? (d ++ ['/', '.', '.']) = none := by
  have hdots : components ['.', '.'] = [['.', '.']] := by decide
  rw [fileName?, components_append_cons, hdots, List.getLast?_concat]
  rfl

/-- Slashes at the end of a path do not count, alone or with a dot. -/
theorem components_append_flatten {ts : List Text} (h : ∀ t ∈ ts, t = ['/'] ∨ t = ['/', '.'])
    (p : Text) : components (p ++ ts.flatten) = components p := by
  induction ts generalizing p with
  | nil => rw [List.flatten_nil, List.append_nil]
  | cons t ts ih =>
    obtain ⟨ht, hts⟩ := List.forall_mem_cons.1 h
    have hend : components (p ++ t) = components p := by
      rcases ht with rfl | rfl
      · rw [components_append_cons, show components [] = [] from by decide, List.append_nil]
      · rw [components_append_cons, show components ['.'] = [] from by decide, List.append_nil]
    rw [List.flatten_cons, ← List.append_assoc, ih hts, hend]

/-! ### Extensions -/

theorem splitLastDot?_eq_some_iff {before after : Text} :
    splitLastDot? n = some (before, after) ↔ n = before ++ '.' :: after ∧ '.' ∉ after := by
  unfold splitLastDot?
  rw [List.span_eq_takeWhile_dropWhile]
  constructor
  · intro h
    split at h
    · next a c b heq =>
      rw [Prod.mk.injEq] at heq
      obtain ⟨rfl, hdrop⟩ := heq
      rw [Option.some.injEq, Prod.mk.injEq] at h
      obtain ⟨rfl, rfl⟩ := h
      have hc : c = '.' := by
        have := List.head?_dropWhile_not (· != '.') n.reverse
        rw [hdrop] at this
        simpa using this
      have hn := List.takeWhile_append_dropWhile (p := (· != '.')) (l := n.reverse)
      rw [hdrop, hc] at hn
      refine ⟨?_, fun hm => ?_⟩
      · simpa using (congrArg List.reverse hn).symm
      · exact absurd (List.mem_takeWhile_imp (List.mem_reverse.1 hm)) (by decide)
    · cases h
  · rintro ⟨rfl, hdot⟩
    have hafter : ∀ c ∈ after.reverse, (c != '.') = true := by
      intro c hc
      rw [bne_iff_ne]
      rintro rfl
      exact hdot (List.mem_reverse.1 hc)
    have hreverse : (before ++ '.' :: after).reverse = after.reverse ++ '.' :: before.reverse := by
      simp
    rw [hreverse, List.takeWhile_append_of_pos hafter, List.dropWhile_append_of_pos hafter]
    simp

/-- The extension of the name at the end of a path is what follows its last dot. -/
theorem extension?_eq_some_iff {e : Text} : extension? p = some e ↔
    ∃ stem, stem ≠ [] ∧ fileName? p = some (stem ++ '.' :: e) ∧ '.' ∉ e := by
  have hsplit : extension? p = some e ↔ ∃ stem, stem ≠ [] ∧
      (fileName? p).bind splitLastDot? = some (stem, e) := by
    unfold extension?
    split
    · next heq => simp [heq]
    · next hne =>
      refine iff_of_false nofun ?_
      rintro ⟨stem, hstem, heq⟩
      obtain ⟨c, stem, rfl⟩ := List.exists_cons_of_ne_nil hstem
      exact hne c stem e heq
  rw [hsplit]
  simp only [Option.bind_eq_some_iff, splitLastDot?_eq_some_iff]
  constructor
  · rintro ⟨stem, hstem, n, hn, rfl, he⟩
    exact ⟨stem, hstem, hn, he⟩
  · rintro ⟨stem, hstem, hn, he⟩
    exact ⟨stem, hstem, _, hn, rfl, he⟩

theorem extension?_congr (h : fileName? p = fileName? q) : extension? p = extension? q := by
  rw [extension?, extension?, h]

/-! ### Small letters in paths -/

theorem segments_lowercase (p : Text) :
    segments (Text.lowercase p) = (segments p).map Text.lowercase := by
  have hslash : (· == '/') ∘ Char.toLower = (· == '/') := by
    funext c
    rw [Function.comp_apply, Bool.eq_iff_iff, beq_iff_eq, beq_iff_eq]
    exact Text.toLower_eq_iff (by decide)
  rw [segments, Text.lowercase, List.splitOnP_map, hslash]
  rfl

theorem components_lowercase (p : Text) :
    components (Text.lowercase p) = (components p).map Text.lowercase := by
  rw [components, segments_lowercase, List.filter_map]
  refine congrArg (List.map Text.lowercase) (List.filter_congr fun s _ => ?_)
  have hnil : Text.lowercase s = [] ↔ s = [] := Text.lowercase_eq_iff (by decide)
  have hdot : Text.lowercase s = ['.'] ↔ s = ['.'] := Text.lowercase_eq_iff (by decide)
  rw [Bool.eq_iff_iff]
  simp [hnil, hdot]

theorem fileName?_lowercase (p : Text) :
    fileName? (Text.lowercase p) = (fileName? p).map Text.lowercase := by
  rw [fileName?, components_lowercase, List.getLast?_map, Option.filter_map]
  refine congrArg (Option.map Text.lowercase) ?_
  have hdots (s : Text) : Text.lowercase s = ['.', '.'] ↔ s = ['.', '.'] :=
    Text.lowercase_eq_iff (by decide)
  rw [fileName?]
  congr 1
  funext s
  rw [Function.comp_apply, Bool.eq_iff_iff, bne_iff_ne, bne_iff_ne, ne_eq, ne_eq, hdots]

theorem splitLastDot?_lowercase (n : Text) :
    splitLastDot? (Text.lowercase n) =
      (splitLastDot? n).map (Prod.map Text.lowercase Text.lowercase) := by
  have hdot : (· != '.') ∘ Char.toLower = (· != '.') := by
    funext c
    rw [Function.comp_apply, Bool.eq_iff_iff, bne_iff_ne, bne_iff_ne, ne_eq, ne_eq,
      Text.toLower_eq_iff (by decide)]
  unfold splitLastDot?
  rw [Text.lowercase, ← List.map_reverse, List.span_eq_takeWhile_dropWhile,
    List.span_eq_takeWhile_dropWhile, List.takeWhile_map, List.dropWhile_map, hdot]
  cases List.dropWhile (· != '.') n.reverse with
  | nil => rfl
  | cons c before => simp [Text.lowercase]

theorem extension?_lowercase (p : Text) :
    extension? (Text.lowercase p) = (extension? p).map Text.lowercase := by
  unfold extension?
  rw [fileName?_lowercase]
  cases fileName? p with
  | none => rfl
  | some n =>
    rw [Option.map_some, Option.bind_some, Option.bind_some, splitLastDot?_lowercase]
    cases splitLastDot? n with
    | none => rfl
    | some parts =>
      obtain ⟨stem, e⟩ := parts
      cases stem with
      | nil => rfl
      | cons c stem => rfl

end Path

end Quire
