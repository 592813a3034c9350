import Mathlib.Data.List.SplitBy

/-!
# Runs of a list

A run of a list is a longest piece whose elements agree on a property. `AreRuns` says what the runs
of a list are without cutting anything, and every list has exactly one such cut, which `runs` gives
(`runs_eq_iff`). Between the elements with the property, the pieces that are not empty are the runs
of the other elements (`filter_splitOnP`).
-/

namespace Quire

variable {α : Type} {p : α → Bool} {as run : List α} {rs : List (List α)}

/-- The lists are not empty, the elements of each agree on `p`, and those of neighbours do not, so
that none of them could be longer. -/
structure AreRuns (p : α → Bool) (rs : List (List α)) : Prop where
  filled : ∀ run ∈ rs, run ≠ []
  uniform : ∀ run ∈ rs, ∀ a ∈ run, ∀ b ∈ run, p a = p b
  alternate : rs.IsChain fun run next => ∀ a ∈ run, ∀ b ∈ next, p a ≠ p b

/-- The longest pieces of a list whose elements agree on `p`, in order. -/
def runs (p : α → Bool) (as : List α) : List (List α) := as.splitBy (p · == p ·)

/-! ### The one cut into runs -/

theorem isChain_agree_iff :
    run.IsChain (fun a b => p a == p b) ↔ ∀ a ∈ run, ∀ b ∈ run, p a = p b := by
  induction run with
  | nil => simp
  | cons a run ih =>
    rw [List.isChain_cons, ih]
    constructor
    · rintro ⟨hhead, h⟩
      have ha : ∀ b ∈ run, p a = p b := by
        intro b hb
        obtain ⟨c, run, rfl⟩ := List.exists_cons_of_ne_nil (List.ne_nil_of_mem hb)
        have hc : p a = p c := by simpa using hhead c rfl
        rw [hc, h c List.mem_cons_self b hb]
      refine List.forall_mem_cons.2 ⟨List.forall_mem_cons.2 ⟨rfl, ha⟩, fun b hb => ?_⟩
      exact List.forall_mem_cons.2 ⟨(ha b hb).symm, h b hb⟩
    · intro h
      refine ⟨fun b hb => ?_, fun b hb c hc =>
        h b (List.mem_cons_of_mem a hb) c (List.mem_cons_of_mem a hc)⟩
      simpa using h a List.mem_cons_self b (List.mem_cons_of_mem a (List.mem_of_mem_head? hb))

/-- Where two lists of agreeing elements meet, one pair that does not agree stands for all. -/
theorem disagree_iff {next : List α} (hrun : run ≠ [] ∧ ∀ a ∈ run, ∀ b ∈ run, p a = p b)
    (hnext : next ≠ [] ∧ ∀ a ∈ next, ∀ b ∈ next, p a = p b) :
    (∃ ha hb, (p (run.getLast ha) == p (next.head hb)) = false) ↔
      ∀ a ∈ run, ∀ b ∈ next, p a ≠ p b := by
  simp only [hrun.1, hnext.1, ne_eq, not_false_eq_true, exists_true_left, beq_eq_false_iff_ne]
  constructor
  · intro h a ha b hb
    rwa [hrun.2 a ha _ (List.getLast_mem hrun.1), hnext.2 b hb _ (List.head_mem hnext.1)]
  · exact fun h => h _ (List.getLast_mem hrun.1) _ (List.head_mem hnext.1)

/-- A list has exactly one cut into runs. -/
theorem runs_eq_iff : runs p as = rs ↔ rs.flatten = as ∧ AreRuns p rs := by
  have hchain (hf : ∀ run ∈ rs, run ≠ []) (hu : ∀ run ∈ rs, ∀ a ∈ run, ∀ b ∈ run, p a = p b) :=
    List.IsChain.iff_of_mem_imp fun run next hr hn =>
      disagree_iff ⟨hf run hr, hu run hr⟩ ⟨hf next hn, hu next hn⟩
  have hfilled : [] ∉ rs ↔ ∀ run ∈ rs, run ≠ [] :=
    ⟨fun h run hr he => h (he ▸ hr), fun h hm => h [] hm rfl⟩
  rw [runs, List.splitBy_eq_iff, hfilled]
  simp only [isChain_agree_iff]
  constructor
  · rintro ⟨he, hf, hu, ha⟩
    exact ⟨he.symm, hf, hu, (hchain hf hu).1 ha⟩
  · rintro ⟨he, hf, hu, ha⟩
    exact ⟨he.symm, hf, hu, (hchain hf hu).2 ha⟩

theorem flatten_runs (p : α → Bool) (as : List α) : (runs p as).flatten = as :=
  (runs_eq_iff.1 rfl).1

theorem areRuns_runs (p : α → Bool) (as : List α) : AreRuns p (runs p as) := (runs_eq_iff.1 rfl).2

/-! ### Runs without the property -/

theorem AreRuns.tail (h : AreRuns p (run :: rs)) : AreRuns p rs where
  filled := (List.forall_mem_cons.1 h.filled).2
  uniform := (List.forall_mem_cons.1 h.uniform).2
  alternate := h.alternate.tail

/-- After a run without the property comes an element that has it. -/
theorem AreRuns.head?_flatten (h : AreRuns p (run :: rs)) (hrun : ∀ a ∈ run, p a = false) :
    ∀ b ∈ rs.flatten.head?, p b := by
  intro b hb
  cases rs with
  | nil => exact absurd hb (by simp)
  | cons next rs =>
    have hne : next ≠ [] := h.filled next (by simp)
    obtain ⟨a, ha⟩ := List.exists_mem_of_ne_nil run (h.filled run List.mem_cons_self)
    rw [List.flatten_cons, List.head?_append_of_ne_nil _ hne] at hb
    have hab := (List.isChain_cons_cons.1 h.alternate).1 a ha b (List.mem_of_mem_head? hb)
    rw [hrun a ha] at hab
    exact eq_true_of_ne_false hab.symm

/-- One element of a run stands for all. -/
theorem AreRuns.all_eq {a : α} (h : AreRuns p rs) (hrun : run ∈ rs) (ha : a ∈ run) :
    run.all p = p a := by
  have hu := fun b hb => h.uniform run hrun b hb a ha
  cases hpa : p a with
  | true => exact List.all_eq_true.2 fun b hb => (hu b hb).trans hpa
  | false => exact List.all_eq_false.2 ⟨a, ha, by rw [hpa]; decide⟩

theorem AreRuns.all_cases (h : AreRuns p rs) (hrun : run ∈ rs) :
    (run.all p = true ∧ ∀ a ∈ run, p a) ∨ run.all p = false ∧ ∀ a ∈ run, p a = false := by
  cases hall : run.all p with
  | true => exact Or.inl ⟨rfl, fun a ha => (h.all_eq hrun ha).symm.trans hall⟩
  | false => exact Or.inr ⟨rfl, fun a ha => (h.all_eq hrun ha).symm.trans hall⟩

theorem filter_splitOnP_cons {a : α} (ha : p a) (as : List α) :
    ((a :: as).splitOnP p).filter (!·.isEmpty) = (as.splitOnP p).filter (!·.isEmpty) := by
  rw [List.splitOnP_cons_eq_if_modifyHead, if_pos ha]
  rfl

theorem filter_splitOnP_append {bs : List α} (h : ∀ a ∈ as, p a) :
    ((as ++ bs).splitOnP p).filter (!·.isEmpty) = (bs.splitOnP p).filter (!·.isEmpty) := by
  induction as with
  | nil => rfl
  | cons a as ih =>
    obtain ⟨ha, has⟩ := List.forall_mem_cons.1 h
    rw [List.cons_append, filter_splitOnP_cons ha, ih has]

theorem filter_splitOnP_flatten (h : AreRuns p rs) :
    (rs.flatten.splitOnP p).filter (!·.isEmpty) = rs.filter (!·.all p) := by
  induction rs with
  | nil => rfl
  | cons run rs ih =>
    have hne : run ≠ [] := h.filled run List.mem_cons_self
    rw [List.flatten_cons, List.filter_cons, ← ih h.tail]
    rcases h.all_cases List.mem_cons_self with ⟨hall, hrun⟩ | ⟨hall, hrun⟩
    · rw [filter_splitOnP_append hrun, hall]
      rfl
    · have hhead := h.head?_flatten hrun
      rw [hall, Bool.not_false, if_pos rfl]
      cases hrest : rs.flatten with
      | nil =>
        rw [List.append_nil, List.splitOnP_eq_singleton hrun]
        simp [hne]
      | cons b bs =>
        rw [hrest] at hhead
        have hb : p b := hhead b rfl
        rw [List.splitOnP_append_cons run bs hb, List.filter_append, filter_splitOnP_cons hb,
          List.splitOnP_eq_singleton hrun]
        simp [hne]

/-- The pieces between the elements with the property are the runs of the other elements, if empty
pieces do not count. -/
theorem filter_splitOnP (p : α → Bool) (as : List α) :
    (as.splitOnP p).filter (!·.isEmpty) = (runs p as).filter (!·.all p) := by
  rw [← filter_splitOnP_flatten (areRuns_runs p as), flatten_runs]

end Quire
