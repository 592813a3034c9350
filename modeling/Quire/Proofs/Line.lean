import Mathlib.Data.List.Chain
import Quire.Line
import Quire.Proofs.Text.Blank

/-!
# The lines of a text

`body` and `terminator` are the two parts of a line. A list of texts is a list of lines
(`AreLines`) if their bodies have no line breaks and all but the last have a terminator; the lines
of a text are one (`areLines_split`). Of such a list without empty lines, put together and cut
again, all lines come back but those that a carriage return and a line feed join: `split_flatten`
says so with `fuse`, and `fuse_eq_self_iff` when there are none.
-/

namespace Quire.Line

/-- What a line says. -/
def body (line : Text) : Text := (splitTerminator line).1

/-- What ends a line. -/
def terminator (line : Text) : Text := (splitTerminator line).2

/-- What may end a line, the end of the text included. -/
inductive IsTerminator : Text → Prop
  | none : IsTerminator []
  | lf : IsTerminator ['\n']
  | cr : IsTerminator ['\r']
  | crlf : IsTerminator ['\r', '\n']

/-- A text without line breaks. -/
def Unbroken (t : Text) : Prop := '\n' ∉ t ∧ '\r' ∉ t

variable {b l m e t : Text} {c : Char} {ls : List Text}

theorem unbroken_nil : Unbroken [] := ⟨List.not_mem_nil, List.not_mem_nil⟩

theorem unbroken_cons : Unbroken (c :: t) ↔ (c ≠ '\n' ∧ c ≠ '\r') ∧ Unbroken t := by
  simp only [Unbroken, List.mem_cons, not_or, ne_comm, ne_eq]
  tauto

/-- Line breaks are white space, and none of them is a space. -/
theorem unbroken_of_spaces (h : ∀ c ∈ t, isBlank c → c = ' ') : Unbroken t :=
  ⟨fun hc => absurd (h _ hc (by decide)) (by decide),
    fun hc => absurd (h _ hc (by decide)) (by decide)⟩

/-! ### Body and terminator -/

theorem body_append_terminator (line : Text) : body line ++ terminator line = line := by
  unfold body terminator splitTerminator
  split
  case h_4 => exact List.append_nil line
  all_goals
    next h =>
    rw [← List.reverse_inj, h]
    simp

theorem isTerminator_terminator (line : Text) : IsTerminator (terminator line) := by
  unfold terminator splitTerminator
  split
  · exact .crlf
  · exact .lf
  · exact .cr
  · exact .none

theorem isBlank_of_mem_terminator (line : Text) : ∀ c ∈ terminator line, isBlank c := by
  have h := isTerminator_terminator line
  generalize terminator line = e at h
  cases h <;> simp [isBlank]

theorem body_isPrefix (line : Text) : body line <+: line := ⟨_, body_append_terminator line⟩

/-- A body that does not end in half a line break is found again in front of a terminator. -/
theorem splitTerminator_append (hn : '\n' ∉ b.getLast?) (hr : '\r' ∉ b.getLast?)
    (he : IsTerminator e) : splitTerminator (b ++ e) = (b, e) := by
  rw [← List.head?_reverse] at hn hr
  obtain ⟨r, rfl⟩ : ∃ r, b = r.reverse := ⟨b.reverse, b.reverse_reverse.symm⟩
  rw [List.reverse_reverse] at hn hr
  unfold splitTerminator
  cases he with
  | none =>
    rw [List.append_nil, List.reverse_reverse]
    split <;> simp_all
  | lf =>
    rw [List.reverse_append, List.reverse_reverse]
    cases r <;> simp_all
  | cr =>
    rw [List.reverse_append, List.reverse_reverse]
    simp
  | crlf =>
    rw [List.reverse_append, List.reverse_reverse]
    simp

theorem Unbroken.splitTerminator_append (hb : Unbroken b) (he : IsTerminator e) :
    splitTerminator (b ++ e) = (b, e) :=
  Line.splitTerminator_append (fun h => hb.1 (List.mem_of_mem_getLast? h))
    (fun h => hb.2 (List.mem_of_mem_getLast? h)) he

theorem Unbroken.body_append (hb : Unbroken b) (he : IsTerminator e) : body (b ++ e) = b :=
  congrArg Prod.fst (hb.splitTerminator_append he)

/-- A terminator that is put after a text can only take more of the text's end with it. -/
theorem body_append_isPrefix (b : Text) (he : IsTerminator e) : body (b ++ e) <+: b := by
  obtain ⟨r, rfl⟩ : ∃ r, b = r.reverse := ⟨b.reverse, b.reverse_reverse.symm⟩
  unfold body splitTerminator
  cases he with
  | none =>
    rw [List.append_nil]
    exact body_isPrefix r.reverse
  | lf =>
    rw [List.reverse_append, List.reverse_reverse]
    rcases r with _ | ⟨c, r⟩
    · exact List.prefix_rfl
    · by_cases hc : c = '\r'
      · subst hc
        simp
      · simp [hc]
  | cr =>
    rw [List.reverse_append, List.reverse_reverse]
    simp
  | crlf =>
    rw [List.reverse_append, List.reverse_reverse]
    simp

/-! ### Cutting a text -/

theorem split_cons (c : Char) (t : Text) : split (c :: t) = splitStep c (split t) := rfl

theorem flatten_splitStep (c : Char) (ls : List Text) :
    (splitStep c ls).flatten = c :: ls.flatten := by
  unfold splitStep
  split <;> simp

theorem flatten_split (t : Text) : (split t).flatten = t := by
  induction t with
  | nil => rfl
  | cons c t ih => rw [split_cons, flatten_splitStep, ih]

theorem split_inj {s : Text} : split s = split t ↔ s = t := by
  refine ⟨fun h => ?_, congrArg split⟩
  rw [← flatten_split s, h, flatten_split]

theorem splitStep_of_ne_break (hn : c ≠ '\n') (hr : c ≠ '\r') (ls : List Text) :
    splitStep c ls = (c :: ls.headD []) :: ls.tail := by
  unfold splitStep
  split <;> simp_all

theorem splitStep_cr (ls : List Text) :
    (∃ rest, ls = ['\n'] :: rest ∧ splitStep '\r' ls = ['\r', '\n'] :: rest) ∨
      (ls.head? ≠ some ['\n'] ∧ splitStep '\r' ls = ['\r'] :: ls) := by
  unfold splitStep
  split
  · next h => exact absurd h (by decide)
  · next rest _ => exact Or.inl ⟨rest, rfl, rfl⟩
  · next hne =>
    refine Or.inr ⟨fun h => ?_, rfl⟩
    obtain ⟨rest, rfl⟩ := List.head?_eq_some_iff.1 h
    exact hne rest rfl
  · next h => exact absurd rfl h
  · next h => exact absurd rfl h

theorem ne_nil_of_mem_splitStep (h : ∀ l ∈ ls, l ≠ []) : ∀ l ∈ splitStep c ls, l ≠ [] := by
  unfold splitStep
  split <;> simp_all

theorem ne_nil_of_mem_split (h : l ∈ split t) : l ≠ [] := by
  induction t generalizing l with
  | nil => exact absurd h List.not_mem_nil
  | cons c t ih => exact ne_nil_of_mem_splitStep (fun _ => ih) l h

/-! ### Lists of lines -/

/-- Bodies have no line breaks, and only the last line may lack a terminator. -/
structure AreLines (ls : List Text) : Prop where
  unbroken : ∀ l ∈ ls, Unbroken (body l)
  terminated : ls.Pairwise fun l _ => terminator l ≠ []

theorem AreLines.sublist {ls' : List Text} (h : AreLines ls) (hs : ls'.Sublist ls) :
    AreLines ls' where
  unbroken l hl := h.unbroken l (hs.subset hl)
  terminated := h.terminated.sublist hs

theorem areLines_cons : AreLines (l :: ls) ↔
    (Unbroken (body l) ∧ (ls ≠ [] → terminator l ≠ [])) ∧ AreLines ls := by
  constructor
  · rintro ⟨hu, ht⟩
    rw [List.forall_mem_cons] at hu
    rw [List.pairwise_cons] at ht
    refine ⟨⟨hu.1, fun hne => ?_⟩, hu.2, ht.2⟩
    obtain ⟨m, hm⟩ := List.exists_mem_of_ne_nil ls hne
    exact ht.1 m hm
  · rintro ⟨⟨hb, ht⟩, h⟩
    exact ⟨List.forall_mem_cons.2 ⟨hb, h.unbroken⟩,
      List.pairwise_cons.2 ⟨fun m hm => ht (List.ne_nil_of_mem hm), h.terminated⟩⟩

theorem areLines_nil : AreLines [] := ⟨fun _ h => absurd h List.not_mem_nil, .nil⟩

/-- Only the last line can be empty. -/
theorem AreLines.ne_nil_of_mem_dropLast (h : AreLines ls) (hl : l ∈ ls.dropLast) : l ≠ [] := by
  rcases List.eq_nil_or_concat' ls with rfl | ⟨init, last, rfl⟩
  · exact absurd hl List.not_mem_nil
  · rw [List.dropLast_concat] at hl
    rintro rfl
    exact (List.pairwise_append.1 h.terminated).2.2 _ hl last List.mem_cons_self rfl

/-- A character that is no line break goes to the body of the line that it is put in front of. -/
theorem splitTerminator_cons (hn : c ≠ '\n') (hr : c ≠ '\r') (hl : Unbroken (body l)) :
    splitTerminator (c :: l) = (c :: body l, terminator l) := by
  have hc : Unbroken (c :: body l) := unbroken_cons.2 ⟨⟨hn, hr⟩, hl⟩
  have := hc.splitTerminator_append (isTerminator_terminator l)
  rwa [List.cons_append, body_append_terminator] at this

theorem areLines_splitStep (h : AreLines ls) : AreLines (splitStep c ls) := by
  by_cases hn : c = '\n'
  · subst hn
    exact areLines_cons.2 ⟨⟨unbroken_nil, fun _ => by decide⟩, h⟩
  by_cases hr : c = '\r'
  · subst hr
    rcases splitStep_cr ls with ⟨rest, rfl, hs⟩ | ⟨-, hs⟩ <;> rw [hs]
    · exact areLines_cons.2 ⟨⟨unbroken_nil, fun _ => by decide⟩, (areLines_cons.1 h).2⟩
    · exact areLines_cons.2 ⟨⟨unbroken_nil, fun _ => by decide⟩, h⟩
  · rw [splitStep_of_ne_break hn hr]
    have key : ∀ l, Unbroken (body l) →
        Unbroken (body (c :: l)) ∧ terminator (c :: l) = terminator l := by
      intro l hl
      have hs := splitTerminator_cons hn hr hl
      rw [body, terminator, hs]
      exact ⟨unbroken_cons.2 ⟨⟨hn, hr⟩, hl⟩, rfl⟩
    cases ls with
    | nil => exact areLines_cons.2 ⟨⟨(key [] unbroken_nil).1, fun h => absurd rfl h⟩, h⟩
    | cons l ls =>
      obtain ⟨⟨hb, ht⟩, hls⟩ := areLines_cons.1 h
      obtain ⟨hb', ht'⟩ := key l hb
      exact areLines_cons.2 ⟨⟨hb', fun hne => ht' ▸ ht hne⟩, hls⟩

theorem areLines_split (t : Text) : AreLines (split t) := by
  induction t with
  | nil => exact areLines_nil
  | cons c t ih => exact areLines_splitStep ih

/-- Solid pieces lie within one body. -/
theorem AreLines.free_flatten {P : Text → Prop} (h : AreLines ls)
    (hP : ∀ w, P w → Text.IsSolid w) (hf : ∀ l ∈ ls, Text.Free P (body l)) :
    Text.Free P ls.flatten := by
  induction ls with
  | nil =>
    intro w hw hPw
    exact (hP w hPw).ne_nil (List.infix_nil.1 hw)
  | cons l ls ih =>
    obtain ⟨⟨-, ht⟩, hls⟩ := areLines_cons.1 h
    obtain ⟨hl, hfls⟩ := List.forall_mem_cons.1 hf
    rw [List.flatten_cons]
    by_cases he : terminator l = []
    · obtain rfl : ls = [] := by_contra fun hne => ht hne he
      have hb := body_append_terminator l
      rw [he, List.append_nil] at hb
      rwa [List.flatten_nil, List.append_nil, ← hb]
    · rw [← body_append_terminator l]
      refine hl.append_of_separator (ih hls hfls) he fun w hw c hc hcw => ?_
      exact (hP w hw).visible c hcw (isBlank_of_mem_terminator l c hc)

/-! ### Cutting lines that were put together -/

theorem split_append (hb : Unbroken b) (h : split t = l :: ls) :
    split (b ++ t) = (b ++ l) :: ls := by
  induction b with
  | nil => exact h
  | cons c b ih =>
    obtain ⟨⟨hn, hr⟩, hb⟩ := unbroken_cons.1 hb
    rw [List.cons_append, split_cons, ih hb, splitStep_of_ne_break hn hr]
    rfl

theorem split_of_unbroken (hb : Unbroken b) (hne : b ≠ []) : split b = [b] := by
  induction b with
  | nil => exact absurd rfl hne
  | cons c b ih =>
    obtain ⟨⟨hn, hr⟩, hb⟩ := unbroken_cons.1 hb
    rw [split_cons, splitStep_of_ne_break hn hr]
    by_cases he : b = []
    · subst he
      rfl
    · rw [ih hb he]
      rfl

theorem split_terminator_append (he : IsTerminator e) (hne : e ≠ [])
    (h : ¬ (e = ['\r'] ∧ '\n' ∈ t.head?)) : split (e ++ t) = e :: split t := by
  cases he with
  | none => exact absurd rfl hne
  | lf => rfl
  | crlf => rfl
  | cr =>
    rw [List.singleton_append, split_cons]
    rcases splitStep_cr (split t) with ⟨rest, hs, -⟩ | ⟨-, hs⟩
    · have ht := flatten_split t
      rw [hs] at ht
      exact absurd ⟨rfl, by rw [← ht]; rfl⟩ h
    · exact hs

/-- A line with its terminator is cut off, unless a line feed joins its carriage return. -/
theorem split_line_append (hb : Unbroken (body l)) (ht : terminator l ≠ [])
    (h : ¬ (terminator l = ['\r'] ∧ '\n' ∈ t.head?)) : split (l ++ t) = l :: split t := by
  have := split_append hb (split_terminator_append (isTerminator_terminator l) ht h)
  rwa [← List.append_assoc, body_append_terminator] at this

theorem split_line (hb : Unbroken (body l)) (hne : l ≠ []) : split l = [l] := by
  by_cases ht : terminator l = []
  · have hl := body_append_terminator l
    rw [ht, List.append_nil] at hl
    rw [hl] at hb
    exact split_of_unbroken hb hne
  · have := split_line_append (t := []) hb ht fun h => absurd h.2 (by simp)
    rwa [List.append_nil] at this

/-- The carriage return that ends a line and the line feed that is all of the next one are a single
terminator. -/
def Fuses (l m : Text) : Prop := l.getLast? = some '\r' ∧ m = ['\n']

instance (l m : Text) : Decidable (Fuses l m) := inferInstanceAs (Decidable (_ ∧ _))

/-- Joins neighbours that fuse. -/
def fuse : List Text → List Text
  | l :: m :: ls => if Fuses l m then (l ++ m) :: fuse ls else l :: fuse (m :: ls)
  | ls => ls

theorem length_fuse_le (ls : List Text) : (fuse ls).length ≤ ls.length := by
  fun_induction fuse ls with
  | case1 l m ls _ ih => simp only [List.length_cons]; omega
  | case2 l m ls _ ih => simp only [List.length_cons] at ih ⊢; omega
  | case3 ls => exact le_rfl

theorem fuse_eq_self_iff : fuse ls = ls ↔ ls.IsChain fun l m => ¬ Fuses l m := by
  fun_induction fuse ls with
  | case1 l m ls h ih =>
    rw [List.isChain_cons_cons]
    refine iff_of_false (fun he => ?_) fun hc => hc.1 h
    have := congrArg List.length he
    have := length_fuse_le ls
    simp only [List.length_cons] at *
    omega
  | case2 l m ls h ih =>
    rw [List.isChain_cons_cons, ← ih, List.cons.injEq]
    exact ⟨fun he => ⟨h, he.2⟩, fun he => ⟨rfl, he.2⟩⟩
  | case3 ls hs =>
    refine iff_of_true rfl ?_
    rcases ls with _ | ⟨l, _ | ⟨m, ls⟩⟩
    · exact .nil
    · exact .singleton l
    · exact absurd rfl (hs l m ls)

theorem getLast?_eq_or (l : Text) : l.getLast? = (terminator l).getLast?.or (body l).getLast? := by
  rw [← List.getLast?_append, body_append_terminator]

theorem terminator_eq_cr_iff (hb : Unbroken (body l)) :
    terminator l = ['\r'] ↔ l.getLast? = some '\r' := by
  rw [getLast?_eq_or l]
  have ht := isTerminator_terminator l
  generalize terminator l = e at ht
  cases ht with
  | none =>
    refine iff_of_false (by decide) fun h => ?_
    exact hb.2 (List.mem_of_getLast? h)
  | lf => simp
  | cr => simp
  | crlf => simp

theorem eq_lf_of_head? (hb : Unbroken (body m)) (h : '\n' ∈ m.head?) : m = ['\n'] := by
  have hm := body_append_terminator m
  have ht := isTerminator_terminator m
  cases hbm : body m with
  | nil =>
    rw [hbm, List.nil_append] at hm
    rw [← hm] at h ⊢
    generalize terminator m = e at ht h
    cases ht with
    | lf => rfl
    | none => exact absurd h (by decide)
    | cr => exact absurd h (by decide)
    | crlf => exact absurd h (by decide)
  | cons c b =>
    rw [hbm] at hm hb
    rw [← hm, List.cons_append, List.head?_cons, Option.mem_some_iff] at h
    exact absurd h (unbroken_cons.1 hb).1.1

/-- A fused line has the body of the first of its two. -/
theorem splitTerminator_append_lf (hb : Unbroken (body l)) (h : l.getLast? = some '\r') :
    splitTerminator (l ++ ['\n']) = (body l, ['\r', '\n']) := by
  have hl := body_append_terminator l
  rw [(terminator_eq_cr_iff hb).2 h] at hl
  have := hb.splitTerminator_append .crlf
  rwa [← hl, List.append_assoc, hb.body_append .cr]

/-- A line feed joins the carriage return before it, and the line is cut off after both. -/
theorem split_append_lf (hb : Unbroken (body l)) (h : l.getLast? = some '\r') (t : Text) :
    split (l ++ '\n' :: t) = (l ++ ['\n']) :: split t := by
  have hs := splitTerminator_append_lf hb h
  rw [List.append_cons, split_line_append]
  · rwa [body, hs]
  · rw [terminator, hs]
    exact List.cons_ne_nil _ _
  · rw [terminator, hs]
    simp

/-- Non-empty lines that are put together and cut again are fused. -/
theorem split_flatten (h : AreLines ls) (hne : ∀ l ∈ ls, l ≠ []) :
    split ls.flatten = fuse ls := by
  fun_induction fuse ls with
  | case1 l m ls hlm ih =>
    obtain ⟨hl, rfl⟩ := hlm
    obtain ⟨⟨hb, -⟩, hm⟩ := areLines_cons.1 h
    rw [List.flatten_cons, List.flatten_cons, List.singleton_append, split_append_lf hb hl, ih]
    · exact (areLines_cons.1 hm).2
    · exact fun x hx => hne x (List.mem_cons_of_mem _ (List.mem_cons_of_mem _ hx))
  | case2 l m ls hlm ih =>
    obtain ⟨⟨hb, ht⟩, hm⟩ := areLines_cons.1 h
    have hmne : m ≠ [] := hne m (List.mem_cons_of_mem _ List.mem_cons_self)
    rw [List.flatten_cons, split_line_append hb (ht (List.cons_ne_nil _ _)), ih hm]
    · exact fun x hx => hne x (List.mem_cons_of_mem _ hx)
    · -- A line that starts with a line feed is nothing else, so the two lines would fuse.
      rintro ⟨hcr, hh⟩
      refine hlm ⟨(terminator_eq_cr_iff hb).1 hcr, ?_⟩
      apply eq_lf_of_head? (areLines_cons.1 hm).1.1
      rwa [List.flatten_cons, List.head?_append_of_ne_nil _ hmne] at hh
  | case3 ls hs =>
    rcases ls with _ | ⟨l, _ | ⟨m, ls⟩⟩
    · rfl
    · rw [List.flatten_singleton]
      exact split_line (areLines_cons.1 h).1.1 (hne l List.mem_cons_self)
    · exact absurd rfl (hs l m ls)

/-! ### The lines of a text, cut again -/

theorem not_fuses_split (t : Text) : (split t).IsChain fun l m => ¬ Fuses l m := by
  have h := split_flatten (areLines_split t) fun _ => ne_nil_of_mem_split
  rw [flatten_split] at h
  exact fuse_eq_self_iff.1 h.symm

/-- Consecutive lines of a text are the lines of the text that they make. -/
theorem split_flatten_of_infix (h : ls <:+: split t) : split ls.flatten = ls := by
  have hls := (areLines_split t).sublist h.sublist
  have hc := List.IsChain.infix (not_fuses_split t) h
  rw [split_flatten hls fun l hl => ne_nil_of_mem_split (h.subset hl)]
  exact fuse_eq_self_iff.2 hc

/-! ### Text after a text -/

/-- A line grows, or takes a line feed to its carriage return, or stays as it is. -/
theorem exists_split_line_append (hb : Unbroken (body l)) (hne : l ≠ []) (t : Text) :
    ∃ more rest, split (l ++ t) = (l ++ more) :: rest := by
  by_cases ht : terminator l = []
  · have hl := body_append_terminator l
    rw [ht, List.append_nil] at hl
    rw [hl] at hb
    cases hs : split t with
    | nil =>
      obtain rfl : t = [] := by
        rw [← flatten_split t, hs]
        rfl
      exact ⟨[], [], by rw [List.append_nil, split_of_unbroken hb hne]⟩
    | cons m ls => exact ⟨m, ls, split_append hb hs⟩
  · by_cases hf : terminator l = ['\r'] ∧ '\n' ∈ t.head?
    · obtain ⟨t, rfl⟩ := List.head?_eq_some_iff.1 hf.2
      exact ⟨['\n'], split t, split_append_lf hb ((terminator_eq_cr_iff hb).1 hf.1) t⟩
    · exact ⟨[], split t, by rw [split_line_append hb ht hf, List.append_nil]⟩

/-- Lines are cut off in front of a line that they do not fuse with, whatever follows that. -/
theorem split_flatten_append_line (h : AreLines (ls ++ [m]))
    (hc : (ls ++ [m]).IsChain fun l m => ¬ Fuses l m) (hne : ∀ l ∈ ls ++ [m], l ≠ []) (t : Text) :
    split (ls.flatten ++ (m ++ t)) = ls ++ split (m ++ t) := by
  induction ls with
  | nil => rfl
  | cons l ls ih =>
    rw [List.cons_append] at h hc hne
    obtain ⟨⟨hb, ht⟩, hls⟩ := areLines_cons.1 h
    have hnels := (List.forall_mem_cons.1 hne).2
    obtain ⟨n, ns, hn⟩ : ∃ n ns, ls ++ [m] = n :: ns :=
      List.exists_cons_of_ne_nil (List.concat_ne_nil m ls)
    rw [List.flatten_cons, List.append_assoc, split_line_append hb (ht (List.concat_ne_nil m ls)),
      ih hls hc.tail hnels, List.cons_append]
    rintro ⟨hcr, hh⟩
    rw [← List.flatten_singleton (l := m), ← List.append_assoc, ← List.flatten_append, hn,
      List.flatten_cons, List.append_assoc,
      List.head?_append_of_ne_nil _ (hnels n (hn ▸ List.mem_cons_self))] at hh
    rw [hn] at hc hls
    refine (List.isChain_cons_cons.1 hc).1 ⟨(terminator_eq_cr_iff hb).1 hcr, ?_⟩
    exact eq_lf_of_head? (areLines_cons.1 hls).1.1 hh

/-- Text that is put after a text changes none of its lines but the last. -/
theorem exists_split_append (h : split t = ls ++ [m]) (u : Text) :
    ∃ more rest, split (t ++ u) = ls ++ (m ++ more) :: rest := by
  have hlines := areLines_split t
  have hchain := not_fuses_split t
  have hne : ∀ l ∈ split t, l ≠ [] := fun _ => ne_nil_of_mem_split
  have ht := flatten_split t
  rw [h] at hlines hchain hne ht
  have hm : m ∈ ls ++ [m] := List.mem_append_right ls List.mem_cons_self
  obtain ⟨more, rest, hs⟩ := exists_split_line_append (hlines.unbroken m hm) (hne m hm) u
  refine ⟨more, rest, ?_⟩
  rw [← ht, List.flatten_append, List.flatten_singleton, List.append_assoc,
    split_flatten_append_line hlines hchain hne, hs]

/-! ### Fused lines -/

theorem exists_body_eq_of_mem_fuse (h : AreLines ls) (hm : m ∈ fuse ls) :
    ∃ l ∈ ls, body m = body l := by
  fun_induction fuse ls with
  | case1 l k ls hlk ih =>
    obtain ⟨hl, rfl⟩ := hlk
    obtain ⟨⟨hb, -⟩, hk⟩ := areLines_cons.1 h
    rcases List.mem_cons.1 hm with rfl | hm
    · refine ⟨l, List.mem_cons_self, ?_⟩
      rw [body, splitTerminator_append_lf hb hl]
    · obtain ⟨x, hx, he⟩ := ih (areLines_cons.1 hk).2 hm
      exact ⟨x, List.mem_cons_of_mem _ (List.mem_cons_of_mem _ hx), he⟩
  | case2 l k ls _ ih =>
    rcases List.mem_cons.1 hm with rfl | hm
    · exact ⟨m, List.mem_cons_self, rfl⟩
    · obtain ⟨x, hx, he⟩ := ih (areLines_cons.1 h).2 hm
      exact ⟨x, List.mem_cons_of_mem _ hx, he⟩
  | case3 ls _ => exact ⟨m, hm, rfl⟩

theorem exists_mem_fuse_of_body_ne_nil (h : AreLines ls) (hl : l ∈ ls) (hne : body l ≠ []) :
    ∃ m ∈ fuse ls, body m = body l := by
  fun_induction fuse ls with
  | case1 k m ls hkm ih =>
    obtain ⟨hk, rfl⟩ := hkm
    obtain ⟨⟨hb, -⟩, hm⟩ := areLines_cons.1 h
    rcases List.mem_cons.1 hl with rfl | hl
    · refine ⟨_, List.mem_cons_self, ?_⟩
      rw [body, splitTerminator_append_lf hb hk]
    · rcases List.mem_cons.1 hl with rfl | hl
      · exact absurd rfl hne
      · obtain ⟨x, hx, he⟩ := ih (areLines_cons.1 hm).2 hl
        exact ⟨x, List.mem_cons_of_mem _ hx, he⟩
  | case2 k m ls _ ih =>
    rcases List.mem_cons.1 hl with rfl | hl
    · exact ⟨l, List.mem_cons_self, rfl⟩
    · obtain ⟨x, hx, he⟩ := ih (areLines_cons.1 h).2 hl
      exact ⟨x, List.mem_cons_of_mem _ hx, he⟩
  | case3 ls _ => exact ⟨l, hl, rfl⟩

end Quire.Line
