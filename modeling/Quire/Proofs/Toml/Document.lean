import Quire.Proofs.Toml.Value

/-!
# Written documents, read again

The lines of a document of sections are read one after the other as the statements that they hold
(`line_print`), and the statements of a section fill a table that no earlier section has
(`foldlM_add_statements`). So the document is read as the table of its sections
(`document?_print`).
-/

namespace Quire.Toml

open Reader

variable {c x : Char} {name t u : Text}

/-! ### Keys -/

/-- A name that is written without quotes. -/
def IsBare (name : Text) : Prop := name ≠ [] ∧ name.all isBareChar = true

instance (name : Text) : Decidable (IsBare name) :=
  inferInstanceAs (Decidable (name ≠ [] ∧ name.all isBareChar = true))

theorem IsBare.isBareChar_of_mem (h : IsBare name) (hx : x ∈ name) : isBareChar x = true :=
  List.all_eq_true.1 h.2 x hx

theorem IsBare.exists_eq_cons (h : IsBare name) :
    ∃ x w, name = x :: w ∧ isBareChar x = true := by
  obtain ⟨x, w, rfl⟩ := List.exists_cons_of_ne_nil h.1
  exact ⟨x, w, rfl, h.isBareChar_of_mem List.mem_cons_self⟩

theorem spaces_append {w : Text} (hw : ∀ x ∈ w, isSpace x = true) (hc : ¬ isSpace c = true)
    (u : Text) : spaces (w ++ c :: u) = some ((), c :: u) :=
  bind_eq (run_append hw hc u)

theorem spaces_of_isVisible (hx : IsVisible x) (u : Text) : spaces (x :: u) = some ((), x :: u) :=
  spaces_append (w := []) nofun hx.not_isSpace u

theorem isVisible_of_isBareChar (h : isBareChar x = true) : IsVisible x :=
  isVisible_of_pos h rfl

section Key

variable {w : Text} (hname : IsBare name) (hw : ∀ x ∈ w, isSpace x = true)
  (hc : c = '=' ∨ c = ']')
include hname hw hc

theorem keyPart_append (u : Text) : keyPart (name ++ (w ++ c :: u)) = some (name, c :: u) := by
  have hspace : ¬ isSpace c = true := by rcases hc with rfl | rfl <;> decide
  have hrun : run1 isBareChar (name ++ (w ++ c :: u)) = some (name, w ++ c :: u) := by
    cases w with
    | nil =>
      refine run1_append hname.1 (fun _ => hname.isBareChar_of_mem) ?_ u
      rcases hc with rfl | rfl <;> decide
    | cons y w =>
      refine run1_append hname.1 (fun _ => hname.isBareChar_of_mem) (fun hy => ?_) _
      exact (isVisible_of_isBareChar hy).not_isSpace (hw y List.mem_cons_self)
  obtain ⟨x, rest, rfl, hx⟩ := hname.exists_eq_cons
  have hquote : x ≠ '"' ∧ x ≠ '\'' := by
    constructor <;> rintro rfl <;> exact absurd hx (by decide)
  have hline : lineString (x :: rest ++ (w ++ c :: u)) = none :=
    (orElse_of_none (bind_of_none (literal_of_ne hquote.1))).trans
      (bind_of_none (literal_of_ne hquote.2))
  have hspaces : spaces (x :: rest ++ (w ++ c :: u)) = some ((), x :: rest ++ (w ++ c :: u)) :=
    spaces_of_isVisible (isVisible_of_isBareChar hx) _
  rw [keyPart, bind_eq hspaces, bind_eq ((orElse_of_none hline).trans hrun),
    bind_eq (spaces_append hw hspace u)]
  rfl

/-- A name is read as a key before an equals sign or a bracket. -/
theorem key_append (u : Text) : key (name ++ (w ++ c :: u)) = some ([name], c :: u) := by
  have hothers : many (do literal ['.']; keyPart) (c :: u) = some ([], c :: u) :=
    many_of_none (bind_of_none (literal_of_ne (by rcases hc with rfl | rfl <;> decide)))
  have hparts : separated1 keyPart (literal ['.']) (name ++ (w ++ c :: u)) =
      some ([name], c :: u) := by
    rw [separated1, bind_eq (keyPart_append hname hw hc u), bind_eq hothers]
    rfl
  rw [key, bind_eq hparts]
  rfl

end Key

/-! ### Lines -/

/-- What a line of a written document holds. -/
inductive Line
  | header (name : Text)
  | entry (name : Text) (v : Setting)
  | blank

namespace Line

/-- A line as it is written. -/
def print : Line → Text
  | header name => ['['] ++ name ++ [']', '\n']
  | entry name v => name ++ " = ".toList ++ v.print ++ ['\n']
  | blank => ['\n']

/-- The statement on a line, if there is one. -/
def statement : Line → Option Statement
  | header name => some (.header [name])
  | entry name v => some (.entry [name] v.value)
  | blank => none

/-- Whether the name on a line can be written without quotes. -/
def IsBare : Line → Prop
  | header name => Toml.IsBare name
  | entry name _ => Toml.IsBare name
  | blank => True

end Line

theorem literal_bracket_append (h : IsBare name) (w u : Text) :
    literal ('[' :: w) (name ++ u) = none := by
  obtain ⟨x, rest, rfl, hx⟩ := h.exists_eq_cons
  refine literal_of_ne ?_
  rintro rfl
  exact absurd hx (by decide)

theorem spaces_newline (u : Text) : spaces ('\n' :: u) = some ((), '\n' :: u) :=
  spaces_append (w := []) nofun (by decide) u

theorem lineEnd_newline (u : Text) : lineEnd ('\n' :: u) = some ((), u) := by
  have hcomment : comment ('\n' :: u) = none := bind_of_none (literal_of_ne (by decide))
  rw [lineEnd, bind_eq (spaces_newline u), bind_eq (opt_of_none hcomment)]
  rfl

theorem statement_header (h : IsBare name) (u : Text) :
    statement ('[' :: (name ++ ']' :: u)) = some (.header [name], u) := by
  have hkey : key (name ++ ']' :: u) = some ([name], ']' :: u) :=
    key_append (w := []) h nofun (.inr rfl) u
  have hdouble : literal ['[', '['] ('[' :: (name ++ ']' :: u)) = none :=
    literal_bracket_append h [] (']' :: u)
  rw [Toml.statement, orElse_of_none (bind_of_none hdouble)]
  refine orElse_of_some ?_
  rw [bind_eq (literal_singleton '[' _), bind_eq hkey, bind_eq (literal_singleton ']' u)]
  rfl

theorem statement_entry (h : IsBare name) (v : Setting) (u : Text) :
    statement (name ++ (" = ".toList ++ (v.print ++ '\n' :: u))) =
      some (.entry [name] v.value, '\n' :: u) := by
  obtain ⟨y, w, hy, hvisible⟩ := v.exists_print_eq_cons
  have hkey : key (name ++ (" = ".toList ++ (v.print ++ '\n' :: u))) =
      some ([name], '=' :: ' ' :: (v.print ++ '\n' :: u)) :=
    key_append (w := [' ']) h (List.forall_mem_singleton.2 rfl) (.inl rfl) _
  have hspaces : spaces (' ' :: (v.print ++ '\n' :: u)) = some ((), v.print ++ '\n' :: u) := by
    rw [hy]
    exact spaces_append (w := [' ']) (List.forall_mem_singleton.2 rfl) hvisible.not_isSpace _
  have hentry : entry value (name ++ (" = ".toList ++ (v.print ++ '\n' :: u))) =
      some (([name], v.value), '\n' :: u) := by
    rw [entry, bind_eq hkey, bind_eq (literal_singleton '=' _), bind_eq hspaces,
      bind_eq (value_print v (.inl rfl) u)]
    rfl
  rw [Toml.statement, orElse_of_none (bind_of_none (literal_bracket_append h _ _)),
    orElse_of_none (bind_of_none (literal_bracket_append h _ _)), bind_eq hentry]
  rfl

theorem line_of_statement {s : Statement} (hx : IsVisible x)
    (h : statement (x :: t) = some (s, '\n' :: u)) : line (x :: t) = some (some s, u) := by
  have hcomment : comment (x :: t) = none := bind_of_none (literal_of_ne (hx.ne (by decide)))
  rw [line, bind_eq (spaces_of_isVisible hx t),
    orElse_of_none (bind_of_none (newline_of_isVisible hx t)),
    orElse_of_none (bind_of_none hcomment), bind_eq h, bind_eq (lineEnd_newline u)]
  rfl

/-- A line is read as the statement that it holds. -/
theorem line_print {l : Line} (h : l.IsBare) (u : Text) :
    line (l.print ++ u) = some (l.statement, u) := by
  cases l with
  | header name =>
    have hprint : (Line.header name).print ++ u = '[' :: (name ++ ']' :: '\n' :: u) := by
      rw [Line.print, List.append_assoc, List.append_assoc]
      rfl
    rw [hprint]
    exact line_of_statement (by decide) (statement_header h _)
  | entry name v =>
    have hstatement := statement_entry h v u
    obtain ⟨x, rest, rfl, hx⟩ := IsBare.exists_eq_cons h
    rw [Line.print, List.append_assoc, List.append_assoc, List.append_assoc]
    exact line_of_statement (isVisible_of_isBareChar hx) hstatement
  | blank => exact (bind_eq (spaces_newline u)).trans (orElse_of_some rfl)

theorem Line.exists_print_eq_cons {l : Line} (h : l.IsBare) :
    ∃ x w, l.print = x :: w ∧ x ≠ '\ufeff' := by
  cases l with
  | header name => exact ⟨_, _, rfl, by decide⟩
  | entry name v =>
    obtain ⟨x, w, rfl, hx⟩ := IsBare.exists_eq_cons h
    refine ⟨x, _, rfl, ?_⟩
    rintro rfl
    exact absurd hx (by decide)
  | blank => exact ⟨_, _, rfl, by decide⟩

/-- Lines are read as the statements that they hold. -/
theorem statements_flatMap_print {ls : List Line} (h : ∀ l ∈ ls, l.IsBare) :
    whole? statements (ls.flatMap Line.print) = some (ls.filterMap Line.statement) := by
  have hmark : literal ['\ufeff'] (ls.flatMap Line.print) = none := by
    cases ls with
    | nil => rfl
    | cons l ls =>
      obtain ⟨x, w, hx, hne⟩ := Line.exists_print_eq_cons (h l List.mem_cons_self)
      rw [List.flatMap_cons, hx]
      exact literal_of_ne hne
  have hlines : many line (ls.flatMap Line.print ++ []) = some (ls.map Line.statement, []) := by
    refine many_map_flatMap (P := fun _ => True) (fun l hl => ?_) (fun _ _ _ => trivial)
      (fun l hl rest _ => line_print (h l hl) rest) trivial rfl
    obtain ⟨x, w, hx, -⟩ := Line.exists_print_eq_cons (h l hl)
    rw [hx]
    exact List.cons_ne_nil x w
  rw [List.append_nil] at hlines
  have hstatements : statements (ls.flatMap Line.print) =
      some ((ls.map Line.statement).filterMap id, []) := by
    rw [statements, bind_eq (opt_of_none hmark), bind_eq hlines]
    rfl
  rw [whole?, hstatements, List.filterMap_map]
  rfl

/-! ### Sections -/

namespace Section

/-- The lines of a section, with the empty one behind it. -/
def lines (s : Section) : List Line :=
  .header s.name :: (s.entries.map fun e => .entry e.1 e.2) ++ [.blank]

/-- A section whose names can be written without quotes, each for one setting. -/
structure IsWritable (s : Section) : Prop where
  name : IsBare s.name
  keys : ∀ e ∈ s.entries, IsBare e.1
  nodup : (s.entries.map Prod.fst).Nodup

theorem IsWritable.isBare_of_mem_lines {s : Section} (h : s.IsWritable) {l : Line}
    (hl : l ∈ s.lines) : l.IsBare := by
  rw [lines, List.cons_append, List.mem_cons, List.mem_append, List.mem_map,
    List.mem_singleton] at hl
  obtain rfl | ⟨e, he, rfl⟩ | rfl := hl
  · exact h.name
  · exact h.keys e he
  · trivial

theorem flatMap_print_lines (s : Section) :
    s.lines.flatMap Line.print = s.print ++ ['\n'] := by
  rw [lines, List.cons_append, List.flatMap_cons, List.flatMap_append, List.flatMap_map,
    Section.print, List.append_assoc]
  rfl

end Section

theorem print_append_newline {sections : List Section} (h : sections ≠ []) :
    print sections ++ ['\n'] = (sections.flatMap Section.lines).flatMap Line.print := by
  rw [List.flatMap_assoc, List.flatMap_congr fun s _ => s.flatMap_print_lines, print,
    Text.joinWith]
  induction sections with
  | nil => exact absurd rfl h
  | cons s sections ih =>
    cases sections with
    | nil =>
      rw [List.map_singleton, List.intercalate_singleton, List.flatMap_singleton]
    | cons s' sections =>
      rw [List.map_cons, List.map_cons, List.intercalate_cons_cons, List.append_assoc,
        List.flatMap_cons, ← ih (List.cons_ne_nil _ _), List.map_cons]

theorem filterMap_statement_lines (s : Section) : s.lines.filterMap Line.statement =
    .header [s.name] :: s.entries.map fun e => .entry [e.1] e.2.value := by
  have hentries : (s.entries.map fun e => Line.entry e.1 e.2).filterMap Line.statement =
      s.entries.map fun e => Statement.entry [e.1] e.2.value := by
    rw [List.filterMap_map, ← List.filterMap_eq_map]
    rfl
  have hblank : [Line.blank].filterMap Line.statement = [] := rfl
  show Statement.header [s.name] :: List.filterMap Line.statement (_ ++ [Line.blank]) = _
  rw [List.filterMap_append, hentries, hblank, List.append_nil]

/-! ### Tables -/

section Alter

variable {entries : Entries} {f : Option Item → Option Item}

theorem alter_of_not_mem (h : name ∉ entries.map Prod.fst) :
    entries.alter name f = (f none).map fun item => entries ++ [(name, item)] := by
  induction entries with
  | nil => rfl
  | cons e entries ih =>
    rw [List.map_cons, List.mem_cons, not_or] at h
    rw [Entries.alter, if_neg (Ne.symm h.1), ih h.2, Option.map_map]
    rfl

theorem alter_append_of_not_mem (h : name ∉ entries.map Prod.fst) (item : Item) :
    Entries.alter name f (entries ++ [(name, item)]) =
      (f (some item)).map fun item => entries ++ [(name, item)] := by
  induction entries with
  | nil => rw [List.nil_append, Entries.alter, if_pos rfl]; rfl
  | cons e entries ih =>
    rw [List.map_cons, List.mem_cons, not_or] at h
    rw [List.cons_append, Entries.alter, if_neg (Ne.symm h.1), ih h.2, Option.map_map]
    rfl

end Alter

/-- The entries of a section in a table under construction. -/
def tableOf (entries : List (Text × Setting)) : Entries :=
  entries.map fun e => (e.1, .value e.2.value)

theorem map_fst_tableOf (entries : List (Text × Setting)) :
    (tableOf entries).map Prod.fst = entries.map Prod.fst := by
  rw [tableOf, List.map_map]
  rfl

theorem toValues_tableOf (entries : List (Text × Setting)) :
    Entries.toValues (tableOf entries) = entries.map fun e => (e.1, e.2.value) := by
  induction entries with
  | nil => rfl
  | cons e entries ih =>
    rw [tableOf, List.map_cons, Entries.toValues, List.map_cons, ← ih]
    rfl

theorem add_header {root : Entries} (h : name ∉ root.map Prod.fst) (path : Key) :
    Draft.add ⟨root, path⟩ (.header [name]) =
      some ⟨root ++ [(name, .table .explicit [])], [name]⟩ := by
  show (Entries.alter name _ root).map _ = _
  rw [alter_of_not_mem h]
  rfl

theorem add_entry {root inner : Entries} {k : Text} (h : name ∉ root.map Prod.fst)
    (hk : k ∉ inner.map Prod.fst) (v : Value) :
    Draft.add ⟨root ++ [(name, .table .explicit inner)], [name]⟩ (.entry [k] v) =
      some ⟨root ++ [(name, .table .explicit (inner ++ [(k, .value v)]))], [name]⟩ := by
  show (Entries.alter name _ (root ++ _)).map _ = _
  rw [alter_append_of_not_mem h]
  show (((Entries.alter k _ inner).map _).map _).map _ = _
  rw [alter_of_not_mem hk]
  rfl

/-- The entries of a section are put one after the other into the table of its header. -/
theorem foldlM_add_entries {root : Entries} (h : name ∉ root.map Prod.fst)
    (done entries : List (Text × Setting)) (hnodup : ((done ++ entries).map Prod.fst).Nodup) :
    (entries.map fun e => Statement.entry [e.1] e.2.value).foldlM Draft.add
        ⟨root ++ [(name, .table .explicit (tableOf done))], [name]⟩ =
      some ⟨root ++ [(name, .table .explicit (tableOf (done ++ entries)))], [name]⟩ := by
  induction entries generalizing done with
  | nil => rw [List.append_nil]; rfl
  | cons e entries ih =>
    have hk : e.1 ∉ (tableOf done).map Prod.fst := by
      rw [map_fst_tableOf]
      rw [List.map_append, List.map_cons] at hnodup
      exact fun hmem => (List.nodup_append.1 hnodup).2.2 e.1 hmem e.1 List.mem_cons_self rfl
    have htable : tableOf done ++ [(e.1, .value e.2.value)] = tableOf (done ++ [e]) := by
      rw [tableOf, tableOf, List.map_append]
      rfl
    rw [List.append_cons done e entries] at hnodup ⊢
    rw [List.map_cons, List.foldlM_cons, add_entry h hk, htable]
    exact ih _ hnodup

/-- The statements of a section add its table. -/
theorem foldlM_add_statements {root : Entries} {s : Section} (h : s.name ∉ root.map Prod.fst)
    (hnodup : (s.entries.map Prod.fst).Nodup) (path : Key) :
    (s.lines.filterMap Line.statement).foldlM Draft.add ⟨root, path⟩ =
      some ⟨root ++ [(s.name, .table .explicit (tableOf s.entries))], [s.name]⟩ := by
  rw [filterMap_statement_lines, List.foldlM_cons, add_header h]
  exact foldlM_add_entries h [] s.entries hnodup

theorem foldlM_add_sections (root : Entries) (path : Key) {sections : List Section}
    (h : (root.map Prod.fst ++ sections.map Section.name).Nodup)
    (hnodup : ∀ s ∈ sections, (s.entries.map Prod.fst).Nodup) :
    (((sections.flatMap Section.lines).filterMap Line.statement).foldlM Draft.add
      ⟨root, path⟩).map Draft.root =
      some (root ++ sections.map fun s => (s.name, .table .explicit (tableOf s.entries))) := by
  induction sections generalizing root path with
  | nil => rw [List.map_nil, List.append_nil]; rfl
  | cons s sections ih =>
    have hname : s.name ∉ root.map Prod.fst := by
      rw [List.map_cons] at h
      exact fun hmem => (List.nodup_append.1 h).2.2 _ hmem _ List.mem_cons_self rfl
    rw [List.flatMap_cons, List.filterMap_append, List.foldlM_append,
      foldlM_add_statements hname (hnodup s List.mem_cons_self)]
    have hnext := ih (root ++ [(s.name, .table .explicit (tableOf s.entries))]) [s.name]
      (by rw [List.map_append, List.append_assoc]; exact h)
      (fun s' hs' => hnodup s' (List.mem_cons_of_mem s hs'))
    rw [List.append_assoc] at hnext
    exact hnext

theorem toValues_map_sections (sections : List Section) :
    Entries.toValues (sections.map fun s => (s.name, .table .explicit (tableOf s.entries))) =
      sections.map fun s => (s.name, s.value) := by
  induction sections with
  | nil => rfl
  | cons s sections ih =>
    rw [List.map_cons, Entries.toValues, ih, Item.toValue, toValues_tableOf]
    rfl

/-- A document of sections under different names is read as the table of these sections. -/
theorem document?_print {sections : List Section} (hne : sections ≠ [])
    (h : ∀ s ∈ sections, s.IsWritable) (hnodup : (sections.map Section.name).Nodup) :
    document? (print sections ++ ['\n']) =
      some (.table (sections.map fun s => (s.name, s.value))) := by
  have hbare : ∀ l ∈ sections.flatMap Section.lines, l.IsBare := by
    intro l hl
    obtain ⟨s, hs, hl⟩ := List.mem_flatMap.1 hl
    exact (h s hs).isBare_of_mem_lines hl
  have hfold := foldlM_add_sections [] [] hnodup fun s hs => (h s hs).nodup
  rw [print_append_newline hne, document?, statements_flatMap_print hbare, Option.bind_some]
  rw [Option.map_eq_some_iff] at hfold ⊢
  obtain ⟨d, hd, hroot⟩ := hfold
  refine ⟨d, hd, ?_⟩
  rw [hroot, List.nil_append, Entries.toValue, toValues_map_sections]

end Quire.Toml
