import Quire.Proofs.Text.Reader
import Quire.Proofs.Xml.Escape
import Quire.Xml.Tree

/-!
# XML trees, read again

A tree can be written (`Node.isWritable`) if its names can stand in tags, no element has an
attribute twice, and no text is empty, has a carriage return, or stands beside another text. What
has been written is read as the same tree (`parse?_printDocument`): the markup is cut into the
tokens that the tree stands for (`tokensUpTo_print`), and from these it is put together
(`build_tokens`).
-/

namespace Quire.Xml

open Reader

/-! ### Trees that can be written -/

/-- A character that may stand anywhere in either part of a name. -/
def isTagChar (c : Char) : Bool := isNameChar c && !([':', '!', '?'].contains c)

namespace Name

/-- Whether a name can be written and found again. -/
def isWritable (n : Name) : Bool := !n.name.isEmpty && n.space.all isTagChar && n.name.all isTagChar

end Name

/-- Whether attributes can be written and found again. -/
def Attributes.isWritable (attributes : Attributes) : Bool :=
  attributes.all (fun a => a.1.isWritable && !a.2.contains '\r') && (attributes.map Prod.fst).Nodup

namespace Node

/-- Whether a node is a text. -/
def isText : Node → Bool
  | .text _ => true
  | .element .. => false

mutual

/-- Whether a node can be written and found again. -/
def isWritable : Node → Bool
  | .text t => !t.isEmpty && !t.contains '\r'
  | .element name attributes children =>
    name.isWritable && attributes.isWritable && areWritable children

/-- Whether nodes can be written and found again. -/
def areWritable : List Node → Bool
  | [] => true
  | node :: nodes =>
    node.isWritable && !(node.isText && nodes.head?.any isText) && areWritable nodes

end

mutual

/-- The tokens that a node stands for. -/
def tokens : Node → List Token
  | .text t => [.text t]
  | .element name attributes children =>
    .start name.print attributes :: (tokensOfAll children ++ [.stop name.print])

/-- The tokens that nodes stand for. -/
def tokensOfAll : List Node → List Token
  | [] => []
  | node :: nodes => node.tokens ++ tokensOfAll nodes

end

end Node

variable {n : Name} {attributes : Attributes} {node : Node} {nodes : List Node} {t w rest : Text}
  {found : List Token}

theorem Node.isWritable_text_iff : (Node.text t).isWritable ↔ t ≠ [] ∧ '\r' ∉ t := by
  simp [Node.isWritable]

theorem Node.isWritable_element_iff : (Node.element n attributes nodes).isWritable ↔
    n.isWritable ∧ attributes.isWritable ∧ Node.areWritable nodes := by
  simp [Node.isWritable, and_assoc]

theorem Node.areWritable_cons_iff : Node.areWritable (node :: nodes) ↔
    node.isWritable ∧ ¬ (node.isText ∧ nodes.head?.any Node.isText) ∧ Node.areWritable nodes := by
  simp only [Node.areWritable, Bool.and_eq_true, Bool.not_eq_true', ← Bool.not_eq_true, and_assoc]

theorem Attributes.isWritable_iff : attributes.isWritable ↔
    (∀ a ∈ attributes, a.1.isWritable ∧ '\r' ∉ a.2) ∧ (attributes.map Prod.fst).Nodup := by
  simp [Attributes.isWritable]

/-! ### Names -/

theorem isTagChar_iff {c : Char} :
    isTagChar c ↔ isNameChar c ∧ c ≠ ':' ∧ c ≠ '!' ∧ c ≠ '?' := by
  simp [isTagChar]

theorem Name.isWritable_iff :
    n.isWritable ↔ n.name ≠ [] ∧ (∀ c ∈ n.space, isTagChar c) ∧ ∀ c ∈ n.name, isTagChar c := by
  simp [Name.isWritable, and_assoc]

theorem Name.exists_print_eq_cons (h : n.isWritable) : ∃ c w, n.print = c :: w ∧ isTagChar c := by
  obtain ⟨hne, hs, hn⟩ := Name.isWritable_iff.1 h
  rw [Name.print]
  split
  next =>
    obtain ⟨c, w, hw⟩ := List.exists_cons_of_ne_nil hne
    exact ⟨c, w, hw, hn c (hw ▸ List.mem_cons_self)⟩
  next hempty =>
    obtain ⟨c, w, hw⟩ := List.exists_cons_of_ne_nil fun h => hempty (List.isEmpty_iff.2 h)
    exact ⟨c, w ++ ':' :: n.name, by rw [hw, List.cons_append], hs c (hw ▸ List.mem_cons_self)⟩

theorem Name.print_ne_nil (h : n.isWritable) : n.print ≠ [] := by
  obtain ⟨c, w, hw, -⟩ := n.exists_print_eq_cons h
  exact hw ▸ List.cons_ne_nil c w

theorem isNameChar_of_mem_print (h : n.isWritable) {c : Char} (hc : c ∈ n.print) :
    isNameChar c := by
  obtain ⟨-, hs, hn⟩ := Name.isWritable_iff.1 h
  rw [Name.print] at hc
  split at hc
  · exact (isTagChar_iff.1 (hn c hc)).1
  · rcases List.mem_append.1 hc with hc | hc
    · exact (isTagChar_iff.1 (hs c hc)).1
    · rcases List.mem_cons.1 hc with rfl | hc
      · decide
      · exact (isTagChar_iff.1 (hn c hc)).1

theorem Name.of_print (h : n.isWritable) : Name.of n.print = n := by
  obtain ⟨-, hs, hn⟩ := Name.isWritable_iff.1 h
  have hspace : ∀ c ∈ n.space, c != ':' := fun c hc =>
    bne_iff_ne.2 (isTagChar_iff.1 (hs c hc)).2.1
  have hname : ∀ c ∈ n.name, c != ':' := fun c hc =>
    bne_iff_ne.2 (isTagChar_iff.1 (hn c hc)).2.1
  rw [Name.print]
  split
  next hempty =>
    rw [Name.of, List.dropWhile_eq_nil_iff.2 hname]
    exact congrArg (Name.mk · n.name) (List.isEmpty_iff.1 hempty).symm
  next =>
    obtain ⟨ht, hd⟩ := takeWhile_append_of_head? hspace (u := ':' :: n.name) (by simp)
    rw [Name.of, hd, ht]

/-! ### Tags -/

theorem namedValue_append (a : Name × Text) (hn : a.1.isWritable) (hv : '\r' ∉ a.2) (rest : Text) :
    namedValue (' ' :: a.1.print ++ ['=', '"'] ++ escape a.2 ++ ['"'] ++ rest) =
      some (a, rest) := by
  obtain ⟨name, value⟩ := a
  obtain ⟨u, hu⟩ : ∃ u, u = escape value ++ '"' :: rest := ⟨_, rfl⟩
  have hname : run1 isNameChar (name.print ++ '=' :: '"' :: u) =
      some (name.print, '=' :: '"' :: u) :=
    run1_append (Name.print_ne_nil hn) (fun c => isNameChar_of_mem_print hn) (by decide) _
  have hblank : run1 isBlank (' ' :: (name.print ++ '=' :: '"' :: u)) =
      some ([' '], name.print ++ '=' :: '"' :: u) := by
    obtain ⟨c, w, hw, hc⟩ := name.exists_print_eq_cons hn
    have hc := (isTagChar_iff.1 hc).1
    rw [hw]
    refine run1_append (w := [' ']) (List.cons_ne_nil _ _) (List.forall_mem_singleton.2 rfl)
      (fun hb => ?_) _
    simp [isNameChar, hb] at hc
  have hvalue : quotedValue ('"' :: u) = some (value, rest) := by
    have hquote : ∀ c ∈ escape value, c != '"' := fun c hc =>
      bne_iff_ne.2 fun h => not_mem_escape (c := '"') (by decide) value (h ▸ hc)
    have hrun : run (· != '"') u = some (escape value, '"' :: rest) :=
      hu ▸ run_append hquote (by decide) rest
    rw [quotedValue, bind_eq (a := '"') (u := u) rfl, bind_eq hrun,
      bind_eq (literal_singleton '"' rest), decode?_normalizeLines_escape hv]
    rfl
  have htext : ' ' :: name.print ++ ['=', '"'] ++ escape value ++ ['"'] ++ rest =
      ' ' :: (name.print ++ '=' :: '"' :: u) := by simp [hu]
  rw [htext, namedValue, bind_eq hblank, bind_eq hname,
    bind_eq (a := ()) (u := '=' :: '"' :: u) rfl, bind_eq (literal_singleton '=' ('"' :: u)),
    bind_eq (a := ()) (u := '"' :: u) rfl, bind_eq hvalue, Name.of_print hn]
  rfl

theorem startTag_append (hn : n.isWritable) (ha : attributes.isWritable) (rest : Text) :
    startTag (n.print ++ (attributes.print ++ '>' :: rest)) =
      some ([.start n.print attributes], rest) := by
  obtain ⟨ha, hnodup⟩ := Attributes.isWritable_iff.1 ha
  have hname : run1 isNameChar (n.print ++ (attributes.print ++ '>' :: rest)) =
      some (n.print, attributes.print ++ '>' :: rest) := by
    obtain ⟨c, u, hu, hc⟩ : ∃ c u, attributes.print ++ '>' :: rest = c :: u ∧ ¬ isNameChar c := by
      cases attributes with
      | nil => exact ⟨'>', rest, rfl, by decide⟩
      | cons a attributes => exact ⟨' ', _, rfl, by decide⟩
    rw [hu]
    exact run1_append (Name.print_ne_nil hn) (fun c => isNameChar_of_mem_print hn) hc u
  have hattributes : many namedValue (attributes.print ++ '>' :: rest) =
      some (attributes, '>' :: rest) := by
    refine many_flatMap (by simp) (fun a hm rest => ?_) rfl
    obtain ⟨hname, hvalue⟩ := ha a hm
    exact namedValue_append a hname hvalue rest
  rw [startTag, bind_eq hname, bind_eq hattributes, bind_eq (a := ()) (u := '>' :: rest) rfl,
    bind_eq (opt_of_none rfl), bind_eq (literal_singleton '>' rest), if_pos hnodup]
  rfl

theorem endTag_append (hn : n.isWritable) (rest : Text) :
    endTag (n.print ++ '>' :: rest) = some ([.stop n.print], rest) := by
  have hname : run1 isNameChar (n.print ++ '>' :: rest) = some (n.print, '>' :: rest) :=
    run1_append (Name.print_ne_nil hn) (fun c => isNameChar_of_mem_print hn) (by decide) rest
  rw [endTag, bind_eq hname, bind_eq (a := ()) (u := '>' :: rest) rfl,
    bind_eq (literal_singleton '>' rest)]
  rfl

/-! ### Tokens -/

theorem tokensUpTo_markup (h : markup w = some (found, rest)) (fuel : Nat) :
    tokensUpTo (fuel + 1) ('<' :: w) = (tokensUpTo fuel rest).map (found ++ ·) := by
  rw [tokensUpTo, if_pos rfl, h]

theorem markup_startTag (hn : n.isWritable) (rest : Text) :
    markup (n.print ++ rest) = startTag (n.print ++ rest) := by
  obtain ⟨c, w, hw, hc⟩ := n.exists_print_eq_cons hn
  obtain ⟨hc, -, hbang, hquestion⟩ := isTagChar_iff.1 hc
  have hslash : c ≠ '/' := fun h => absurd hc (h ▸ by decide)
  rw [hw, List.cons_append]
  unfold markup
  split <;> simp_all

theorem tokensUpTo_text (hne : t ≠ []) (hr : '\r' ∉ t) (hrest : ∀ c ∈ rest.head?, c = '<')
    (fuel : Nat) :
    tokensUpTo (fuel + 1) (escape t ++ rest) = (tokensUpTo fuel rest).map (.text t :: ·) := by
  have hw : ∀ c ∈ escape t, c != '<' := fun c hc =>
    bne_iff_ne.2 fun h => not_mem_escape (c := '<') (by decide) t (h ▸ hc)
  obtain ⟨ht, hd⟩ := takeWhile_append_of_head? hw (u := rest) (by simpa using hrest)
  obtain ⟨c, w, hcw⟩ := List.exists_cons_of_ne_nil (escape_ne_nil hne)
  have hc : c ≠ '<' := bne_iff_ne.1 (hw c (hcw ▸ List.mem_cons_self))
  rw [hcw, List.cons_append] at ht hd ⊢
  rw [tokensUpTo, if_neg hc, ht, hd, ← hcw, decode?_normalizeLines_escape hr]

/-- What follows a text is a tag, or nothing. -/
theorem head?_printAll_append {nodes : List Node} (h : ¬ nodes.head?.any Node.isText)
    (hrest : ∀ c ∈ rest.head?, c = '<') : ∀ c ∈ (printAll nodes ++ rest).head?, c = '<' := by
  cases nodes with
  | nil => exact hrest
  | cons node nodes =>
    cases node with
    | text t => exact absurd rfl h
    | element n attributes children => simp [printAll, Node.print]

theorem print_element_append (n : Name) (attributes : Attributes) (children : List Node)
    (rest : Text) : (Node.element n attributes children).print ++ rest =
      '<' :: (n.print ++ (attributes.print ++ '>' :: (printAll children ++
        '<' :: '/' :: (n.print ++ '>' :: rest)))) := by
  simp [Node.print]

mutual

/-- The markup of a node is cut into its tokens. -/
theorem tokensUpTo_print (node : Node) (h : node.isWritable) (rest : Text)
    (hrest : node.isText → ∀ c ∈ rest.head?, c = '<') (fuel : Nat) :
    tokensUpTo (node.tokens.length + fuel) (node.print ++ rest) =
      (tokensUpTo fuel rest).map (node.tokens ++ ·) := by
  match node with
  | .text t =>
    obtain ⟨hne, hr⟩ := Node.isWritable_text_iff.1 h
    rw [Nat.add_comm]
    exact tokensUpTo_text hne hr (hrest rfl) fuel
  | .element n attributes children =>
    obtain ⟨hn, ha, hc⟩ := Node.isWritable_element_iff.1 h
    -- One step for each tag; those for the children are left to the induction.
    have hfuel : (Node.element n attributes children).tokens.length + fuel =
        (Node.tokensOfAll children).length + (fuel + 1) + 1 := by
      simp only [Node.tokens, List.length_cons, List.length_append, List.length_nil]
      omega
    have hstart (u : Text) : markup (n.print ++ (attributes.print ++ '>' :: u)) =
        some ([.start n.print attributes], u) :=
      (markup_startTag hn _).trans (startTag_append hn ha u)
    have hend : markup ('/' :: (n.print ++ '>' :: rest)) = some ([.stop n.print], rest) :=
      endTag_append hn rest
    rw [hfuel, print_element_append, tokensUpTo_markup (hstart _),
      tokensUpTo_printAll children hc _ (by simp), tokensUpTo_markup hend, Option.map_map,
      Option.map_map]
    refine congrArg (Option.map · _) (funext fun ts => ?_)
    simp [Node.tokens]

theorem tokensUpTo_printAll (nodes : List Node) (h : Node.areWritable nodes) (rest : Text)
    (hrest : ∀ c ∈ rest.head?, c = '<') (fuel : Nat) :
    tokensUpTo ((Node.tokensOfAll nodes).length + fuel) (printAll nodes ++ rest) =
      (tokensUpTo fuel rest).map (Node.tokensOfAll nodes ++ ·) := by
  match nodes with
  | [] =>
    rw [Node.tokensOfAll, List.length_nil, Nat.zero_add]
    exact Option.map_id'.symm
  | node :: nodes =>
    obtain ⟨hnode, hnext, hnodes⟩ := Node.areWritable_cons_iff.1 h
    rw [Node.tokensOfAll, List.length_append, Nat.add_assoc, printAll, List.append_assoc,
      tokensUpTo_print node hnode _
        (fun ht => head?_printAll_append (fun hn => hnext ⟨ht, hn⟩) hrest),
      tokensUpTo_printAll nodes hnodes rest hrest, Option.map_map]
    refine congrArg (Option.map · _) (funext fun ts => ?_)
    simp

end

/-! ### Trees -/

mutual

/-- A node is put together from its tokens. -/
theorem build_tokens (node : Node) (h : node.isWritable) (frames : List Frame) (nodes : List Node)
    (ts : List Token) :
    build frames nodes (node.tokens ++ ts) = build frames (node :: nodes) ts := by
  match node with
  | .text t => cases frames <;> rfl
  | .element n attributes children =>
    obtain ⟨hn, -, hc⟩ := Node.isWritable_element_iff.1 h
    have hstart : ∀ us, build frames nodes (.start n.print attributes :: us) =
        build (⟨n.print, attributes, nodes⟩ :: frames) [] us := fun us => by cases frames <;> rfl
    rw [Node.tokens, List.cons_append, hstart, List.append_assoc, build_tokensOfAll children hc,
      List.append_nil, List.cons_append, build, if_pos rfl, List.reverse_reverse, Name.of_print hn]
    rfl

theorem build_tokensOfAll (added : List Node) (h : Node.areWritable added) (frames : List Frame)
    (nodes : List Node) (ts : List Token) :
    build frames nodes (Node.tokensOfAll added ++ ts) =
      build frames (added.reverse ++ nodes) ts := by
  match added with
  | [] => rfl
  | node :: added =>
    obtain ⟨hnode, -, hadded⟩ := Node.areWritable_cons_iff.1 h
    rw [Node.tokensOfAll, List.append_assoc, build_tokens node hnode,
      build_tokensOfAll added hadded, List.reverse_cons, List.append_assoc]
    rfl

end

/-! ### Documents -/

mutual

theorem length_tokens_le (node : Node) (h : node.isWritable) :
    node.tokens.length ≤ node.print.length := by
  match node with
  | .text t =>
    exact List.length_pos_iff.2 (escape_ne_nil (Node.isWritable_text_iff.1 h).1)
  | .element n attributes children =>
    have hc := length_tokensOfAll_le children (Node.isWritable_element_iff.1 h).2.2
    simp only [Node.tokens, Node.print, List.length_cons, List.length_append, List.length_nil]
    omega

theorem length_tokensOfAll_le (nodes : List Node) (h : Node.areWritable nodes) :
    (Node.tokensOfAll nodes).length ≤ (printAll nodes).length := by
  match nodes with
  | [] => exact Nat.le_refl 0
  | node :: nodes =>
    obtain ⟨hnode, -, hnodes⟩ := Node.areWritable_cons_iff.1 h
    have hnode := length_tokens_le node hnode
    have hnodes := length_tokensOfAll_le nodes hnodes
    simp only [Node.tokensOfAll, printAll, List.length_append]
    omega

end

theorem upTo?_append {c : Char} (h : c ∉ w) (stop rest : Text) :
    upTo? (c :: stop) (w ++ (c :: stop ++ rest)) = some (w, rest) := by
  induction w with
  | nil =>
    have hs : Text.stripPrefix? (c :: stop) (c :: (stop ++ rest)) = some rest :=
      Text.stripPrefix?_eq_some_iff.2 rfl
    rw [List.nil_append, List.cons_append, upTo?, hs]
  | cons d w ih =>
    obtain ⟨hd, hw⟩ := List.ne_and_not_mem_of_not_mem_cons h
    rw [List.cons_append, upTo?, Text.stripPrefix?, if_neg hd]
    dsimp only
    rw [ih hw]
    rfl

theorem exists_printDocument_eq (root : Node) : ∃ w, '?' ∉ w ∧
    printDocument root = '<' :: '?' :: (w ++ (['?', '>'] ++ root.print)) := by
  refine ⟨"xml version=\"1.0\" encoding=\"UTF-8\"".toList, by decide, ?_⟩
  rw [← List.append_assoc]
  rfl

/-- The declaration in front of a document has no tokens. -/
theorem tokensUpTo_printDocument (root : Node) (fuel : Nat) :
    tokensUpTo (fuel + 1) (printDocument root) = tokensUpTo fuel root.print := by
  obtain ⟨w, hw, htext⟩ := exists_printDocument_eq root
  have hfound := upTo?_append hw ['>'] root.print
  have hmarkup : markup ('?' :: (w ++ (['?', '>'] ++ root.print))) = some ([], root.print) :=
    congrArg (Option.map fun x : Text × Text => ([], x.2)) hfound
  rw [htext, tokensUpTo_markup hmarkup]
  exact Option.map_id'

/-- Read again, a document is the tree that has been written. -/
theorem parse?_printDocument {root : Node} (h : root.isWritable) :
    parse? (printDocument root) = some [root] := by
  -- A step for each token and one for the declaration are no more than there are characters.
  have hlen : root.tokens.length + 1 ≤ (printDocument root).length := by
    obtain ⟨w, -, htext⟩ := exists_printDocument_eq root
    have hprint := length_tokens_le root h
    simp only [htext, List.length_cons, List.length_append]
    omega
  obtain ⟨fuel, hfuel⟩ := Nat.exists_eq_add_of_le hlen
  have htokens := tokensUpTo_print root h [] (by simp) fuel
  have hbuild := build_tokens root h [] [] []
  rw [List.append_nil] at htokens
  rw [parse?, tokens?, hfuel, Nat.add_right_comm, tokensUpTo_printDocument, htokens]
  cases fuel <;> exact hbuild

end Quire.Xml
