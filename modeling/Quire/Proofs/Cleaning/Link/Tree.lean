import Quire.Proofs.Cleaning.Link.Context
import Quire.Proofs.Cleaning.Loop

/-!
# Nested links

A `Node` is a piece of a text with links as it is meant: text, a reference with nodes in it, or an
embed with its target. Printed with its markers it is read as it is meant, however deep it is nested
and whatever stands beside it: where the next marker cannot be taken for a part of another
(`Scan.IsReady`), reading a node adds its content to what has been read (`Scan.read_print`). So the
removal of links leaves of printed nodes exactly the text that is not inside an embed.
-/

namespace Quire.Link

/-- A character that is no part of a marker. -/
def isPlain (c : Char) : Bool := !(['[', ']', '!'].contains c)

/-- A part of a text with links. -/
inductive Node
  | text (t : Text) (plain : ∀ c ∈ t, isPlain c)
  | reference (children : List Node)
  | embed (target : Text) (unclosed : ']' ∉ target)

namespace Node

mutual

/-- A node with its markers. -/
def print : Node → Text
  | .text t _ => t
  | .reference children => ['[', '['] ++ (printAll children ++ [']', ']'])
  | .embed target _ => ['!', '[', '['] ++ (target ++ [']', ']'])

/-- Nodes with their markers, one after the other. -/
def printAll : List Node → Text
  | [] => []
  | node :: nodes => node.print ++ printAll nodes

end

mutual

/-- The text of a node that is not inside an embed. -/
def content : Node → Text
  | .text t _ => t
  | .reference children => contentOfAll children
  | .embed _ _ => []

/-- The text of nodes that is not inside an embed. -/
def contentOfAll : List Node → Text
  | [] => []
  | node :: nodes => node.content ++ contentOfAll nodes

end

mutual

theorem isPlain_of_mem_content (node : Node) : ∀ c ∈ node.content, isPlain c := by
  match node with
  | .text t plain => exact plain
  | .reference children => exact isPlain_of_mem_contentOfAll children
  | .embed _ _ => exact fun c hc => absurd hc List.not_mem_nil

theorem isPlain_of_mem_contentOfAll (nodes : List Node) : ∀ c ∈ contentOfAll nodes, isPlain c := by
  match nodes with
  | [] => exact fun c hc => absurd hc List.not_mem_nil
  | node :: nodes =>
    exact List.forall_mem_append.2
      ⟨isPlain_of_mem_content node, isPlain_of_mem_contentOfAll nodes⟩

end

end Node

namespace Scan

variable {s : Scan} {c : Char} {t : Text}

/-- The scan with a text at the end of its body. -/
def extend (s : Scan) (t : Text) : Scan := ⟨t.reverse ++ s.body, s.links⟩

/-- The next marker stands by itself: what has been read does not end in a part of one, nor inside
an embed. -/
structure IsReady (s : Scan) : Prop where
  body : ∀ c ∈ s.body.head?, isPlain c
  links : ∀ link ∈ s.links.head?, link.kind = .reference

theorem extend_extend (s : Scan) (t u : Text) : (s.extend t).extend u = s.extend (t ++ u) := by
  simp [extend]

theorem IsReady.extend (h : s.IsReady) (ht : ∀ c ∈ t, isPlain c) : (s.extend t).IsReady where
  body c hc := by
    rw [Scan.extend, List.head?_append] at hc
    rcases Option.or_eq_some_iff.1 hc with hc | ⟨-, hc⟩
    · exact ht c (List.mem_reverse.1 (List.mem_of_mem_head? hc))
    · exact h.body c hc
  links := h.links

/-- The start of a body inside references is ready for a marker. -/
theorem isReady_nil (before : Text) (links : List Open) :
    IsReady ⟨[], ⟨.reference, before⟩ :: links⟩ where
  body := by simp
  links := by simp

/-! ### Text and markers -/

/-- Text whose characters complete no marker, whatever is before them, is added to the body. -/
theorem read_eq_extend (h : ∀ c ∈ t, ∀ body, step ⟨body, s.links⟩ c = push ⟨body, s.links⟩ c) :
    s.read t = s.extend t := by
  induction t generalizing s with
  | nil => rfl
  | cons c t ih =>
    obtain ⟨hc, ht⟩ := List.forall_mem_cons.1 h
    have hs : s.step c = s.extend [c] := hc s.body
    have hrest : (s.extend [c]).read t = (s.extend [c]).extend t := ih ht
    rw [read_cons, hs, hrest, extend_extend, List.singleton_append]

theorem read_plain (h : ∀ c ∈ t, isPlain c) (s : Scan) : s.read t = s.extend t := by
  refine read_eq_extend fun c hc body => step_eq_push (fun hclose => ?_) fun hopen => ?_
  · exact absurd (hclose.1 ▸ h c hc) (by decide)
  · exact absurd (hopen ▸ h c hc) (by decide)

/-- Inside an embed only `]]` is a marker. -/
theorem read_target (h : ']' ∉ t) (body before : Text) (links : List Open) :
    read ⟨body, ⟨.embed, before⟩ :: links⟩ t = extend ⟨body, ⟨.embed, before⟩ :: links⟩ t := by
  refine read_eq_extend fun c hc body => ?_
  rcases step_cases ⟨body, ⟨.embed, before⟩ :: links⟩ c with
    ⟨hclose, -⟩ | ⟨-, rfl, inner, rfl, hs⟩ | ⟨-, -, hs⟩
  · exact absurd (hclose.1 ▸ hc) h
  · exact hs
  · exact hs

theorem IsReady.ne_of_mem_head? (h : s.IsReady) (hc : c ∈ s.body.head?) :
    c ≠ '[' ∧ c ≠ ']' ∧ c ≠ '!' := by
  simpa [isPlain] using h.body c hc

theorem IsReady.read_open (h : s.IsReady) :
    s.read ['[', '['] = ⟨[], ⟨.reference, s.body⟩ :: s.links⟩ := by
  have hpush : s.step '[' = s.push '[' :=
    step_eq_push (fun hc => absurd hc.1 (by decide))
      fun _ hc => (h.ne_of_mem_head? hc).1 rfl
  have hafter : Open.after s.body = ⟨.reference, s.body⟩ := by
    unfold Open.after
    split
    · next before hb => exact absurd rfl (h.ne_of_mem_head? (congrArg List.head? hb)).2.2
    · rfl
  show (s.step '[').step '[' = _
  rw [hpush, ← hafter]
  exact opened_of_reference h.links s.body

theorem IsReady.read_open_embed (h : s.IsReady) :
    s.read ['!', '[', '['] = ⟨[], ⟨.embed, s.body⟩ :: s.links⟩ :=
  opened_of_reference h.links ('!' :: s.body)

theorem read_close {body : Text} (h : ']' ∉ body.head?) (link : Open) (links : List Open) :
    read ⟨body, link :: links⟩ [']', ']'] = close body (link :: links) := by
  have hpush : step ⟨body, link :: links⟩ ']' = push ⟨body, link :: links⟩ ']' :=
    step_eq_push (fun hc => h hc.2.1) fun hc => absurd hc (by decide)
  show (step ⟨body, link :: links⟩ ']').step ']' = _
  rw [hpush]
  rfl

/-! ### Nodes -/

mutual

/-- Reading a printed node adds its content to the body. The induction is on the node, for all that
may have been read before it. -/
theorem read_print (node : Node) {s : Scan} (h : s.IsReady) :
    s.read node.print = s.extend node.content := by
  match node with
  | .text t plain => exact read_plain plain s
  | .reference children =>
    have hplain := Node.isPlain_of_mem_contentOfAll children
    have hclose : ']' ∉ (Node.contentOfAll children).reverse.head? := fun hc =>
      absurd (hplain _ (List.mem_reverse.1 (List.mem_of_mem_head? hc))) (by decide)
    rw [Node.print, read_append, read_append, h.read_open,
      read_printAll children (isReady_nil s.body s.links), extend, List.append_nil,
      read_close hclose]
    rfl
  | .embed target unclosed =>
    have hclose : ']' ∉ target.reverse.head? := fun hc =>
      unclosed (List.mem_reverse.1 (List.mem_of_mem_head? hc))
    rw [Node.print, read_append, read_append, h.read_open_embed, read_target unclosed, extend,
      List.append_nil, read_close hclose]
    rfl

theorem read_printAll (nodes : List Node) {s : Scan} (h : s.IsReady) :
    s.read (Node.printAll nodes) = s.extend (Node.contentOfAll nodes) := by
  match nodes with
  | [] => rfl
  | node :: nodes =>
    have hnode := h.extend node.isPlain_of_mem_content
    rw [Node.printAll, read_append, read_print node h, read_printAll nodes hnode, extend_extend,
      Node.contentOfAll]

end

end Scan

open Scan

/-! ### Texts and lines -/

theorem remove_printAll (nodes : List Node) :
    remove (Node.printAll nodes) = Node.contentOfAll nodes := by
  have hstart : start.IsReady := ⟨by simp [start], by simp [start]⟩
  rw [remove, read_printAll nodes hstart]
  simp [restored, reversed, extend, start]

theorem remove_body_append_terminator (line : Text) :
    remove (Line.body line) ++ Line.terminator line = remove line := by
  have hd : ¬ Text.Doubles ']' (']' :: Line.terminator line) := by
    have h := Line.isTerminator_terminator line
    generalize Line.terminator line = e at h
    cases h <;> decide
  rw [← remove_append_of_not_doubles hd, Line.body_append_terminator]

/-- Nested links come out as they are meant: one pass over printed nodes, and so the normalized line,
leaves the text that is not inside an embed, in order, and nothing else. -/
theorem normalizeLine_printAll (nodes : List Node) :
    remove (Node.printAll nodes) = Node.contentOfAll nodes ∧
      Rules.linksOnly.normalizeLine (Node.printAll nodes) = Node.contentOfAll nodes := by
  have hall := remove_printAll nodes
  refine ⟨hall, ?_⟩
  rw [← remove_body_append_terminator] at hall
  have hstable : remove (remove (Line.body (Node.printAll nodes))) =
      remove (Line.body (Node.printAll nodes)) := by
    refine remove_of_not_doubles (Or.inl fun hd => ?_)
    have hmem := List.mem_append_left (Line.terminator (Node.printAll nodes)) hd.mem
    rw [hall] at hmem
    exact absurd (Node.isPlain_of_mem_contentOfAll nodes _ hmem) (by decide)
  rw [Rules.normalizeLine_linksOnly, (Rules.untilStable_eq_pass_iff remove_sublist _).2 hstable, hall]

end Quire.Link
