import Quire.Proofs.Word.Markup
import Quire.Proofs.Xml.Legal

/-!
# Legal characters in the markup of bodies

The markup of a body has only characters that XML allows if the texts and the styles in the body
have no others (`Body.isLegal_printDocument`).
-/

namespace Quire.Word

open Xml (IsLegal Node printAll)

/-- A block whose style and texts may stand in a document. -/
def Block.IsLegal : Block → Prop
  | .paragraph style children =>
    (∀ s ∈ style, Xml.IsLegal s) ∧ ∀ leaf ∈ Inline.leavesOfAll children, Xml.IsLegal leaf.raw
  | .other => True

theorem isLegal_printAll_element {name : String} {attributes : List (String × Text)}
    {children : List Node} (hn : IsLegal ('w' :: ':' :: name.toList))
    (ha : ∀ a ∈ attributes, IsLegal a.1.toList ∧ IsLegal a.2) (h : IsLegal (printAll children)) :
    IsLegal (printAll [element name attributes children]) := by
  refine IsLegal.printAll_element hn (fun a hm => ?_) h
  obtain ⟨given, hgiven, rfl⟩ := List.mem_map.1 hm
  have hspace : IsLegal ['w', ':'] := by decide
  exact ⟨hspace.append (ha given hgiven).1, (ha given hgiven).2⟩

theorem isLegal_printAll_empty {name : String} (hn : IsLegal ('w' :: ':' :: name.toList)) :
    IsLegal (printAll [element name [] []]) :=
  isLegal_printAll_element hn (List.forall_mem_nil _) Xml.isLegal_nil

theorem Leaf.isLegal_printAll_nodes {leaf : Leaf} (h : IsLegal leaf.raw) :
    IsLegal (printAll leaf.nodes) := by
  cases leaf with
  | text t => exact IsLegal.printAll_element (by decide) (by decide) (IsLegal.printAll_text h)
  | tab => exact isLegal_printAll_empty (by decide)
  | lineBreak => exact isLegal_printAll_empty (by decide)
  | pageBreak => exact isLegal_printAll_element (by decide) (by decide) Xml.isLegal_nil
  | other => exact Xml.isLegal_nil

mutual

theorem Inline.isLegal_printAll_nodes (child : Inline) (h : ∀ leaf ∈ child.leaves, IsLegal leaf.raw) :
    IsLegal (printAll child.nodes) := by
  match child with
  | .run leaves =>
    have hleaves := IsLegal.printAll_flatMap fun leaf hl => Leaf.isLegal_printAll_nodes (h leaf hl)
    exact isLegal_printAll_element (by decide) (List.forall_mem_nil _) hleaves
  | .link children =>
    have hchildren := isLegal_printAll_nodesOfInlines children h
    exact isLegal_printAll_element (by decide) (List.forall_mem_nil _) hchildren
  | .other => exact Xml.isLegal_nil

theorem isLegal_printAll_nodesOfInlines (children : List Inline)
    (h : ∀ leaf ∈ Inline.leavesOfAll children, IsLegal leaf.raw) :
    IsLegal (printAll (nodesOfInlines children)) := by
  match children with
  | [] => exact Xml.isLegal_nil
  | child :: children =>
    obtain ⟨hchild, hchildren⟩ := List.forall_mem_append.1 h
    rw [nodesOfInlines, Xml.printAll_append]
    exact (child.isLegal_printAll_nodes hchild).append
      (isLegal_printAll_nodesOfInlines children hchildren)

end

theorem isLegal_printAll_style {style : Text} (h : IsLegal style) :
    IsLegal (printAll [element "pPr" [] [element "pStyle" [("val", style)] []]]) := by
  have hname : IsLegal "val".toList := by decide
  have hvalue : ∀ a ∈ [("val", style)], IsLegal a.1.toList ∧ IsLegal a.2 :=
    List.forall_mem_singleton.2 ⟨hname, h⟩
  have hstyle : IsLegal (printAll [element "pStyle" [("val", style)] []]) :=
    isLegal_printAll_element (by decide) hvalue Xml.isLegal_nil
  exact isLegal_printAll_element (by decide) (List.forall_mem_nil _) hstyle

theorem Block.isLegal_printAll_nodes {block : Block} (h : block.IsLegal) :
    Xml.IsLegal (printAll block.nodes) := by
  cases block with
  | other => exact Xml.isLegal_nil
  | paragraph style children =>
    have hnodes := isLegal_printAll_nodesOfInlines children h.2
    cases style with
    | none => exact isLegal_printAll_element (by decide) (List.forall_mem_nil _) hnodes
    | some style =>
      have hproperties := isLegal_printAll_style (h.1 style rfl)
      refine isLegal_printAll_element (by decide) (List.forall_mem_nil _) ?_
      rw [← List.singleton_append, Xml.printAll_append]
      exact hproperties.append hnodes

/-- The markup of a body is legal if each of its blocks is. -/
theorem Body.isLegal_printDocument {b : Body} (h : ∀ block ∈ b, block.IsLegal) :
    Xml.IsLegal (Xml.printDocument b.document) := by
  have hnodes := IsLegal.printAll_flatMap fun block hb => Block.isLegal_printAll_nodes (h block hb)
  have hbody : IsLegal (printAll [element "body" [] (b.flatMap Block.nodes)]) :=
    isLegal_printAll_element (by decide) (List.forall_mem_nil _) hnodes
  exact (IsLegal.print_element (by decide) (by decide +kernel) hbody).printDocument

end Quire.Word
