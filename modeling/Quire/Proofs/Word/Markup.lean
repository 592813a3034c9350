import Quire.Proofs.Xml.Tree
import Quire.Word.Markup

/-!
# The markup of bodies, read again

What is found in the markup of a body are its leaves, in paragraphs as they were, but for those that
have no markup (`leavesOfAll_inlinesOfNodes`). These have no text, and the texts of the others come
back as `Leaf.reread` says, so that the paragraphs have the texts that are read of their leaves
(`paragraphs_ofNodes`). The markup can be written if the texts in the body can
(`isWritable_document`).
-/

namespace Quire.Word

open Xml (Node Name)

/-! ### Reading -/

theorem leavesOfNodes_append (inText : Bool) (as bs : List Node) :
    leavesOfNodes inText (as ++ bs) = leavesOfNodes inText as ++ leavesOfNodes inText bs := by
  induction as with
  | nil => rfl
  | cons a as ih => rw [List.cons_append, leavesOfNodes, leavesOfNodes, ih, List.append_assoc]

theorem inlinesOfNodes_append (as bs : List Node) :
    inlinesOfNodes (as ++ bs) = inlinesOfNodes as ++ inlinesOfNodes bs := by
  induction as with
  | nil => rfl
  | cons a as ih => rw [List.cons_append, inlinesOfNodes, inlinesOfNodes, ih, List.append_assoc]

theorem blocksOfNodes_append (as bs : List Node) :
    blocksOfNodes (as ++ bs) = blocksOfNodes as ++ blocksOfNodes bs := by
  induction as with
  | nil => rfl
  | cons a as ih => rw [List.cons_append, blocksOfNodes, blocksOfNodes, ih, List.append_assoc]

theorem Inline.leavesOfAll_append (as bs : List Inline) :
    leavesOfAll (as ++ bs) = leavesOfAll as ++ leavesOfAll bs := by
  induction as with
  | nil => rfl
  | cons a as ih => rw [List.cons_append, leavesOfAll, leavesOfAll, ih, List.append_assoc]

/-- A leaf as it is found in its markup. -/
def Leaf.reread : Leaf → Leaf
  | .text t => .ofCharacters t
  | leaf => leaf

/-- The text of a paragraph as it is found in its markup. -/
def Block.rereadText? : Block → Option Text
  | .paragraph _ children =>
    some ((Inline.leavesOfAll children).flatMap fun leaf => leaf.reread.content)
  | .other => none

/-- The leaves that have markup are found in it. -/
theorem leavesOfNodes_flatMap_nodes (leaves : List Leaf) :
    leavesOfNodes false (leaves.flatMap Leaf.nodes) =
      (leaves.filter (· != .other)).map Leaf.reread := by
  induction leaves with
  | nil => rfl
  | cons leaf leaves ih =>
    rw [List.flatMap_cons, leavesOfNodes_append, ih, List.filter_cons]
    cases leaf with
    | _ => rfl

mutual

theorem leavesOfAll_inlinesOfNodes (child : Inline) :
    Inline.leavesOfAll (inlinesOfNodes child.nodes) =
      (child.leaves.filter (· != .other)).map Leaf.reread := by
  match child with
  | .run leaves =>
    have hread : inlinesOfNodes (Inline.run leaves).nodes =
        [.run (leavesOfNodes false (leaves.flatMap Leaf.nodes))] := rfl
    rw [hread, leavesOfNodes_flatMap_nodes]
    exact List.append_nil _
  | .link children =>
    have hread : inlinesOfNodes (Inline.link children).nodes =
        [.link (inlinesOfNodes (nodesOfInlines children))] := rfl
    rw [hread, Inline.leaves, ← leavesOfAll_nodesOfInlines children]
    exact List.append_nil _
  | .other => rfl

theorem leavesOfAll_nodesOfInlines (children : List Inline) :
    Inline.leavesOfAll (inlinesOfNodes (nodesOfInlines children)) =
      ((Inline.leavesOfAll children).filter (· != .other)).map Leaf.reread := by
  match children with
  | [] => rfl
  | child :: children =>
    rw [nodesOfInlines, inlinesOfNodes_append, Inline.leavesOfAll_append,
      leavesOfAll_inlinesOfNodes child, leavesOfAll_nodesOfInlines children, Inline.leavesOfAll,
      List.filter_append, List.map_append]

end

/-- What has no text does not count, however the others are read. -/
theorem flatMap_filter_of_other {f : Leaf → Text} (hf : f .other = []) (leaves : List Leaf) :
    (leaves.filter (· != .other)).flatMap f = leaves.flatMap f := by
  induction leaves with
  | nil => rfl
  | cons leaf leaves ih =>
    rw [List.filter_cons, List.flatMap_cons, ← ih]
    cases leaf with
    | other => rw [hf]; rfl
    | _ => rfl

/-- The paragraphs in the markup of a block have the text that is read of it. -/
theorem filterMap_text?_blocksOfNodes (block : Block) :
    (blocksOfNodes block.nodes).filterMap Block.text? = block.rereadText?.toList := by
  cases block with
  | other => rfl
  | paragraph style children =>
    have hleaves : ∃ style' children', blocksOfNodes (Block.paragraph style children).nodes =
        [.paragraph style' children'] ∧ Inline.leavesOfAll children' =
          ((Inline.leavesOfAll children).filter (· != .other)).map Leaf.reread := by
      cases style with
      | none => exact ⟨_, _, rfl, leavesOfAll_nodesOfInlines children⟩
      | some style => exact ⟨_, _, rfl, leavesOfAll_nodesOfInlines children⟩
    obtain ⟨style', children', hread, hleaves⟩ := hleaves
    rw [hread, List.filterMap_cons, Block.text?, hleaves, List.flatMap_map,
      flatMap_filter_of_other rfl]
    rfl

theorem ofNodes_document (b : Body) :
    Body.ofNodes [b.document] = blocksOfNodes (b.flatMap Block.nodes) :=
  (List.append_nil (blocksOfNodes (b.flatMap Block.nodes) ++ [])).trans (List.append_nil _)

/-- The paragraphs in the markup of a body have the texts that are read of its leaves. -/
theorem paragraphs_ofNodes (b : Body) :
    (Body.ofNodes [b.document]).paragraphs = b.filterMap Block.rereadText? := by
  rw [ofNodes_document, Body.paragraphs]
  induction b with
  | nil => rfl
  | cons block b ih =>
    rw [List.flatMap_cons, blocksOfNodes_append, List.filterMap_append,
      filterMap_text?_blocksOfNodes, ih, List.filterMap_cons]
    cases block.rereadText? <;> rfl

/-! ### Writing -/

/-- Whether a text can be written between tags. -/
def Leaf.isWritable : Leaf → Bool
  | .text t => !t.isEmpty && !t.contains '\r'
  | _ => true

/-- Whether a block can be written. -/
def Block.isWritable : Block → Bool
  | .paragraph style children =>
    !(style.any (·.contains '\r')) && (Inline.leavesOfAll children).all Leaf.isWritable
  | .other => true

/-- Elements beside each other that can be written. -/
def AreElements (nodes : List Node) : Prop := ∀ node ∈ nodes, node.isWritable ∧ ¬ node.isText

theorem areElements_nil : AreElements [] := List.forall_mem_nil _

theorem AreElements.append {as bs : List Node} (ha : AreElements as) (hb : AreElements bs) :
    AreElements (as ++ bs) := List.forall_mem_append.2 ⟨ha, hb⟩

theorem areElements_flatMap {α : Type} {f : α → List Node} {as : List α}
    (h : ∀ a ∈ as, AreElements (f a)) : AreElements (as.flatMap f) := by
  intro node hn
  obtain ⟨a, ha, hn⟩ := List.mem_flatMap.1 hn
  exact h a ha node hn

theorem areElements_element {n : Name} {attributes : Xml.Attributes} {children : List Node}
    (hn : n.isWritable) (ha : attributes.isWritable) (hc : Node.areWritable children) :
    AreElements [.element n attributes children] :=
  List.forall_mem_singleton.2 ⟨Node.isWritable_element_iff.2 ⟨hn, ha, hc⟩, Bool.false_ne_true⟩

theorem AreElements.areWritable {nodes : List Node} (h : AreElements nodes) :
    Node.areWritable nodes := by
  induction nodes with
  | nil => rfl
  | cons node nodes ih =>
    obtain ⟨⟨hwritable, htext⟩, hnodes⟩ := List.forall_mem_cons.1 h
    exact Node.areWritable_cons_iff.2 ⟨hwritable, fun ht => htext ht.1, ih hnodes⟩

theorem Leaf.areElements_nodes {leaf : Leaf} (h : leaf.isWritable) : AreElements leaf.nodes := by
  cases leaf with
  | text t =>
    have htext : Node.areWritable [.text t] := by
      simpa [Node.areWritable, Node.isWritable, Leaf.isWritable] using h
    exact areElements_element (by decide) (by decide) htext
  | other => exact areElements_nil
  | _ => exact areElements_element (by decide) (by decide) rfl

mutual

theorem Inline.areElements_nodes (child : Inline) (h : ∀ leaf ∈ child.leaves, leaf.isWritable) :
    AreElements child.nodes := by
  match child with
  | .run leaves =>
    have hleaves := areElements_flatMap fun leaf hl => Leaf.areElements_nodes (h leaf hl)
    exact areElements_element (by decide) (by decide) hleaves.areWritable
  | .link children =>
    have hchildren := areElements_nodesOfInlines children h
    exact areElements_element (by decide) (by decide) hchildren.areWritable
  | .other => exact areElements_nil

theorem areElements_nodesOfInlines (children : List Inline)
    (h : ∀ leaf ∈ Inline.leavesOfAll children, leaf.isWritable) :
    AreElements (nodesOfInlines children) := by
  match children with
  | [] => exact areElements_nil
  | child :: children =>
    obtain ⟨hchild, hchildren⟩ := List.forall_mem_append.1 h
    exact (child.areElements_nodes hchild).append (areElements_nodesOfInlines children hchildren)

end

theorem areElements_style {style : Text} (h : '\r' ∉ style) :
    AreElements [element "pPr" [] [element "pStyle" [("val", style)] []]] := by
  have hname : (⟨['w'], "val".toList⟩ : Name).isWritable := by decide
  have hvalue : Xml.Attributes.isWritable [(⟨['w'], "val".toList⟩, style)] :=
    Xml.Attributes.isWritable_iff.2 ⟨List.forall_mem_singleton.2 ⟨hname, h⟩, by simp⟩
  have hstyle : AreElements [element "pStyle" [("val", style)] []] :=
    areElements_element (by decide) hvalue rfl
  exact areElements_element (by decide) (by decide) hstyle.areWritable

theorem Block.areElements_nodes {block : Block} (h : block.isWritable) :
    AreElements block.nodes := by
  cases block with
  | other => exact areElements_nil
  | paragraph style children =>
    simp only [Block.isWritable, Bool.and_eq_true, List.all_eq_true] at h
    obtain ⟨hstyle, hchildren⟩ := h
    have hnodes := areElements_nodesOfInlines children hchildren
    cases style with
    | none => exact areElements_element (by decide) (by decide) hnodes.areWritable
    | some style =>
      have hproperties := areElements_style (by simpa using hstyle)
      exact areElements_element (by decide) (by decide) (hproperties.append hnodes).areWritable

/-- The markup of a body can be written if each of its blocks can. -/
theorem isWritable_document {b : Body} (h : ∀ block ∈ b, block.isWritable) :
    b.document.isWritable := by
  have hnodes := areElements_flatMap fun block hb => Block.areElements_nodes (h block hb)
  have hbody : AreElements [element "body" [] (b.flatMap Block.nodes)] :=
    areElements_element (by decide) (by decide) hnodes.areWritable
  exact Node.isWritable_element_iff.2 ⟨by decide, by decide +kernel, hbody.areWritable⟩

end Quire.Word
