import Quire.Proofs.Xml.Escape
import Quire.Xml.Tree

/-!
# Characters that XML allows

XML 1.0 has a place for every character but most of the control characters and two others
(`isLegal`). An element is written in characters that have one if its name, its attributes and what
it holds are (`IsLegal.printAll_element`).
-/

namespace Quire.Xml

/-- A character that may stand in a document. -/
def isLegal (c : Char) : Bool :=
  ['\t', '\n', '\r'].contains c || (0x20 ≤ c.toNat && c.toNat ≤ 0xD7FF) ||
    (0xE000 ≤ c.toNat && c.toNat ≤ 0xFFFD) || 0x10000 ≤ c.toNat

/-- A text that may stand in a document. -/
def IsLegal (t : Text) : Prop := ∀ c ∈ t, isLegal c

variable {s t : Text} {n : Name} {attributes : Attributes} {nodes : List Node}

instance (t : Text) : Decidable (IsLegal t) := List.decidableBAll _ t

theorem isLegal_nil : IsLegal [] := List.forall_mem_nil _

theorem IsLegal.append (hs : IsLegal s) (ht : IsLegal t) : IsLegal (s ++ t) :=
  List.forall_mem_append.2 ⟨hs, ht⟩

theorem IsLegal.escape (h : IsLegal t) : IsLegal (escape t) := by
  intro c hc
  obtain ⟨d, hd, hm⟩ := List.mem_flatMap.1 hc
  rcases mem_escapeChar hm with ⟨rfl, -⟩ | hm
  · exact h c hd
  · have hnames : IsLegal "&ampltgquos;".toList := by decide
    exact hnames c hm

theorem IsLegal.print_attributes
    (h : ∀ a ∈ attributes, IsLegal a.1.print ∧ IsLegal a.2) : IsLegal attributes.print := by
  intro c hc
  obtain ⟨a, ha, hc⟩ := List.mem_flatMap.1 hc
  obtain ⟨hname, hvalue⟩ := h a ha
  have hmarks : IsLegal [' '] ∧ IsLegal ['=', '"'] ∧ IsLegal ['"'] := by decide
  have hprint := (((hmarks.1.append hname).append hmarks.2.1).append hvalue.escape).append hmarks.2.2
  exact hprint c hc

theorem printAll_append (as bs : List Node) : printAll (as ++ bs) = printAll as ++ printAll bs := by
  induction as with
  | nil => rfl
  | cons a as ih => rw [List.cons_append, printAll, printAll, ih, List.append_assoc]

theorem IsLegal.printAll_flatMap {α : Type} {f : α → List Node} {as : List α}
    (h : ∀ a ∈ as, IsLegal (printAll (f a))) : IsLegal (printAll (as.flatMap f)) := by
  induction as with
  | nil => exact isLegal_nil
  | cons a as ih =>
    obtain ⟨ha, has⟩ := List.forall_mem_cons.1 h
    rw [List.flatMap_cons, printAll_append]
    exact ha.append (ih has)

theorem IsLegal.printAll_text (h : IsLegal t) : IsLegal (printAll [.text t]) :=
  h.escape.append isLegal_nil

theorem IsLegal.print_element (hn : IsLegal n.print)
    (ha : ∀ a ∈ attributes, IsLegal a.1.print ∧ IsLegal a.2) (h : IsLegal (printAll nodes)) :
    IsLegal (Node.element n attributes nodes).print := by
  have hmarks : IsLegal ['<'] ∧ IsLegal ['>'] ∧ IsLegal ['<', '/'] := by decide
  have hstart := ((hmarks.1.append hn).append (print_attributes ha)).append hmarks.2.1
  exact (((hstart.append h).append hmarks.2.2).append hn).append hmarks.2.1

theorem IsLegal.printAll_element (hn : IsLegal n.print)
    (ha : ∀ a ∈ attributes, IsLegal a.1.print ∧ IsLegal a.2) (h : IsLegal (printAll nodes)) :
    IsLegal (printAll [.element n attributes nodes]) :=
  (print_element hn ha h).append isLegal_nil

/-- A document is legal if its root is. -/
theorem IsLegal.printDocument {root : Node} (h : IsLegal root.print) :
    IsLegal (printDocument root) := by
  have hdeclaration : IsLegal "<?xml version=\"1.0\" encoding=\"UTF-8\"?>".toList := by decide
  exact hdeclaration.append h

end Quire.Xml
