import Quire.Proofs.Word.Package

/-!
# The text of a body is that of its leaves

What a body shows are the leaves of its paragraphs that have text, in order (`Body.textLeaves`);
where runs end, where a text is cut in two, what stands in links and what has no text does not
matter. Bodies that differ in such things only are alike (`Body.Alike`): those with the same leaves
are (`Body.alike_of_textLeaves_eq`), and all that are alike have the same lines
(`Body.lines_eq_of_textLeaves`).
-/

namespace Quire.Word

variable {read : Text}

/-! ### Reading from left to right -/

/-- The text that has been read and then that of a leaf. -/
def Leaf.push (read : Text) : Leaf → Text
  | text t => read ++ t
  | tab => read ++ ['\t']
  | lineBreak | pageBreak => read ++ ['\n']
  | other => read

namespace Inline

mutual

/-- The text that has been read and then that of an inline. -/
def push (read : Text) : Inline → Text
  | run leaves => leaves.foldl Leaf.push read
  | link children => pushAll read children
  | other => read

/-- The text that has been read and then that of some inlines. -/
def pushAll (read : Text) : List Inline → Text
  | [] => read
  | child :: children => pushAll (child.push read) children

end

end Inline

/-- The text of a paragraph, read from its start. -/
def Block.pushed? : Block → Option Text
  | .paragraph _ children => some (Inline.pushAll [] children)
  | .other => none

theorem Leaf.push_eq (read : Text) (leaf : Leaf) : leaf.push read = read ++ leaf.content := by
  cases leaf with
  | other => exact (List.append_nil read).symm
  | _ => rfl

theorem Leaf.foldl_push (leaves : List Leaf) (read : Text) :
    leaves.foldl push read = read ++ leaves.flatMap content := by
  induction leaves generalizing read with
  | nil => exact (List.append_nil read).symm
  | cons leaf leaves ih => rw [List.foldl_cons, ih, push_eq, List.flatMap_cons, List.append_assoc]

mutual

theorem Inline.push_eq (read : Text) (child : Inline) :
    child.push read = read ++ child.leaves.flatMap Leaf.content := by
  match child with
  | .run leaves => exact Leaf.foldl_push leaves read
  | .link children => exact Inline.pushAll_eq read children
  | .other => exact (List.append_nil read).symm

theorem Inline.pushAll_eq (read : Text) (children : List Inline) :
    pushAll read children = read ++ (leavesOfAll children).flatMap Leaf.content := by
  match children with
  | [] => exact (List.append_nil read).symm
  | child :: children =>
    rw [pushAll, Inline.pushAll_eq, Inline.push_eq, leavesOfAll, List.flatMap_append,
      List.append_assoc]

end

theorem Block.pushed?_eq (block : Block) : block.pushed? = block.text? := by
  cases block with
  | paragraph style children => exact congrArg some (Inline.pushAll_eq [] children)
  | other => rfl

/-! ### Inlines that are alike -/

namespace Inline

/-- Inlines with the same text, in other runs and links and with other things that have no text. -/
inductive Alike : List Inline → List Inline → Prop
  | refl (as : List Inline) : Alike as as
  | symm {as bs : List Inline} : Alike as bs → Alike bs as
  | trans {as bs cs : List Inline} : Alike as bs → Alike bs cs → Alike as cs
  | append {as bs cs ds : List Inline} : Alike as bs → Alike cs ds → Alike (as ++ cs) (bs ++ ds)
  | inLink {as bs : List Inline} : Alike as bs → Alike [.link as] [.link bs]
  /-- A link stands for what it holds. -/
  | unlink (as : List Inline) : Alike [.link as] as
  /-- A run may be cut between its leaves. -/
  | cut (xs ys : List Leaf) : Alike [.run (xs ++ ys)] [.run xs, .run ys]
  /-- A leaf may be cut anywhere in its text. -/
  | cutText (xs ys : List Leaf) (u v : Text) :
      Alike [.run (xs ++ .text (u ++ v) :: ys)] [.run (xs ++ .text u :: .text v :: ys)]
  | skipLeaf (xs ys : List Leaf) : Alike [.run (xs ++ .other :: ys)] [.run (xs ++ ys)]
  | skipRun : Alike [.run []] []
  | skip : Alike [.other] []

theorem leavesOfAll_run (leaves : List Leaf) : leavesOfAll [.run leaves] = leaves :=
  List.append_nil leaves

theorem leavesOfAll_link (children : List Inline) :
    leavesOfAll [.link children] = leavesOfAll children :=
  List.append_nil (leavesOfAll children)

theorem Alike.flatMap_content {as bs : List Inline} (h : Alike as bs) :
    (leavesOfAll as).flatMap Leaf.content = (leavesOfAll bs).flatMap Leaf.content := by
  induction h with
  | refl => rfl
  | symm _ ih => exact ih.symm
  | trans _ _ ih ih' => exact ih.trans ih'
  | append _ _ ih ih' =>
    rw [leavesOfAll_append, leavesOfAll_append, List.flatMap_append, List.flatMap_append, ih, ih']
  | inLink _ ih => rwa [leavesOfAll_link, leavesOfAll_link]
  | unlink as => rw [leavesOfAll_link]
  | cut xs ys =>
    rw [leavesOfAll_run, leavesOfAll, leavesOfAll_run]
    rfl
  | cutText xs ys u v =>
    rw [leavesOfAll_run, leavesOfAll_run, List.flatMap_append, List.flatMap_append,
      List.flatMap_cons, List.flatMap_cons, List.flatMap_cons, Leaf.content, Leaf.content,
      Leaf.content, List.append_assoc]
  | skipLeaf xs ys =>
    rw [leavesOfAll_run, leavesOfAll_run, List.flatMap_append, List.flatMap_append,
      List.flatMap_cons]
    rfl
  | skipRun => rfl
  | skip => rfl

/-- A run is like the one with its leaves that have text. -/
theorem alike_run_filter (leaves : List Leaf) :
    Alike [.run leaves] [.run (leaves.filter (· != .other))] := by
  induction leaves with
  | nil => exact .refl _
  | cons leaf leaves ih =>
    by_cases hleaf : leaf = .other
    · subst hleaf
      exact (Alike.skipLeaf [] leaves).trans ih
    · have hfilter : (leaf :: leaves).filter (· != .other) =
          leaf :: leaves.filter (· != .other) := List.filter_cons_of_pos (by simpa using hleaf)
      rw [hfilter]
      have hleft : Alike [.run (leaf :: leaves)] [.run [leaf], .run leaves] := .cut [leaf] leaves
      have hright : Alike [.run (leaf :: leaves.filter (· != .other))]
          [.run [leaf], .run (leaves.filter (· != .other))] := .cut [leaf] _
      exact (hleft.trans (.append (.refl [.run [leaf]]) ih)).trans hright.symm

mutual

-- A link is taken off, and what it held is merged into one run.
theorem alike_run (child : Inline) : Alike [child] [.run (child.leaves.filter (· != .other))] := by
  match child with
  | .run leaves => exact alike_run_filter leaves
  | .link children => exact (Alike.unlink children).trans (alike_run_leavesOfAll children)
  | .other => exact Alike.skip.trans Alike.skipRun.symm

/-- Inlines are like a single run with all their leaves that have text. -/
theorem alike_run_leavesOfAll (children : List Inline) :
    Alike children [.run ((leavesOfAll children).filter (· != .other))] := by
  match children with
  | [] => exact Alike.skipRun.symm
  | child :: children =>
    have happend := (alike_run child).append (alike_run_leavesOfAll children)
    rw [leavesOfAll, List.filter_append]
    exact happend.trans (Alike.cut _ _).symm

end

end Inline

/-! ### Bodies that are alike -/

/-- The leaves of a paragraph that have text. -/
def Block.textLeaves? : Block → Option (List Leaf)
  | .paragraph _ children => some ((Inline.leavesOfAll children).filter (· != .other))
  | .other => none

namespace Body

/-- The leaves that have text, for each paragraph of a body. -/
def textLeaves (b : Body) : List (List Leaf) := b.filterMap Block.textLeaves?

/-- Bodies whose paragraphs are alike, with other blocks among them that are no paragraphs. -/
inductive Alike : Body → Body → Prop
  | refl (b : Body) : Alike b b
  | symm {b c : Body} : Alike b c → Alike c b
  | trans {b c d : Body} : Alike b c → Alike c d → Alike b d
  | append {b c d e : Body} : Alike b c → Alike d e → Alike (b ++ d) (c ++ e)
  | paragraph (style style' : Option Text) {as bs : List Inline} :
      Inline.Alike as bs → Alike [.paragraph style as] [.paragraph style' bs]
  | skip : Alike [.other] []

variable {b c : Body}

theorem paragraphs_eq_map_textLeaves (b : Body) :
    b.paragraphs = b.textLeaves.map (List.flatMap Leaf.content) := by
  rw [paragraphs, textLeaves, List.map_filterMap]
  refine List.filterMap_congr fun block _ => ?_
  cases block with
  | paragraph style children => exact congrArg some (flatMap_filter_of_other rfl _).symm
  | other => rfl

theorem Alike.paragraphs_eq (h : Alike b c) : b.paragraphs = c.paragraphs := by
  induction h with
  | refl => rfl
  | symm _ ih => exact ih.symm
  | trans _ _ ih ih' => exact ih.trans ih'
  | append _ _ ih ih' =>
    rw [paragraphs, List.filterMap_append]
    exact (congrArg₂ (· ++ ·) ih ih').trans List.filterMap_append.symm
  | paragraph style style' h => exact congrArg (fun t => [t]) h.flatMap_content
  | skip => rfl

theorem alike_textLeaves (b : Body) :
    Alike b (b.textLeaves.map fun leaves => .paragraph none [.run leaves]) := by
  induction b with
  | nil => exact .refl _
  | cons block b ih =>
    cases block with
    | paragraph style children =>
      exact (Alike.paragraph style none (Inline.alike_run_leavesOfAll children)).append ih
    | other => exact Alike.skip.append ih

theorem alike_of_textLeaves_eq (h : b.textLeaves = c.textLeaves) : Alike b c := by
  have hb := alike_textLeaves b
  rw [h] at hb
  exact hb.trans (alike_textLeaves c).symm

/-- The lines of a body are those of the texts of its paragraphs, each read from left to right, a
tab for a tab and a line feed for a break, whatever stands in links; that is, of the texts of the
leaves. Bodies with the same leaves differ in runs, links and things without text only, and bodies
that differ in no more than that have the same lines. -/
theorem lines_eq_of_textLeaves (b c : Body) :
    b.lines = Line.split (Text.joinWith ['\n'] (b.filterMap Block.pushed?)) ∧
    b.lines = Line.split (Text.joinWith ['\n'] (b.textLeaves.map (List.flatMap Leaf.content))) ∧
    (b.textLeaves = c.textLeaves → Alike b c) ∧
    (Alike b c → b.lines = c.lines ∧ ∀ bytes bytes' : ByteArray,
      Package.read? bytes.data.toList = some b → Package.read? bytes'.data.toList = some c →
        Extraction.ofDocx bytes = Extraction.ofDocx bytes') := by
  refine ⟨?_, ?_, alike_of_textLeaves_eq, fun h => ?_⟩
  · rw [lines, text, paragraphs, List.filterMap_congr fun block _ => Block.pushed?_eq block]
  · rw [lines, text, paragraphs_eq_map_textLeaves]
  · have hlines : b.lines = c.lines := by
      rw [lines, lines, text, text, h.paragraphs_eq]
    refine ⟨hlines, fun bytes bytes' hb hc => ?_⟩
    rw [Package.ofDocx_of_read? hb, Package.ofDocx_of_read? hc, hlines]

/-- Links in links, a paragraph with a style and other runs, and runs that are cut inside what looks
like the name of a character. -/
theorem lines_eq_of_textLeaves_links :
    let b : Body := [.paragraph none [.link [.run [.text "See ".toList],
      .link [.run [.text "&lt;".toList, .tab]]], .run [.lineBreak]]]
    let c : Body := [.paragraph (some "Title".toList) [.other, .run [.text "See ".toList],
      .run [.text "&lt;".toList, .tab, .lineBreak], .link []]]
    let d : Body := [.paragraph none [.run [.text "See ".toList, .text "&l".toList],
      .run [.text "t;".toList, .tab, .lineBreak]]]
    let escaped : Body := [.paragraph none [.link [.run [.text "See ".toList],
      .link [.run [.text "&amp;lt;".toList, .tab]]], .run [.lineBreak]]]
    b.textLeaves = c.textLeaves ∧ Alike b c ∧ Alike b d ∧
      b.lines = ["See &lt;\t\n".toList] ∧ c.lines = ["See &lt;\t\n".toList] ∧
      d.lines = ["See &lt;\t\n".toList] ∧
      Package.read? (Package.write escaped) = some b ∧ Package.read? (Package.write d) = some d ∧
      Extraction.ofDocx (Package.write escaped).toByteArray =
        Extraction.ofDocx (Package.write d).toByteArray := by
  intro b c d escaped
  have hleaves : b.textLeaves = c.textLeaves := by decide
  have hcut : Alike b d :=
    (alike_textLeaves b).trans <|
      (Alike.paragraph none none (.cutText [.text "See ".toList] [.tab, .lineBreak]
        "&l".toList "t;".toList)).trans (alike_textLeaves d).symm
  have hb : Package.read? (Package.write escaped) = some b :=
    Package.read?_write ((Package.length_write_le escaped).trans_lt (by decide +kernel))
      (by decide +kernel)
  have hd : Package.read? (Package.write d) = some d :=
    Package.read?_write ((Package.length_write_le d).trans_lt (by decide +kernel))
      (by decide +kernel)
  obtain ⟨-, -, halike, hlines⟩ := lines_eq_of_textLeaves b c
  obtain ⟨hlines, -⟩ := hlines (halike hleaves)
  obtain ⟨hlines', hdocx⟩ := (lines_eq_of_textLeaves b d).2.2.2 hcut
  have hb' : b.lines = ["See &lt;\t\n".toList] := by decide
  exact ⟨hleaves, halike hleaves, hcut, hb', hlines.symm.trans hb', hlines'.symm.trans hb', hb, hd,
    hdocx _ _ (by simpa using hb) (by simpa using hd)⟩

end Body

end Quire.Word
