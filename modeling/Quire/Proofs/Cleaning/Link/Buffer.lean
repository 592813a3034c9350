import Quire.Proofs.Cleaning.Link.Pass
import Quire.Proofs.Text.Offset

/-!
# Links in one buffer

A `Buffer` is the scan with its texts in one piece: all output so far, and for every open link the
byte offset at which its contents begin. It compares bytes, cuts the output at offsets and fails
where an offset is out of range or inside a character (`Buffer.step?`, `Buffer.restored?`). It does
what the scan does, character by character (`step?_buffer`), and puts back what the scan puts back
(`restored?_buffer`). So it never fails, and what holds of the scan gives the invariant of the
offsets (`Buffer.IsSound`, `Buffer.read?_sound`).
-/

namespace Quire.Link

/-- A link whose closing marker has not been read: its kind, and the byte offset in the output at
which its contents begin. -/
structure Mark where
  kind : Kind
  start : Nat
  deriving DecidableEq, Repr

/-- The output so far and the open links, innermost first. -/
structure Buffer where
  out : Text
  marks : List Mark
  deriving DecidableEq, Repr

namespace Buffer

/-- Nothing has been read. -/
def empty : Buffer := ⟨[], []⟩

/-- The offset at which the contents of the innermost open link begin, or the output if no link is
open. -/
def frame (b : Buffer) : Nat := (b.marks.head?.map Mark.start).getD 0

/-- A text without its last character, which has to be there. -/
def pop? (t : Text) : Option Text := if t = [] then none else some t.dropLast

/-- The output ends in the marker `]]`. -/
def close? (b : Buffer) : Option Buffer :=
  match b.marks with
  | [] => some b
  | ⟨.reference, _⟩ :: marks =>
    (Text.truncate? b.out (Text.utf8Length b.out - 2)).map fun out => ⟨out, marks⟩
  | ⟨.embed, start⟩ :: marks => (Text.truncate? b.out start).map fun out => ⟨out, marks⟩

/-- The output ends in the marker `[[`. -/
def open? (b : Buffer) : Option Buffer :=
  if b.marks.head?.map Mark.kind = some .embed then some b
  else do
    let out ← Text.truncate? b.out (Text.utf8Length b.out - 2)
    if b.frame < Text.utf8Length out ∧ out.getLast? = some '!' then
      let out ← pop? out
      return ⟨out, ⟨.embed, Text.utf8Length out⟩ :: b.marks⟩
    else
      return ⟨out, ⟨.reference, Text.utf8Length out⟩ :: b.marks⟩

/-- The character is put out. -/
def push (b : Buffer) (c : Char) : Buffer := ⟨b.out ++ [c], b.marks⟩

/-- Reads one character. A bracket completes a marker if the byte before it is the same and both
belong to the contents of the innermost open link. -/
def step? (b : Buffer) (c : Char) : Option Buffer :=
  let next := b.push c
  let size := Text.utf8Length next.out
  if c ≠ '[' ∧ c ≠ ']' then some next
  else if size < b.frame + 2 then some next
  else do
    let previous ← (Text.utf8 next.out)[size - 2]?
    if previous ≠ c.toUInt8 then return next
    else if c = ']' then next.close?
    else next.open?

/-- Reads a text. -/
def read? (b : Buffer) (t : Text) : Option Buffer := t.foldlM step? b

/-- Puts back one marker: the text so far, which has the output up to the offset `copied`, goes on
with the output up to the contents of the link and, in front of them, its marker. -/
def restoreStep? (out : Text) (done : Text × Nat) (m : Mark) : Option (Text × Nat) :=
  let (restored, copied) := done
  (Text.slice? out ⟨copied, m.start⟩).map fun part =>
    (restored ++ part ++ m.kind.marker, m.start)

/-- The output with the markers of the open links back in their places. -/
def restored? (b : Buffer) : Option Text := do
  let (restored, copied) ← b.marks.reverse.foldlM (restoreStep? b.out) ([], 0)
  let part ← Text.slice? b.out ⟨copied, Text.utf8Length b.out⟩
  return restored ++ part

/-- A text with its references unwrapped and its embeds dropped. -/
def remove? (t : Text) : Option Text := (empty.read? t).bind restored?

/-- Reading the character closes a link: fewer links are open after it. -/
def Closes (b : Buffer) (c : Char) : Prop :=
  ∃ next, b.step? c = some next ∧ next.marks.length < b.marks.length

/-- A link is closed while the text is read. -/
def ClosesIn (t : Text) : Prop :=
  ∃ read c rest, t = read ++ c :: rest ∧ ∃ b, empty.read? read = some b ∧ b.Closes c

/-- What holds of the buffer when the text `t` has been read. -/
structure IsSound (b : Buffer) (t : Text) : Prop where
  /-- The offsets do not decrease from the outermost link inwards. -/
  ordered : b.marks.Pairwise fun inner outer => outer.start ≤ inner.start
  inside : ∀ m ∈ b.marks, m.start ≤ Text.utf8Length b.out ∧ Text.IsBoundary b.out m.start
  /-- Only the innermost link can be an embed. -/
  outer : ∀ m ∈ b.marks.tail, m.kind = .reference
  /-- With the markers put back the output is what is left of the text. -/
  restored : ∃ r, b.restored? = some r ∧ r.Sublist t ∧ (r = t ↔ ¬ ClosesIn t)
  closed : ∀ c, b.Closes c → c = ']' ∧ b.out.getLast? = some ']'
  /-- Where a bracket is compared with the byte before it, this compares characters. -/
  compared : ∀ c, c = '[' ∨ c = ']' → b.frame + 2 ≤ Text.utf8Length (b.push c).out →
    ((Text.utf8 (b.push c).out)[Text.utf8Length (b.push c).out - 2]? = some c.toUInt8 ↔
      b.out.getLast? = some c)

end Buffer

/-- The text before the contents of the innermost of some open links. -/
def Open.outside : List Open → Text
  | [] => []
  | link :: links => outside links ++ link.before.reverse

/-- The open links by their offsets. -/
def Open.marks : List Open → List Mark
  | [] => []
  | link :: links => ⟨link.kind, Text.utf8Length (outside (link :: links))⟩ :: marks links

/-- The scan with its texts in one piece. -/
def Scan.buffer (s : Scan) : Buffer := ⟨Open.outside s.links ++ s.body.reverse, Open.marks s.links⟩

open Scan

variable {s : Scan} {c : Char} {t before inner : Text} {links : List Open} {m : Mark}

/-! ### Offsets of open links -/

theorem Open.map_kind_marks (links : List Open) :
    (marks links).map Mark.kind = links.map Open.kind := by
  induction links with
  | nil => rfl
  | cons link links ih => rw [marks, List.map_cons, List.map_cons, ih]

theorem Open.length_marks (links : List Open) : (marks links).length = links.length := by
  rw [← List.length_map Mark.kind, map_kind_marks, List.length_map]

theorem Open.exists_of_mem_marks (h : m ∈ marks links) :
    ∃ a b, outside links = a ++ b ∧ m.start = Text.utf8Length a := by
  induction links with
  | nil => exact absurd h List.not_mem_nil
  | cons link links ih =>
    rcases List.mem_cons.1 h with rfl | h
    · exact ⟨outside (link :: links), [], (List.append_nil _).symm, rfl⟩
    · obtain ⟨a, b, he, hm⟩ := ih h
      exact ⟨a, b ++ link.before.reverse, by rw [outside, he, List.append_assoc], hm⟩

theorem Open.start_le_of_mem_marks (h : m ∈ marks links) :
    m.start ≤ Text.utf8Length (outside links) := by
  obtain ⟨a, b, he, hm⟩ := exists_of_mem_marks h
  rw [he, hm, Text.utf8Length_append]
  exact Nat.le_add_right _ _

theorem Open.pairwise_marks (links : List Open) :
    (marks links).Pairwise fun inner outer => outer.start ≤ inner.start := by
  induction links with
  | nil => exact .nil
  | cons link links ih =>
    refine List.pairwise_cons.2 ⟨fun m hm => ?_, ih⟩
    rw [outside, Text.utf8Length_append]
    exact (start_le_of_mem_marks hm).trans (Nat.le_add_right _ _)

theorem frame_marks (out : Text) (links : List Open) :
    Buffer.frame ⟨out, Open.marks links⟩ = Text.utf8Length (Open.outside links) := by
  cases links <;> rfl

/-! ### One step -/

namespace Buffer

variable {b : Buffer} {a out : Text} {d : Char} {marks : List Mark}

theorem utf8Size_bracket (hc : c = '[' ∨ c = ']') : c.utf8Size = 1 := by
  rcases hc with rfl | rfl <;> decide

theorem step?_of_text (hc : c ≠ '[' ∧ c ≠ ']') : b.step? c = some (b.push c) := by
  rw [step?]
  exact if_pos hc

/-- Where the contents of the innermost link begin there is no character to pair with. -/
theorem step?_of_frame (hc : c = '[' ∨ c = ']') (h : Text.utf8Length b.out = b.frame) :
    b.step? c = some (b.push c) := by
  have hlt : Text.utf8Length (b.push c).out < b.frame + 2 := by
    simp [push, h, utf8Size_bracket hc]
  rw [step?]
  simp only [hlt, if_true, ite_self]

/-- The byte before a bracket is that bracket exactly if the character before it is. -/
theorem exists_previous_byte (hc : c = '[' ∨ c = ']') (a : Text) (d : Char) :
    ∃ x, (Text.utf8 (a ++ [d] ++ [c]))[Text.utf8Length (a ++ [d] ++ [c]) - 2]? = some x ∧
      (x = c.toUInt8 ↔ d = c) := by
  have hascii : c.toNat < 0x80 := by rcases hc with rfl | rfl <;> decide
  have hplace : Text.utf8Length (a ++ [d] ++ [c]) - 2 = Text.utf8Length (a ++ [d]) - 1 := by
    rw [Text.utf8Length_append, Text.utf8Length_cons, utf8Size_bracket hc, Text.utf8Length_nil]
    rfl
  rw [hplace]
  exact Text.exists_last_byte hascii a [c] d

theorem step?_of_bracket (hc : c = '[' ∨ c = ']') (h : frame ⟨out, marks⟩ ≤ Text.utf8Length a)
    (hout : out = a ++ [d]) :
    step? ⟨out, marks⟩ c =
      if d = c then if c = ']' then close? ⟨a ++ [c, c], marks⟩ else open? ⟨a ++ [c, c], marks⟩
      else some (push ⟨out, marks⟩ c) := by
  subst hout
  have htext : ¬ (c ≠ '[' ∧ c ≠ ']') := by tauto
  have hge : ¬ Text.utf8Length (a ++ [d] ++ [c]) < frame ⟨a ++ [d], marks⟩ + 2 := by
    have := d.utf8Size_pos
    simp only [Text.utf8Length_append, Text.utf8Length_cons, utf8Size_bracket hc]
    omega
  obtain ⟨x, hx, hd⟩ := exists_previous_byte hc a d
  simp only [step?, push, if_neg htext, if_neg hge, hx, Option.bind_eq_bind, Option.bind_some]
  by_cases he : d = c
  · rw [if_neg (not_not_intro (hd.2 he)), if_pos he, he, List.append_assoc]
    rfl
  · rw [if_pos (mt hd.1 he), if_neg he]
    rfl

theorem compared (hc : c = '[' ∨ c = ']') (h : b.frame + 2 ≤ Text.utf8Length (b.push c).out) :
    (Text.utf8 (b.push c).out)[Text.utf8Length (b.push c).out - 2]? = some c.toUInt8 ↔
      b.out.getLast? = some c := by
  obtain ⟨out, marks⟩ := b
  have hne : out ≠ [] := by
    rintro rfl
    simp only [push, List.nil_append, Text.utf8Length_cons, Text.utf8Length_nil,
      utf8Size_bracket hc] at h
    omega
  obtain ⟨a, d, rfl⟩ := (List.eq_nil_or_concat' out).resolve_left hne
  obtain ⟨x, hx, hd⟩ := exists_previous_byte hc a d
  rw [push, hx, Option.some_inj, hd, List.getLast?_concat, Option.some_inj]

end Buffer

theorem buffer_push (s : Scan) (c : Char) : (s.push c).buffer = s.buffer.push c := by
  simp [buffer, push, Buffer.push]

/-- A marker of two ASCII characters is cut off as two bytes. -/
theorem truncate?_pair (hc : c.utf8Size = 1) (t : Text) :
    Text.truncate? (t ++ [c, c]) (Text.utf8Length (t ++ [c, c]) - 2) = some t := by
  have hsize : Text.utf8Length (t ++ [c, c]) - 2 = Text.utf8Length t := by
    simp [hc]
  rw [hsize, Text.truncate?_append]

theorem close?_buffer (inner : Text) (links : List Open) :
    Buffer.close? ⟨Open.outside links ++ inner.reverse ++ [']', ']'], Open.marks links⟩ =
      some (close inner links).buffer := by
  rcases links with _ | ⟨⟨_ | _, before⟩, links⟩
  · simp [Buffer.close?, close, buffer, Open.marks, Open.outside]
  · simp only [Open.marks, Buffer.close?]
    rw [truncate?_pair (by decide)]
    simp [close, buffer, Open.outside]
  · simp only [Open.marks, Buffer.close?]
    rw [List.append_assoc, Text.truncate?_append]
    simp [close, buffer, Open.outside]

/-- An exclamation mark in front of the brackets counts if it belongs to the same contents. -/
theorem embed_iff (before : Text) (links : List Open) :
    (Text.utf8Length (Open.outside links) < Text.utf8Length (Open.outside links ++ before.reverse) ∧
      (Open.outside links ++ before.reverse).getLast? = some '!') ↔ before.head? = some '!' := by
  cases before with
  | nil => simp
  | cons c before =>
    have := c.utf8Size_pos
    simp
    omega

theorem open?_buffer (before : Text) (links : List Open) :
    Buffer.open? ⟨Open.outside links ++ before.reverse ++ ['[', '['], Open.marks links⟩ =
      some (opened before links).buffer := by
  have hhead : (Open.marks links).head?.map Mark.kind = links.head?.map Open.kind := by
    rw [← List.head?_map, Open.map_kind_marks, List.head?_map]
  rw [Buffer.open?, hhead]
  rcases opened_cases before links with ⟨outside, rest, rfl, ho⟩ | ⟨hr, ho⟩
  · rw [List.head?_cons, Option.map_some, if_pos rfl, ho]
    simp [buffer]
  · have hkind : links.head?.map Open.kind ≠ some .embed := by
      intro h
      obtain ⟨link, hl, hk⟩ := Option.map_eq_some_iff.1 h
      exact absurd (hk.symm.trans (hr link hl)) Kind.noConfusion
    rw [if_neg hkind, ho, truncate?_pair (by decide), frame_marks]
    simp only [Option.bind_eq_bind, Option.bind_some, embed_iff]
    by_cases hb : before.head? = some '!'
    · obtain ⟨before, rfl⟩ := List.head?_eq_some_iff.1 hb
      rw [if_pos hb, List.reverse_cons, ← List.append_assoc]
      simp [Buffer.pop?, buffer, Open.after, Open.marks, Open.outside]
    · have hafter : Open.after before = ⟨.reference, before⟩ := by
        unfold Open.after
        split
        · exact absurd rfl hb
        · rfl
      rw [if_neg hb, hafter]
      simp [buffer, Open.marks, Open.outside]

theorem step?_buffer (s : Scan) (c : Char) : s.buffer.step? c = some (s.step c).buffer := by
  have hpush (hclose : ¬ Closes s c) (hopen : c = '[' → '[' ∉ s.body.head?) :
      some (s.step c).buffer = some (s.buffer.push c) := by
    rw [step_eq_push hclose hopen, buffer_push]
  by_cases hc : c ≠ '[' ∧ c ≠ ']'
  · rw [Buffer.step?_of_text hc, hpush (fun h => hc.2 h.1) fun h => absurd h hc.1]
  have hbracket : c = '[' ∨ c = ']' := by tauto
  obtain ⟨body, links⟩ := s
  cases body with
  | nil =>
    -- The contents of the innermost link are empty, so the output ends where they begin.
    rw [hpush (fun h => absurd h.2.1 (by simp)) (by simp)]
    apply Buffer.step?_of_frame hbracket
    rw [buffer, frame_marks, List.reverse_nil, List.append_nil]
  | cons d body =>
    have hout : Open.outside links ++ (d :: body).reverse =
        Open.outside links ++ body.reverse ++ [d] := by simp
    rw [buffer, Buffer.step?_of_bracket hbracket _ hout]
    · split
      · next hd =>
        subst hd
        split
        · next hclose =>
          subst hclose
          exact close?_buffer body links
        · next hopen =>
          obtain rfl := hbracket.resolve_right hopen
          exact open?_buffer body links
      · next hd =>
        refine (hpush (fun h => hd ?_) fun h hb => hd ?_).symm
        · exact (Option.some_inj.1 h.2.1).trans h.1.symm
        · exact (Option.some_inj.1 hb).trans h.symm
    · rw [frame_marks, Text.utf8Length_append]
      exact Nat.le_add_right _ _

/-! ### A whole text -/

namespace Buffer

theorem read?_append (b : Buffer) (t u : Text) : b.read? (t ++ u) = (b.read? t).bind (·.read? u) :=
  List.foldlM_append

end Buffer

theorem read?_buffer (s : Scan) (t : Text) : s.buffer.read? t = some (s.read t).buffer := by
  induction t generalizing s with
  | nil => rfl
  | cons c t ih =>
    rw [Buffer.read?, List.foldlM_cons, step?_buffer, read_cons]
    exact ih (s.step c)

theorem read?_empty (t : Text) : Buffer.empty.read? t = some (start.read t).buffer :=
  read?_buffer start t

/-- All markers are put back, and the output is copied up to the contents of the innermost link,
whatever comes after. -/
theorem foldlM_restoreStep? (links : List Open) (rest : Text) :
    (Open.marks links).reverse.foldlM (Buffer.restoreStep? (Open.outside links ++ rest)) ([], 0) =
      some (restored ⟨[], links⟩, Text.utf8Length (Open.outside links)) := by
  induction links generalizing rest with
  | nil => rfl
  | cons link links ih =>
    -- Markers are put back from the outermost link inwards, so this link is the last one.
    have hslice : Text.slice? (Open.outside (link :: links) ++ rest)
        ⟨Text.utf8Length (Open.outside links), Text.utf8Length (Open.outside (link :: links))⟩ =
          some link.before.reverse := Text.slice?_append _ _ _
    rw [Open.marks, List.reverse_cons, List.foldlM_append, Open.outside, List.append_assoc, ih]
    rw [Open.outside, List.append_assoc] at hslice
    simp only [Option.bind_eq_bind, Option.bind_some, List.foldlM_cons, List.foldlM_nil,
      Buffer.restoreStep?, hslice, Option.map_some, Option.pure_def]
    simp [restored, reversed]

theorem restored?_buffer (s : Scan) : s.buffer.restored? = some s.restored := by
  obtain ⟨body, links⟩ := s
  have hslice := Text.slice?_append (Open.outside links) body.reverse []
  rw [List.append_nil] at hslice
  rw [buffer, Buffer.restored?, foldlM_restoreStep?]
  simp only [Option.bind_eq_bind, Option.bind_some, hslice, Option.pure_def]
  simp [restored, reversed]

theorem remove?_eq (t : Text) : Buffer.remove? t = some (remove t) := by
  rw [Buffer.remove?, read?_empty, Option.bind_some, restored?_buffer]
  rfl

/-! ### Closed links -/

namespace Scan

theorem length_links_step_lt_iff : (s.step c).links.length < s.links.length ↔ s.Closes c := by
  rcases step_cases s c with ⟨hc, inner, -, hs⟩ | ⟨hc, -, before, -, hs⟩ | ⟨hc, -, hs⟩
  · refine iff_of_true ?_ hc
    obtain ⟨⟨kind, before⟩, links, hl⟩ := List.exists_cons_of_ne_nil hc.2.2
    rw [hs, hl]
    cases kind <;> exact Nat.lt_succ_self _
  · refine iff_of_false (Nat.not_lt.2 ?_) hc
    rw [hs]
    rcases opened_cases before s.links with ⟨-, -, -, ho⟩ | ⟨-, ho⟩ <;> simp [ho]
  · rw [hs]
    exact iff_of_false (Nat.lt_irrefl _) hc

theorem keeps_iff_forall :
    s.Keeps t ↔ ∀ read c rest, t = read ++ c :: rest → ¬ (s.read read).Closes c := by
  induction t generalizing s with
  | nil => exact iff_of_true rfl fun read c rest h => by simp at h
  | cons d t ih =>
    rw [keeps_cons_iff, ih]
    constructor
    · rintro ⟨hd, ht⟩ read c rest h
      cases read with
      | nil =>
        obtain ⟨rfl, -⟩ := List.cons.inj h
        exact hd
      | cons e read =>
        obtain rfl := (List.cons.inj h).1
        exact ht read c rest (List.cons.inj h).2
    · intro h
      exact ⟨h [] d t rfl, fun read c rest ht => h (d :: read) c rest (congrArg _ ht)⟩

end Scan

theorem closes_buffer_iff : s.buffer.Closes c ↔ s.Closes c := by
  rw [← length_links_step_lt_iff, ← Open.length_marks, ← Open.length_marks s.links]
  simp only [Buffer.Closes, step?_buffer, Option.some_inj, exists_eq_left']
  rfl

theorem closesIn_iff : Buffer.ClosesIn t ↔ ¬ Keeps start t := by
  have hread (read : Text) (b : Buffer) :
      Buffer.empty.read? read = some b ↔ (start.read read).buffer = b := by
    rw [read?_empty, Option.some_inj]
  rw [keeps_iff_forall]
  push Not
  simp only [Buffer.ClosesIn, hread, exists_eq_left', closes_buffer_iff]

/-! ### The invariant -/

theorem isSound_buffer_read (t : Text) : (start.read t).buffer.IsSound t where
  ordered := Open.pairwise_marks _
  inside m hm := by
    obtain ⟨a, b, he, hm⟩ := Open.exists_of_mem_marks hm
    rw [buffer, he, hm, List.append_assoc, Text.utf8Length_append]
    exact ⟨Nat.le_add_right _ _, Text.isBoundary_append _ _⟩
  outer m hm := by
    have hkind : m.kind ∈ (start.read t).links.tail.map Open.kind := by
      rw [List.map_tail, ← Open.map_kind_marks, ← List.map_tail]
      exact List.mem_map_of_mem hm
    obtain ⟨link, hlink, hk⟩ := List.mem_map.1 hkind
    rw [← hk, (isTidy_start.read t).outer link hlink]
  restored := by
    refine ⟨(start.read t).restored, restored?_buffer _, remove_sublist t, ?_⟩
    rw [closesIn_iff, not_not]
    exact remove_eq_self_iff_keeps
  closed c hc := by
    obtain ⟨hbracket, hbody, -⟩ := closes_buffer_iff.1 hc
    rw [buffer, List.getLast?_append, List.getLast?_reverse, hbody]
    exact ⟨hbracket, rfl⟩
  compared _ := Buffer.compared

/-- After any part of a text the buffer is sound, and reading on from there is reading the whole
text; nothing ever fails, and the result is the text with its links removed. -/
theorem Buffer.read?_sound (t u : Text) :
    ∃ b, empty.read? t = some b ∧ empty.read? (t ++ u) = b.read? u ∧ b.IsSound t ∧
      remove? (t ++ u) = some (remove (t ++ u)) := by
  refine ⟨_, read?_empty t, ?_, isSound_buffer_read t, remove?_eq _⟩
  rw [read?_append, read?_empty, Option.bind_some]

example : Buffer.empty.read? ['é', '[', '[', 'ü', '!', '[', '['] =
    some ⟨['é', 'ü'], [⟨.embed, 4⟩, ⟨.reference, 2⟩]⟩ := by decide +kernel

end Quire.Link
