import Mathlib.Algebra.Ring.Nat
import Mathlib.Data.List.Basic
import Quire.Archive.Zip
import Quire.Proofs.Encoding

/-!
# Archives, read again

An archive that is written holds its files: read again, it gives their names and contents in order
(`read?_write`), and a file is found by its name (`file?_write`), if it fits the format (`Fits`).
The fields of a header are found by their widths (`number?_fields_of_le`, `number?_fields`); the
directory, which is the last part but one, gives each file's place (`members?_lines`), and at that
place is its record (`content?_member`). `create` refuses no files but two of one name
(`create_eq_ok_iff`).
-/

namespace Quire

namespace Bytes

variable {bs cs : Bytes} {offset count n : Nat}

theorem slice?_append_of_le (h : bs.length ≤ offset) :
    slice? (bs ++ cs) offset count = slice? cs (offset - bs.length) count := by
  simp only [slice?, List.drop_append, List.drop_eq_nil_of_le h, List.nil_append]

theorem slice?_append_add (bs cs : Bytes) (offset count : Nat) :
    slice? (bs ++ cs) (bs.length + offset) count = slice? cs offset count := by
  rw [slice?_append_of_le (Nat.le_add_right _ _), Nat.add_sub_cancel_left]

theorem slice?_append (bs cs : Bytes) : slice? (bs ++ cs) 0 bs.length = some bs := by
  simp [slice?]

theorem number?_append_of_le (h : bs.length ≤ offset) :
    number? (bs ++ cs) offset count = number? cs (offset - bs.length) count := by
  simp only [number?, slice?_append_of_le h]

theorem number?_append_add (bs cs : Bytes) (offset count : Nat) :
    number? (bs ++ cs) (bs.length + offset) count = number? cs offset count := by
  rw [number?_append_of_le (Nat.le_add_right _ _), Nat.add_sub_cancel_left]

theorem number?_littleEndian (h : n < 256 ^ count) :
    number? (littleEndian count n ++ bs) 0 count = some n := by
  have hs := slice?_append (littleEndian count n) bs
  rw [length_littleEndian] at hs
  rw [number?, hs, Option.map_some, readLittleEndian_littleEndian h]

end Bytes

namespace Archive

open Bytes

variable {bs : Bytes} {fs : List (Nat × Nat)} {width n offset count : Nat} {e : Entry}

/-! ### Fields -/

theorem fields_cons (f : Nat × Nat) (fs : List (Nat × Nat)) :
    fields (f :: fs) = littleEndian f.1 f.2 ++ fields fs := List.flatMap_cons

theorem length_fields (fs : List (Nat × Nat)) : (fields fs).length = (fs.map Prod.fst).sum := by
  induction fs with
  | nil => rfl
  | cons f fs ih => simp [fields_cons, ih]

/-- The first field of a header. -/
theorem number?_fields (h : n < 256 ^ width) :
    number? (fields ((width, n) :: fs) ++ bs) 0 width = some n := by
  rw [fields_cons, List.append_assoc]
  exact number?_littleEndian h

/-- A field behind the first one. -/
theorem number?_fields_of_le (h : width ≤ offset) :
    number? (fields ((width, n) :: fs) ++ bs) offset count =
      number? (fields fs ++ bs) (offset - width) count := by
  have hw : (littleEndian width n).length ≤ offset := by rwa [length_littleEndian]
  rw [fields_cons, List.append_assoc, number?_append_of_le hw, length_littleEndian]

/-! ### The parts of an archive -/

/-- The fields of a file's record, which its name and its content follow. -/
def Entry.recordFields (e : Entry) : List (Nat × Nat) :=
  [(4, 0x04034b50), (2, 20), (2, 0x0800), (2, 0), (2, 0), (2, 0x21),
    (4, (Crc32.checksum e.content).toNat), (4, e.content.length), (4, e.content.length),
    (2, e.nameBytes.length), (2, 0)]

/-- The fields of a file's line in the directory, which its name follows. -/
def Entry.lineFields (e : Entry) (offset : Nat) : List (Nat × Nat) :=
  [(4, 0x02014b50), (2, 20), (2, 20), (2, 0x0800), (2, 0), (2, 0), (2, 0x21),
    (4, (Crc32.checksum e.content).toNat), (4, e.content.length), (4, e.content.length),
    (2, e.nameBytes.length), (2, 0), (2, 0), (2, 0), (2, 0), (4, 0), (4, offset)]

theorem record_eq (e : Entry) : e.record = fields e.recordFields ++ (e.nameBytes ++ e.content) := by
  simp only [Entry.record, Entry.common, Entry.recordFields, fields_cons, List.append_assoc]
  rfl

theorem line_eq (e : Entry) (offset : Nat) :
    e.line offset = fields (e.lineFields offset) ++ e.nameBytes := by
  simp only [Entry.line, Entry.common, Entry.lineFields, fields_cons, List.append_assoc]
  rfl

theorem length_recordFields (e : Entry) : (fields e.recordFields).length = 30 := by
  simp [length_fields, Entry.recordFields]

theorem length_lineFields (e : Entry) (offset : Nat) :
    (fields (e.lineFields offset)).length = 46 := by
  simp [length_fields, Entry.lineFields]

theorem length_record (e : Entry) :
    e.record.length = 30 + e.nameBytes.length + e.content.length := by
  rw [record_eq, List.length_append, List.length_append, length_recordFields]
  omega

theorem length_line (e : Entry) (offset : Nat) :
    (e.line offset).length = 46 + e.nameBytes.length := by
  rw [line_eq, List.length_append, length_lineFields]

theorem number?_record (e : Entry) (bs : Bytes) (offset count : Nat) :
    number? (e.record ++ bs) offset count =
      number? (fields e.recordFields ++ (e.nameBytes ++ e.content ++ bs)) offset count := by
  rw [record_eq, List.append_assoc]

theorem number?_line (e : Entry) (start : Nat) (bs : Bytes) (offset count : Nat) :
    number? (e.line start ++ bs) offset count =
      number? (fields (e.lineFields start) ++ (e.nameBytes ++ bs)) offset count := by
  rw [line_eq, List.append_assoc]

theorem slice?_line (e : Entry) (start : Nat) (bs : Bytes) :
    slice? (e.line start ++ bs) 46 e.nameBytes.length = some e.nameBytes := by
  have hlen := length_lineFields e start
  rw [line_eq, List.append_assoc, slice?_append_of_le (Nat.le_of_eq hlen), hlen]
  exact slice?_append e.nameBytes bs

theorem slice?_record (e : Entry) (bs : Bytes) :
    slice? (e.record ++ bs) (30 + e.nameBytes.length) e.content.length = some e.content := by
  have hlen : (fields e.recordFields ++ e.nameBytes).length = 30 + e.nameBytes.length := by
    rw [List.length_append, length_recordFields]
  rw [record_eq, ← List.append_assoc, List.append_assoc, slice?_append_of_le (Nat.le_of_eq hlen),
    hlen, Nat.sub_self]
  exact slice?_append e.content bs

/-- The bytes that a file takes in an archive, together with its line in the directory. -/
def Entry.size (e : Entry) : Nat := e.content.length + 2 * e.nameBytes.length + 76

theorem length_write_le (es : List Entry) : (write es).length ≤ (es.map Entry.size).sum + 98 := by
  have hending (count size offset : Nat) : (ending count size offset).length ≤ 98 := by
    rw [ending, List.length_append, length_fields]
    split <;> simp [length_fields]
  have hparts (offset : Nat) : (es.flatMap Entry.record).length + (lines offset es).length =
      (es.map Entry.size).sum := by
    induction es generalizing offset with
    | nil => rfl
    | cons e es ih =>
      have hrest := ih (offset + e.record.length)
      have hrecord := length_record e
      have hline := length_line e offset
      rw [List.flatMap_cons, lines, List.map_cons, List.sum_cons, List.length_append,
        List.length_append, Entry.size]
      omega
  rw [write, List.length_append, List.length_append, ← hparts 0]
  exact Nat.add_le_add_left (hending _ _ _) _

/-! ### The directory -/

/-- What the directory says about a file that is written at an offset. -/
def Entry.member (e : Entry) (offset : Nat) : Member :=
  ⟨e.name, false, 0, (Crc32.checksum e.content).toNat, e.content.length, offset⟩

/-- What the directory says about files that are written one after the other. -/
def membersFrom : (offset : Nat) → List Entry → List Member
  | _, [] => []
  | offset, e :: es => e.member offset :: membersFrom (offset + e.record.length) es

theorem nameOf_nameBytes (e : Entry) : nameOf e.nameBytes = e.name := by
  rw [nameOf, Entry.nameBytes, toByteArray_toList, Encoding.decodeUtf8?_utf8]
  rfl

theorem members?_line (hname : e.nameBytes.length < 2 ^ 16) (hsize : e.content.length < 2 ^ 32)
    (hoffset : offset < 2 ^ 32) (fuel : Nat) (bs : Bytes) :
    members? 0 (fuel + 1) (e.line offset ++ bs) =
      (members? 0 fuel bs).map (e.member offset :: ·) := by
  have hcrc := (Crc32.checksum e.content).toNat_lt
  have hlen := length_line e offset
  have hne : e.line offset ++ bs ≠ [] := by
    apply List.ne_nil_of_length_pos
    rw [List.length_append]
    omega
  rw [members?]
  · simp (disch := omega) only [number?_line, Entry.lineFields, number?_fields_of_le,
      number?_fields, Nat.reduceSub, Option.bind_eq_bind, Option.bind_some, slice?_line,
      nameOf_nameBytes, if_true, Nat.add_zero, List.drop_left' hlen]
    cases members? 0 fuel bs <;> rfl
  · exact hne

theorem members?_lines {es : List Entry} (hnames : ∀ e ∈ es, e.nameBytes.length < 2 ^ 16)
    (hsize : offset + (es.flatMap Entry.record).length < 2 ^ 32) {fuel : Nat}
    (hfuel : es.length ≤ fuel) :
    members? 0 fuel (lines offset es) = some (membersFrom offset es) := by
  induction es generalizing offset fuel with
  | nil => cases fuel <;> rfl
  | cons e es ih =>
    obtain ⟨hname, hnames⟩ := List.forall_mem_cons.1 hnames
    obtain ⟨fuel, rfl⟩ : ∃ n, fuel = n + 1 := Nat.exists_eq_add_of_le' (by simp at hfuel; omega)
    rw [List.flatMap_cons, List.length_append] at hsize
    have hlen := length_record e
    rw [lines, members?_line hname (by omega) (by omega), ih hnames (by omega)]
    · rfl
    · simpa using hfuel

/-! ### The end of an archive -/

/-- The fields of the record at the end of an archive. -/
def endFields (count size offset : Nat) : List (Nat × Nat) :=
  [(4, 0x06054b50), (2, 0), (2, 0), (2, min count 0xFFFF), (2, min count 0xFFFF), (4, size),
    (4, offset), (2, 0)]

theorem length_endFields (count size offset : Nat) :
    (fields (endFields count size offset)).length = 22 := by
  simp [length_fields, endFields]

/-- What stands before the last record of an archive: a longer one, if the number of files is too
large for two bytes. -/
def IsLongRecord (count : Nat) (long : Bytes) : Prop :=
  (count < 0xFFFF ∧ long = []) ∨
    (0xFFFF ≤ count ∧ long.length = 76 ∧ ∀ bs, number? (long ++ bs) 0 4 = some 0x06064b50)

theorem exists_ending_eq (count size offset : Nat) :
    ∃ long, IsLongRecord count long ∧
      ending count size offset = long ++ fields (endFields count size offset) := by
  by_cases h : count < 0xFFFF
  · exact ⟨[], Or.inl ⟨h, rfl⟩, by rw [ending, if_pos h]; rfl⟩
  · refine ⟨_, Or.inr ⟨by omega, ?_, fun bs => ?_⟩, by rw [ending, if_neg h]; rfl⟩
    · simp [length_fields]
    · exact number?_fields (by decide)

theorem lastPlace?_of_length_lt {start bs : Bytes} (h : bs.length < start.length)
    (found : Option Nat) (i : Nat) : lastPlace? start found i bs = found := by
  induction bs generalizing i with
  | nil => rfl
  | cons b bs ih =>
    have hp : start.isPrefixOf (b :: bs) = false := by
      rw [Bool.eq_false_iff]
      intro hp
      have := (List.isPrefixOf_iff_prefix.1 hp).length_le
      omega
    rw [lastPlace?, hp]
    exact ih (by simp at h; omega) _

/-- What a list ends in is found there. -/
theorem lastPlace?_append_self {start : Bytes} (h : start ≠ []) (bs : Bytes) (found : Option Nat)
    (i : Nat) : lastPlace? start found i (bs ++ start) = some (i + bs.length) := by
  induction bs generalizing found i with
  | nil =>
    obtain ⟨b, rest, rfl⟩ := List.exists_cons_of_ne_nil h
    have hp : (b :: rest).isPrefixOf (b :: rest) = true := by simp
    rw [List.nil_append, lastPlace?, hp, if_pos rfl, lastPlace?_of_length_lt (by simp)]
    rfl
  | cons b bs ih =>
    rw [List.cons_append, lastPlace?, ih, List.length_cons]
    congr 1
    omega

/-- The last place where the record at the end may begin is where it does. -/
theorem lastPlace?_append_endFields (bs : Bytes) (count size offset : Nat) :
    lastPlace? [0x50, 0x4b, 0x05, 0x06] none 0
      ((bs ++ fields (endFields count size offset)).take
        ((bs ++ fields (endFields count size offset)).length - 18)) = some bs.length := by
  have hlen := length_endFields count size offset
  -- The last 18 bytes are left out, so that the part that is searched ends in the signature.
  obtain ⟨rest, hrest⟩ : ∃ rest, fields (endFields count size offset) =
      [0x50, 0x4b, 0x05, 0x06] ++ rest := ⟨_, fields_cons _ _⟩
  rw [hrest] at hlen ⊢
  rw [← List.append_assoc, List.take_left', lastPlace?_append_self (List.cons_ne_nil _ _),
    Nat.zero_add]
  simp only [List.length_append, List.length_cons, List.length_nil] at hlen ⊢
  omega

theorem number?_append_endFields (bs : Bytes) (count : Nat) {size offset : Nat}
    (hsize : size < 2 ^ 32) (hoffset : offset < 2 ^ 32) :
    number? (bs ++ fields (endFields count size offset)) (bs.length + 10) 2 =
        some (min count 0xFFFF) ∧
      number? (bs ++ fields (endFields count size offset)) (bs.length + 12) 4 = some size ∧
      number? (bs ++ fields (endFields count size offset)) (bs.length + 16) 4 = some offset ∧
      number? (bs ++ fields (endFields count size offset)) (bs.length + 20) 2 = some 0 := by
  simp only [number?_append_add]
  rw [← List.append_nil (fields _)]
  simp (disch := omega) only [endFields, number?_fields_of_le, number?_fields, Nat.reduceSub,
    and_self]

/-- An archive that its format can hold: the lengths of names and of the whole fit their fields. -/
structure Fits (es : List Entry) : Prop where
  names : ∀ e ∈ es, e.nameBytes.length < 2 ^ 16
  size : (write es).length < 2 ^ 32

theorem length_le_length_lines (offset : Nat) (es : List Entry) :
    es.length ≤ (lines offset es).length := by
  induction es generalizing offset with
  | nil => exact Nat.le_refl 0
  | cons e es ih =>
    have := ih (offset + e.record.length)
    rw [lines, List.length_append, length_line, List.length_cons]
    omega

/-- The lines of a directory end before the longer record, if there is one. -/
theorem endOfLines_eq {long : Bytes} {count : Nat} (bs last : Bytes)
    (h : IsLongRecord count long) :
    (if min count 0xFFFF = 0xFFFF && 76 ≤ (bs ++ long).length &&
        number? (bs ++ long ++ last) ((bs ++ long).length - 76) 4 = some 0x06064b50
      then (bs ++ long).length - 76 else (bs ++ long).length) = bs.length := by
  rcases h with ⟨hcount, rfl⟩ | ⟨hcount, hlen, hstart⟩
  · have hmin : min count 0xFFFF ≠ 0xFFFF := by omega
    simp [hmin]
  · have hmin : min count 0xFFFF = 0xFFFF := by omega
    have hplace : (bs ++ long).length - 76 = bs.length := by
      rw [List.length_append, hlen, Nat.add_sub_cancel]
    have h76 : 76 ≤ (bs ++ long).length := by
      rw [List.length_append, hlen]
      omega
    have hnumber := number?_append_add bs (long ++ last) 0 4
    rw [Nat.add_zero, hstart, ← List.append_assoc] at hnumber
    rw [hplace, hnumber]
    exact if_pos (by simp only [hmin, h76, decide_true, Bool.and_self])

/-- The directory stands where the last record says, before that and a longer one. -/
theorem directory?_layout {records directory long : Bytes} {count : Nat}
    (hrecords : records.length < 2 ^ 32) (hdirectory : directory.length < 2 ^ 32)
    (hlong : IsLongRecord count long) :
    directory? (records ++ directory ++ long ++
        fields (endFields count directory.length records.length)) =
      members? 0 directory.length directory := by
  obtain ⟨last, hlast⟩ :
      ∃ last, last = fields (endFields count directory.length records.length) := ⟨_, rfl⟩
  have hplace := lastPlace?_append_endFields (records ++ directory ++ long) count
    directory.length records.length
  obtain ⟨hcount, hsize, hoffset, hcomment⟩ :=
    number?_append_endFields (records ++ directory ++ long) count hdirectory hrecords
  rw [← hlast] at hplace hcount hsize hoffset hcomment ⊢
  have hend : slice? (records ++ directory ++ long ++ last)
      ((records ++ directory ++ long).length + 22) 0 = some [] := by
    simp [slice?]
  have hpart : slice? (records ++ directory ++ long ++ last) records.length directory.length =
      some directory := by
    rw [List.append_assoc, List.append_assoc, slice?_append_of_le (Nat.le_refl _), Nat.sub_self,
      slice?_append]
  have hparts : (records ++ directory).length = directory.length + records.length := by
    rw [List.length_append, Nat.add_comm]
  have hlines := (endOfLines_eq (records ++ directory) last hlong).trans hparts
  simp only [directory?, hplace, Option.bind_eq_bind, Option.bind_some, hcount, hsize, hoffset,
    hcomment, hend, hlines, Nat.lt_irrefl, if_false, Nat.sub_self, Nat.add_sub_cancel_left,
    Nat.add_zero, hpart]

theorem directory?_write {es : List Entry} (h : Fits es) :
    directory? (write es) = some (membersFrom 0 es) := by
  obtain ⟨long, hlong, hending⟩ :=
    exists_ending_eq es.length (lines 0 es).length (es.flatMap Entry.record).length
  have hsize := h.size
  rw [write, hending, List.length_append, List.length_append] at hsize
  rw [write, hending, ← List.append_assoc, directory?_layout (by omega) (by omega) hlong]
  exact members?_lines h.names (by omega) (length_le_length_lines 0 es)

/-! ### Reading an archive -/

/-- The record of a file is at the place that the directory gives. -/
theorem content?_member (before after : Bytes) (hname : e.nameBytes.length < 2 ^ 16) :
    (e.member before.length).content? (before ++ (e.record ++ after)) = some e.content := by
  have hcrc := (Crc32.checksum e.content).toNat_lt
  have hstart := number?_append_add before (e.record ++ after) 0 4
  have hcontent := slice?_append_add before (e.record ++ after) (30 + e.nameBytes.length)
    e.content.length
  rw [slice?_record, ← Nat.add_assoc] at hcontent
  rw [Nat.add_zero] at hstart
  simp (disch := omega) only [Member.content?, Entry.member, hstart, number?_append_add,
    number?_record, Entry.recordFields, number?_fields_of_le, number?_fields, Nat.reduceSub,
    Option.bind_eq_bind, Option.bind_some, Nat.add_zero, hcontent]
  simp

theorem mapM_membersFrom {es : List Entry} (before after : Bytes)
    (hbs : bs = before ++ (es.flatMap Entry.record ++ after))
    (hnames : ∀ e ∈ es, e.nameBytes.length < 2 ^ 16) :
    (membersFrom before.length es).mapM (fun m => do return ⟨m.name, ← m.content? bs⟩) =
      some es := by
  induction es generalizing before with
  | nil => rfl
  | cons e es ih =>
    obtain ⟨hname, hnames⟩ := List.forall_mem_cons.1 hnames
    rw [List.flatMap_cons, List.append_assoc] at hbs
    have hrest := ih (before ++ e.record) (by rw [hbs, List.append_assoc]) hnames
    have hcontent := content?_member before (es.flatMap Entry.record ++ after) hname
    rw [← hbs] at hcontent
    rw [List.length_append] at hrest
    rw [membersFrom, List.mapM_cons, hcontent, hrest]
    rfl

/-- Read again, an archive gives the names and contents of its files in order. -/
theorem read?_write {es : List Entry} (h : Fits es) : read? (write es) = some es := by
  obtain ⟨after, hafter⟩ : ∃ after, write es = [] ++ (es.flatMap Entry.record ++ after) :=
    ⟨_, List.append_assoc _ _ _⟩
  rw [read?, directory?_write h]
  exact mapM_membersFrom [] after hafter h.names

example : read? (write [⟨['a'], [1, 2]⟩, ⟨['b'], []⟩]) = some [⟨['a'], [1, 2]⟩, ⟨['b'], []⟩] :=
  read?_write ⟨by decide +kernel, by decide +kernel⟩

/-! ### A file of an archive -/

theorem map_name_membersFrom (offset : Nat) (es : List Entry) :
    (membersFrom offset es).map Member.name = es.map Entry.name := by
  induction es generalizing offset with
  | nil => rfl
  | cons e es ih => rw [membersFrom, List.map_cons, List.map_cons, ih]; rfl

theorem membersFrom_append (offset : Nat) (as bs : List Entry) :
    membersFrom offset (as ++ bs) =
      membersFrom offset as ++ membersFrom (offset + (as.flatMap Entry.record).length) bs := by
  induction as generalizing offset with
  | nil => rfl
  | cons a as ih =>
    rw [List.cons_append, membersFrom, membersFrom, ih, List.flatMap_cons, List.length_append,
      Nat.add_assoc, List.cons_append]

/-- A file of an archive is found by its name, if all names differ. -/
theorem file?_write {es : List Entry} (h : Fits es) (hnodup : (es.map Entry.name).Nodup)
    (he : e ∈ es) : file? (write es) e.name = some e.content := by
  obtain ⟨as, bs, rfl⟩ := List.append_of_mem he
  obtain ⟨after, hafter⟩ : ∃ after, write (as ++ e :: bs) =
      as.flatMap Entry.record ++ (e.record ++ after) := by
    rw [write, List.flatMap_append, List.flatMap_cons]
    simp only [List.append_assoc]
    exact ⟨_, rfl⟩
  have hcontent := content?_member (as.flatMap Entry.record) after (h.names e he)
  -- The search goes from the end, and no file behind this one has its name.
  have hfind : (membersFrom 0 (as ++ e :: bs)).reverse.find? (·.name == e.name) =
      some (e.member (as.flatMap Entry.record).length) := by
    rw [membersFrom_append, Nat.zero_add, membersFrom, List.reverse_append, List.reverse_cons,
      List.append_assoc, List.find?_eq_some_iff_append]
    refine ⟨beq_self_eq_true _, _, _, rfl, fun m hm => ?_⟩
    have hname : m.name ∈ bs.map Entry.name := by
      rw [← map_name_membersFrom]
      exact List.mem_map_of_mem (List.mem_reverse.1 hm)
    rw [List.map_append, List.map_cons] at hnodup
    have hnew := (List.nodup_cons.1 (List.nodup_append.1 hnodup).2.1).1
    simp only [Bool.not_eq_true', beq_eq_false_iff_ne]
    exact fun heq => hnew (heq ▸ hname)
  rw [file?, directory?_write h]
  dsimp only [Option.bind_eq_bind, Option.bind_some]
  rw [hfind, hafter]
  exact hcontent

/-! ### Names that are used twice -/

theorem firstDuplicate?_eq_none_iff {names : List Text} :
    firstDuplicate? names = none ↔ names.Nodup := by
  induction names with
  | nil => simp [firstDuplicate?]
  | cons name names ih =>
    rw [firstDuplicate?, List.nodup_cons, ← ih]
    by_cases h : name ∈ names <;> simp [h]

theorem create_eq_ok_iff {es : List Entry} :
    create es = .ok bs ↔ (es.map Entry.name).Nodup ∧ bs = write es := by
  rw [← firstDuplicate?_eq_none_iff, create]
  cases firstDuplicate? (es.map Entry.name) with
  | none => simp [eq_comm]
  | some name => simp

end Archive

end Quire
