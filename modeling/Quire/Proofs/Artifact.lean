import Mathlib.Data.List.Nodup
import Quire.Artifact
import Quire.Proofs.Archive
import Quire.Proofs.Chunk.Packing
import Quire.Proofs.Csv

/-!
# Artifacts and their chunks

An archive has a file for each chunk. The names of two files differ if the numbers of their chunks
do (`entryName_inj`), so it is written exactly if no number is used twice
(`archive_eq_ok_iff`); the chunks of a text are numbered one after the other, and the files of their
archive are the text in pieces (`archive_split`). A table has a row for each chunk, whatever its
text, which reading gives back (`read?_table`).
-/

namespace Quire.Artifact

variable {cs : List Chunk} {start extension : Text} {i j : Nat}

/-! ### Archives -/

theorem entryName_inj : entryName start i extension = entryName start j extension ↔ i = j := by
  by_cases hs : start.isEmpty <;> by_cases he : extension.isEmpty <;>
    simp [entryName, hs, he, Text.decimal_inj]

theorem map_name_entries (cs : List Chunk) (start extension : Text) :
    (entries cs start extension).map Archive.Entry.name =
      (cs.map Chunk.index).map (entryName start · extension) := by
  simp [entries]

theorem nodup_names_iff (cs : List Chunk) (start extension : Text) :
    ((entries cs start extension).map Archive.Entry.name).Nodup ↔ (cs.map Chunk.index).Nodup := by
  rw [map_name_entries]
  exact List.nodup_map_iff fun _ _ => entryName_inj.1

theorem archive_eq_ok_iff {bytes : Bytes} :
    archive cs start extension = .ok bytes ↔
      (cs.map Chunk.index).Nodup ∧ bytes = Archive.write (entries cs start extension) := by
  rw [← nodup_names_iff cs start extension, ← Archive.create_eq_ok_iff, archive]
  cases Archive.create (entries cs start extension) <;> simp

theorem exists_archive_eq_error_iff :
    (∃ fault, archive cs start extension = .error fault) ↔ ¬ (cs.map Chunk.index).Nodup := by
  cases h : archive cs start extension with
  | ok bytes => simp [(archive_eq_ok_iff.1 h).1]
  | error fault =>
    refine iff_of_true ⟨fault, rfl⟩ fun hn => ?_
    rw [archive_eq_ok_iff.2 ⟨hn, rfl⟩] at h
    cases h

theorem flatMap_content_entries (cs : List Chunk) (start extension : Text) :
    (entries cs start extension).flatMap Archive.Entry.content =
      (Text.utf8 (cs.map Chunk.text).flatten).data.toList := by
  induction cs with
  | nil => rfl
  | cons c cs ih =>
    rw [List.map_cons, List.flatten_cons, Text.utf8_append, ByteArray.toList_data_append, ← ih]
    rfl

theorem entries_split (t : Text) (d : Division) (start extension : Text) :
    entries (Chunk.split t d) start extension = (Chunk.split t d).mapIdx fun i c =>
      ⟨entryName start (i + 1) extension, (Text.utf8 c.text).data.toList⟩ := by
  apply List.ext_getElem
  · simp [entries]
  · intro i _ _
    simp [entries, Chunk.split]

/-- The chunks of a text have an archive. Its files, which reading gives back if the format can hold
them, are the chunks in order under their numbered names, which are all different, and together they
are the text. No archive fails but for a number that two chunks have. -/
theorem archive_split (t : Text) (d : Division) (start extension : Text) :
    (∃ es : List Archive.Entry,
      archive (Chunk.split t d) start extension = .ok (Archive.write es) ∧
      (Archive.Fits es → Archive.read? (Archive.write es) = some es) ∧
      es = (Chunk.split t d).mapIdx (fun i c =>
        ⟨entryName start (i + 1) extension, (Text.utf8 c.text).data.toList⟩) ∧
      (es.map Archive.Entry.name).Nodup ∧
      es.flatMap Archive.Entry.content = (Text.utf8 t).data.toList) ∧
    ∀ cs : List Chunk, (∃ fault, archive cs start extension = .error fault) ↔
      ¬ (cs.map Chunk.index).Nodup := by
  have hindexes : ((Chunk.split t d).map Chunk.index).Nodup := by
    rw [Chunk.map_index_split]
    exact List.nodup_range'
  refine ⟨⟨entries (Chunk.split t d) start extension, ?_, Archive.read?_write, ?_, ?_, ?_⟩, ?_⟩
  · exact archive_eq_ok_iff.2 ⟨hindexes, rfl⟩
  · exact entries_split t d start extension
  · exact (nodup_names_iff _ _ _).2 hindexes
  · rw [flatMap_content_entries, Chunk.map_text_split, Chunk.flatten_texts]
  · exact fun cs => exists_archive_eq_error_iff

/-! ### Tables -/

/-- The records of a table are the header and a row for each chunk, in order. -/
theorem read?_table (cs : List Chunk) :
    Csv.read? (table cs) = some (["chunk".toList, "content".toList, "characters".toList] ::
      cs.map fun c => [Text.decimal c.index, c.text, Text.decimal c.text.length]) := by
  rw [table, Csv.read?_print]
  · rfl
  · intro fields hf
    rcases List.mem_cons.1 hf with rfl | hf
    · exact List.cons_ne_nil _ _
    · obtain ⟨c, -, rfl⟩ := List.mem_map.1 hf
      exact List.cons_ne_nil _ _

end Quire.Artifact
