import Quire.Proofs.Command.Execution
import Quire.Proofs.Settings
import Quire.Proofs.Toml.Document

/-!
# Settings that are shown

The settings that are shown to a user are a settings file: read again they are the same, whatever
texts and numbers they hold (`Settings.read?_print`), and so a run by that file has the same plan or
is refused for the same setting (`Command.readSettings_shown`).
-/

namespace Quire

open Toml (Value)
open Setting

namespace Settings

theorem sections_names (s : Settings) :
    s.sections.map (fun x => (x.name, x.entries.map Prod.fst)) =
      ({} : Settings).sections.map fun x => (x.name, x.entries.map Prod.fst) := rfl

theorem isWritable_of_mem_sections {s : Settings} {x : Toml.Section} (hx : x ∈ s.sections) :
    x.IsWritable := by
  have hnames : ∀ y ∈ ({} : Settings).sections.map fun x => (x.name, x.entries.map Prod.fst),
      Toml.IsBare y.1 ∧ (∀ k ∈ y.2, Toml.IsBare k) ∧ y.2.Nodup := by decide
  rw [← sections_names s] at hnames
  obtain ⟨hname, hkeys, hnodup⟩ := hnames _ (List.mem_map_of_mem hx)
  exact ⟨hname, fun e he => hkeys e.1 (List.mem_map_of_mem he), hnodup⟩

theorem nodup_name_sections (s : Settings) : (s.sections.map Toml.Section.name).Nodup := by
  show (({} : Settings).sections.map Toml.Section.name).Nodup
  decide

theorem texts?_map (ts : List Text) :
    texts? (Toml.Setting.many (ts.map .text)).value = some ts := by
  show ((ts.map Toml.Scalar.text).map Value.scalar).mapM text? = some ts
  induction ts with
  | nil => rfl
  | cons t ts ih =>
    rw [List.map_cons, List.map_cons, List.mapM_cons, ih]
    rfl

theorem ofValue?_sections (s : Settings) :
    ofValue? (.table (s.sections.map fun x => (x.name, x.value))) = some s := by
  rw [ofValue?_eq_some_iff]
  refine ⟨?_, ?_, ?_, ?_⟩
  · refine Rules.ofValue?_eq_some_iff.2 ⟨rfl, rfl, rfl, rfl, rfl⟩
  · refine SplitSection.ofValue?_eq_some_iff.2 ⟨?_, rfl, rfl⟩
    show choice? SplitMode.ofName? (.scalar (.text s.split.mode.label)) = some s.split.mode
    cases s.split.mode <;> rfl
  · refine OutputSection.ofValue?_eq_some_iff.2 ⟨?_, rfl, rfl, rfl⟩
    show choice? OutputFormat.ofName? (.scalar (.text s.output.format.extension)) = _
    cases s.output.format <;> rfl
  · exact ExtractSection.ofValue?_eq_some_iff.2 (texts?_map s.extract.encodings)

/-- Settings that are written are read as they were. -/
theorem read?_print (s : Settings) : read? (s.print ++ ['\n']) = some s := by
  have hne : s.sections ≠ [] := List.cons_ne_nil _ _
  have hdocument := Toml.document?_print hne (fun x hx => isWritable_of_mem_sections hx)
    (nodup_name_sections s)
  rw [read?, print, hdocument, Option.bind_some, ofValue?_sections]

end Settings

namespace Command

variable {d : Disk} {path : Text} {s : Settings}

theorem run_readText {t : Text} (h : d.read path = .ok (Text.utf8 t).data.toList) :
    (FileAccess.readText path : StateM Disk (Except DiskFault Text)).run d = (.ok t, d) := by
  have hread : (FileAccess.read path : StateM Disk (Except DiskFault Bytes)).run d =
      (.ok (Text.utf8 t).data.toList, d) := congrArg (·, d) h
  rw [FileAccess.readText, StateT.run_bind, hread]
  dsimp only [bind]
  rw [Bytes.toByteArray_toList, Encoding.decodeUtf8?_utf8]
  rfl

theorem run_readSettings {t : Text} (h : d.read path = .ok (Text.utf8 t).data.toList)
    (ht : Settings.read? t = some s) :
    (readSettings path : ExceptT Failure (StateM Disk) Settings).run.run d = (.ok s, d) := by
  have htext : (liftM (FileAccess.readText path : StateM Disk _) :
      ExceptT Failure (StateM Disk) _).run.run d = (.ok (.ok t), d) := by
    rw [run_lift, run_readText h]
  rw [readSettings, run_bind_of_ok htext, orFail_ok, pure_bind, ht]
  rfl

/-- A file with the settings that have been shown to a user is a settings file for the same, and so
for the same plan or the same fault. -/
theorem readSettings_shown (stamp : Stamp)
    (h : d.read path = .ok (Text.utf8 ((Response.shown s).print stamp)).data.toList) :
    let result := (readSettings path : ExceptT Failure (StateM Disk) Settings).run.run d
    result = (.ok s, d) ∧ result.1.map Plan.ofSettings = .ok (Plan.ofSettings s) := by
  have hrun := run_readSettings h s.read?_print
  exact ⟨hrun, by rw [hrun]; rfl⟩

/-- Quotes of both kinds, a backslash, line feeds, control characters and the least number are among
the settings. -/
theorem readSettings_shown_quotes :
    let s : Settings :=
      { split := { maxBytes := Int64.minValue }
        output := { fileStem := ['a', '"', 'b', '\'', '\n', '\\', '\x00'], entryPrefix := ['\t'] }
        extract := { encodings := [['\''], ['\'', '\'', '\n', '"', '"']] } }
    let shown := (Response.shown s).print ⟨⟨0⟩, ⟨0⟩, 0⟩
    let d : Disk := ⟨[([['w']], .directory),
      ([['w'], ['c']], .file (Text.utf8 shown).data.toList)], [['w']]⟩
    d.read ['c'] = .ok (Text.utf8 shown).data.toList ∧
      (readSettings ['c'] : ExceptT Failure (StateM Disk) Settings).run.run d = (.ok s, d) := by
  have hread (s : Settings) (stamp : Stamp) : Disk.read ⟨[([['w']], .directory), ([['w'], ['c']],
      .file (Text.utf8 ((Response.shown s).print stamp)).data.toList)], [['w']]⟩ ['c'] =
        .ok (Text.utf8 ((Response.shown s).print stamp)).data.toList := rfl
  exact ⟨hread _ _, (readSettings_shown _ (hread _ _)).1⟩

end Command

end Quire
