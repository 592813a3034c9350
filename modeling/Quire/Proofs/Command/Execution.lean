import Quire.Command.Execution
import Quire.Proofs.Command.Request
import Quire.Proofs.Disk
import Quire.Proofs.Run

/-!
# What requests leave on the disk

A request changes no file but the one that it is to write, and none if it fails
(`leaves_of_read_eq_ok`). Settings and documents are only read (`Keeps id`), directories that are
made are no files (`OnlyMakesDirectories`), and what is written goes through `writeIn`.
-/

namespace Quire

/-- What `view` shows of a disk is the same after a computation as before. -/
def Keeps {α β : Type} (view : Disk → β) (x : StateM Disk α) : Prop :=
  ∀ d, view (x.run d).2 = view d

section Keeps

variable {ε α β γ : Type} {view : Disk → γ}

theorem keeps_pure (a : α) : Keeps view (pure a : StateM Disk α) := fun _ => rfl

theorem Keeps.bind {x : StateM Disk α} {f : α → StateM Disk β} (hx : Keeps view x)
    (hf : ∀ a, Keeps view (f a)) : Keeps view (x >>= f) :=
  fun d => (hf (x.run d).1 (x.run d).2).trans (hx d)

theorem keeps_run_pure (a : α) : Keeps view (pure a : ExceptT ε (StateM Disk) α).run :=
  keeps_pure _

theorem keeps_run_throw (e : ε) : Keeps view (throw e : ExceptT ε (StateM Disk) α).run :=
  keeps_pure _

theorem Keeps.run_lift {x : StateM Disk α} (hx : Keeps view x) :
    Keeps view (liftM x : ExceptT ε (StateM Disk) α).run :=
  hx.bind fun _ => keeps_pure _

theorem Keeps.run_bind {x : ExceptT ε (StateM Disk) α} {f : α → ExceptT ε (StateM Disk) β}
    (hx : Keeps view x.run) (hf : ∀ a, Keeps view (f a).run) : Keeps view (x >>= f).run := by
  rw [ExceptT.run_bind]
  refine hx.bind fun result => ?_
  cases result with
  | ok a => exact hf a
  | error e => exact keeps_pure _

theorem Keeps.run_eq {x : StateM Disk α} (h : Keeps id x) (d : Disk) :
    x.run d = ((x.run d).1, d) :=
  Prod.ext rfl (h d)

end Keeps

/-! ### Access to files -/

/-- A computation that makes directories and changes nothing else. -/
def OnlyMakesDirectories {α : Type} (x : StateM Disk α) : Prop :=
  ∀ d : Disk, d.HasMoreDirectories (x.run d).2

namespace OnlyMakesDirectories

variable {α β : Type} {x : StateM Disk α}

theorem of_keeps (h : Keeps id x) : OnlyMakesDirectories x := fun d => by
  rw [show (x.run d).2 = d from h d]
  exact .refl d

theorem pure (a : α) : OnlyMakesDirectories (Pure.pure a : StateM Disk α) :=
  of_keeps (keeps_pure a)

theorem bind {f : α → StateM Disk β} (hx : OnlyMakesDirectories x)
    (hf : ∀ a, OnlyMakesDirectories (f a)) : OnlyMakesDirectories (x >>= f) :=
  fun d => (hx d).trans (hf (x.run d).1 (x.run d).2)

end OnlyMakesDirectories

namespace FileAccess

theorem onlyMakesDirectories_makeDirectory (path : Text) :
    OnlyMakesDirectories (makeDirectory path : StateM Disk (Except DiskFault Unit)) := by
  intro d
  show d.HasMoreDirectories (Disk.attempt (fun d => d.makeDirectory path) d).2
  unfold Disk.attempt
  split
  · next h => exact Disk.hasMoreDirectories_of_makeDirectory h
  · exact .refl d

theorem onlyMakesDirectories_ensureDirectory (path : Text) :
    OnlyMakesDirectories (ensureDirectory path : StateM Disk (Except DiskFault Unit)) := by
  refine (onlyMakesDirectories_makeDirectory path).bind fun result => ?_
  split
  · exact .bind (.of_keeps fun _ => rfl) fun _ => .pure _
  · exact .pure _

theorem onlyMakesDirectories_ensureDirectories (paths : List Text) :
    OnlyMakesDirectories (ensureDirectories paths : StateM Disk (Except DiskFault Unit)) := by
  induction paths with
  | nil => exact .pure _
  | cons path above ih =>
    refine (onlyMakesDirectories_ensureDirectory path).bind fun result => ?_
    split
    · refine ih.bind fun result => ?_
      split
      · exact onlyMakesDirectories_ensureDirectory path
      · exact .pure _
    · exact .pure _

theorem onlyMakesDirectories_makeDirectories (path : Text) :
    OnlyMakesDirectories (makeDirectories path : StateM Disk (Except DiskFault Unit)) := by
  unfold makeDirectories
  split
  · exact .pure _
  · exact onlyMakesDirectories_ensureDirectories _

theorem keeps_readText (path : Text) :
    Keeps id (readText path : StateM Disk (Except DiskFault Text)) := by
  refine Keeps.bind (fun _ => rfl) fun result => ?_
  split
  · exact keeps_pure _
  · split <;> exact keeps_pure _

end FileAccess

namespace Command

variable {α β : Type} {d d' : Disk} {home usual : Option Text} {failure : Failure}

/-! ### Steps -/

section Steps

variable {x : ExceptT Failure (StateM Disk) α} {f : α → ExceptT Failure (StateM Disk) β}

theorem run_bind_of_ok {a : α} (h : x.run.run d = (.ok a, d')) :
    (x >>= f).run.run d = (f a).run.run d' := by
  rw [ExceptT.run_bind, StateT.run_bind, h]
  rfl

theorem run_bind_of_error (h : x.run.run d = (.error failure, d')) :
    (x >>= f).run.run d = (.error failure, d') := by
  rw [ExceptT.run_bind, StateT.run_bind, h]
  rfl

theorem run_lift (y : StateM Disk α) (d : Disk) :
    (liftM y : ExceptT Failure (StateM Disk) α).run.run d = (.ok (y.run d).1, (y.run d).2) := rfl

theorem orFail_ok {ε : Type} (g : ε → Failure) (a : α) :
    (orFail g (.ok a) : ExceptT Failure (StateM Disk) α) = pure a := rfl

theorem run_orFail_error {ε : Type} (g : ε → Failure) (e : ε) (d : Disk) :
    (orFail g (.error e) : ExceptT Failure (StateM Disk) α).run.run d = (.error (g e), d) := rfl

end Steps

/-! ### What is read -/

theorem keeps_readSettings (path : Text) :
    Keeps id (readSettings path : ExceptT Failure (StateM Disk) Settings).run := by
  refine Keeps.run_bind (FileAccess.keeps_readText path).run_lift fun result => ?_
  refine Keeps.run_bind (fun _ => rfl) fun text => ?_
  split
  · exact keeps_run_pure _
  · exact keeps_run_throw _

theorem keeps_loadSettings (home asked : Option Text) :
    Keeps id (loadSettings home asked : ExceptT Failure (StateM Disk) Settings).run := by
  unfold loadSettings
  split
  · exact keeps_readSettings _
  · refine Keeps.run_bind (fun _ => rfl) fun directory => ?_
    refine Keeps.run_bind (Keeps.run_lift fun _ => rfl) fun there => ?_
    split
    · exact keeps_readSettings _
    · exact keeps_run_pure _

theorem keeps_readDocument (path : Text) :
    Keeps id (readDocument path : ExceptT Failure (StateM Disk) Document).run := by
  refine Keeps.run_bind (Keeps.run_lift fun _ => rfl) fun result => ?_
  exact Keeps.run_bind (fun _ => rfl) fun bytes => keeps_run_pure _

/-! ### What is written -/

/-- Writes a file into a directory, which is made if it is missing. -/
def writeIn (f g : DiskFault → Failure) (directory name : Text) (content : Bytes) (a : α) :
    ExceptT Failure (StateM Disk) α := do
  orFail f (← FileAccess.makeDirectories (m := StateM Disk) directory)
  orFail g (← FileAccess.write (m := StateM Disk) (Path.join directory name) content)
  return a

theorem isWritten_of_content?_eq {d₁ : Disk} {directory name : Text} {content : Bytes}
    (h : Disk.IsWritten d₁ d' directory name content) (hd : d₁.content? = d.content?) :
    d.IsWritten d' directory name content := by
  obtain ⟨p, hp, hq, hc, hother⟩ := h
  exact ⟨p, hp, hq, hc, fun q hq => (hother q hq).trans (congrFun hd q)⟩

/-- Writing a file fails when directories have been made, or it ends with one that is written. -/
theorem run_writeIn (f g : DiskFault → Failure) (directory name : Text) (content : Bytes) (a : α)
    (d : Disk) :
    (∃ cause failure d₁, (writeIn f g directory name content a).run.run d = (.error failure, d₁) ∧
      (failure = f cause ∨ failure = g cause) ∧ d.HasMoreDirectories d₁) ∨
    ∃ d₁ d', (writeIn f g directory name content a).run.run d = (.ok a, d') ∧
      d.HasMoreDirectories d₁ ∧ d₁.write (Path.join directory name) content = .ok d' := by
  unfold writeIn
  rw [run_bind_of_ok (run_lift _ d)]
  have hmore := FileAccess.onlyMakesDirectories_makeDirectories directory d
  generalize (FileAccess.makeDirectories directory : StateM Disk _).run d = made at hmore ⊢
  obtain ⟨result, d₁⟩ := made
  dsimp only at hmore ⊢
  cases result with
  | error cause =>
    left
    exact ⟨cause, f cause, d₁, run_bind_of_error (run_orFail_error f cause d₁), .inl rfl, hmore⟩
  | ok =>
    rw [orFail_ok, pure_bind, run_bind_of_ok (run_lift _ d₁)]
    have hwrite : (FileAccess.write (Path.join directory name) content : StateM Disk _).run d₁ =
        Disk.attempt (fun d => d.write (Path.join directory name) content) d₁ := rfl
    rw [hwrite, Disk.attempt]
    cases hw : d₁.write (Path.join directory name) content with
    | error cause =>
      left
      exact ⟨cause, g cause, d₁, run_bind_of_error (run_orFail_error g cause d₁), .inr rfl, hmore⟩
    | ok d' =>
      right
      rw [orFail_ok, pure_bind]
      exact ⟨d₁, d', rfl, hmore, hw⟩

/-- Writing a file fails and changes none, or it changes no other. -/
theorem run_writeIn_cases (f g : DiskFault → Failure) {directory name : Text} (content : Bytes)
    (a : α) (hd : directory ≠ []) (hn : Path.IsName name) (d : Disk) :
    (∃ cause failure d', (writeIn f g directory name content a).run.run d = (.error failure, d') ∧
      (failure = f cause ∨ failure = g cause) ∧ d'.content? = d.content?) ∨
    ∃ d', (writeIn f g directory name content a).run.run d = (.ok a, d') ∧
      d.IsWritten d' directory name content := by
  obtain ⟨cause, failure, d₁, hrun, hfailure, hmore⟩ | ⟨d₁, d', hrun, hmore, hw⟩ :=
    run_writeIn f g directory name content a d
  · exact Or.inl ⟨cause, failure, d₁, hrun, hfailure, hmore.content?_eq⟩
  · exact Or.inr ⟨d', hrun,
      isWritten_of_content?_eq (Disk.isWritten_of_write_eq_ok hd hn hw) hmore.content?_eq⟩

/-! ### Requests -/

/-- What is left to do when settings, document and run are settled. -/
theorem run_clean_of_ok {r : CleanRequest} {settings : Settings} {plan : Plan}
    {document : Document} {output : RunOutput}
    (hload : (loadSettings home r.config : ExceptT Failure (StateM Disk) Settings).run.run d =
      (.ok settings, d))
    (hplan : Plan.ofSettings (settings.override r.overrides) = .ok plan)
    (hread : (readDocument r.input : ExceptT Failure (StateM Disk) Document).run.run d =
      (.ok document, d))
    (hrun : (Run.of document plan).result = .ok output) :
    (clean home r : ExceptT Failure (StateM Disk) Response).run.run d =
      (writeIn (.outputDirectory r.out) (.outputFile (Path.join r.out plan.output.fileName)) r.out
        plan.output.fileName output.artifact.bytes
        (Response.cleaned (Path.join r.out plan.output.fileName) output r.report)).run.run d := by
  rw [clean, run_bind_of_ok hload, hplan, orFail_ok, pure_bind, run_bind_of_ok hread, hrun,
    orFail_ok, pure_bind, ← Run.fileName_artifact hrun]
  simp only [writeArtifact, writeIn, bind_assoc, pure_bind]

theorem run_clean_cases (home : Option Text) (r : CleanRequest) (d : Disk) :
    (∃ failure, (clean home r : ExceptT Failure (StateM Disk) Response).run.run d =
      (.error failure, d)) ∨
    ∃ settings plan document output,
      (loadSettings home r.config : ExceptT Failure (StateM Disk) Settings).run.run d =
        (.ok settings, d) ∧
      Plan.ofSettings (settings.override r.overrides) = .ok plan ∧
      (readDocument r.input : ExceptT Failure (StateM Disk) Document).run.run d =
        (.ok document, d) ∧
      (Run.of document plan).result = .ok output := by
  -- Up to the run, the disk is the given one, since it has only been read.
  have hload := Keeps.run_eq (keeps_loadSettings home r.config) d
  generalize ((loadSettings home r.config : ExceptT Failure (StateM Disk) _).run.run d).1 = loaded
    at hload
  cases loaded with
  | error failure => exact Or.inl ⟨failure, run_bind_of_error hload⟩
  | ok settings =>
  have hread := Keeps.run_eq (keeps_readDocument r.input) d
  generalize ((readDocument r.input : ExceptT Failure (StateM Disk) _).run.run d).1 = found
    at hread
  cases hplan : Plan.ofSettings (settings.override r.overrides) with
  | error fault =>
    left
    rw [clean, run_bind_of_ok hload, hplan]
    exact ⟨_, run_bind_of_error (run_orFail_error _ fault d)⟩
  | ok plan =>
  cases found with
  | error failure =>
    left
    rw [clean, run_bind_of_ok hload, hplan, orFail_ok, pure_bind]
    exact ⟨failure, run_bind_of_error hread⟩
  | ok document =>
  cases hrun : (Run.of document plan).result with
  | error fault =>
    left
    rw [clean, run_bind_of_ok hload, hplan, orFail_ok, pure_bind, run_bind_of_ok hread, hrun]
    exact ⟨_, run_bind_of_error (run_orFail_error _ fault d)⟩
  | ok output => exact Or.inr ⟨settings, plan, document, output, hload, hplan, hread, hrun⟩

theorem isName_settingsName : Path.IsName settingsName := by
  refine Path.IsName.of_length ?_ ?_ <;> decide

theorem join_settingsDirectory_ne_nil (path : Text) : Path.join path ".docsplit".toList ≠ [] := by
  rw [Path.join]
  split_ifs <;> simp

theorem run_initSettings_none (d : Disk) :
    ∃ failure, (initSettings none : ExceptT Failure (StateM Disk) Response).run.run d =
      (.error failure, d) :=
  ⟨_, run_bind_of_error (run_orFail_error _ _ d)⟩

theorem initSettings_some (path : Text) :
    (initSettings (some path) : ExceptT Failure (StateM Disk) Response) =
      writeIn (.fault ∘ .io (Path.join path ".docsplit".toList))
        (.fault ∘ .io (Path.join (Path.join path ".docsplit".toList) settingsName))
        (Path.join path ".docsplit".toList) settingsName
        (Text.utf8 (Settings.print {})).data.toList
        (.initialized (Path.join (Path.join path ".docsplit".toList) settingsName)) := by
  unfold initSettings settingsDirectory writeIn
  rw [orFail_ok, pure_bind]

theorem keeps_showSettings (home config : Option Text) :
    Keeps id (do return .shown (← loadSettings home config) :
      ExceptT Failure (StateM Disk) Response).run :=
  (keeps_loadSettings home config).run_bind fun _ => keeps_run_pure _

/-- How a request that has ended leaves the disk `d`, as `d'`. -/
def Request.Leaves (home : Option Text) (d d' : Disk) :
    Request → Except Failure Response → Prop
  | clean r, .ok response => ∃ settings plan document output,
      (loadSettings home r.config : ExceptT Failure (StateM Disk) Settings).run.run d =
        (.ok settings, d) ∧
      Plan.ofSettings (settings.override r.overrides) = .ok plan ∧
      (readDocument r.input : ExceptT Failure (StateM Disk) Document).run.run d =
        (.ok document, d) ∧
      (Run.of document plan).result = .ok output ∧
      response = .cleaned (Path.join r.out plan.output.fileName) output r.report ∧
      d.IsWritten d' r.out plan.output.fileName output.artifact.bytes
  | clean _, .error (.fault _) => d' = d
  | clean _, .error _ => d'.content? = d.content?
  | initSettings, .ok response => ∃ path, home = some path ∧
      response = .initialized (Path.join (Path.join path ".docsplit".toList) settingsName) ∧
      d.IsWritten d' (Path.join path ".docsplit".toList) settingsName
        (Text.utf8 (Settings.print {})).data.toList
  | initSettings, .error _ => d'.content? = d.content?
  | showSettings _, _ => d' = d

theorem leaves_clean (home : Option Text) {r : CleanRequest} (hr : r.out ≠ []) (d : Disk) :
    let ended := (clean home r : ExceptT Failure (StateM Disk) Response).run.run d
    (Request.clean r).Leaves home d ended.2 ended.1 := by
  intro ended
  obtain ⟨failure, hend⟩ | ⟨settings, plan, document, output, hload, hplan, hread, hrun⟩ :=
    run_clean_cases home r d
  · have hended : ended = (.error failure, d) := hend
    rw [hended]
    cases failure <;> rfl
  have hend := run_clean_of_ok hload hplan hread hrun
  obtain ⟨cause, failure, d', hwrite, hfailure, hd'⟩ | ⟨d', hwrite, hd'⟩ :=
    run_writeIn_cases (.outputDirectory r.out)
      (.outputFile (Path.join r.out plan.output.fileName)) output.artifact.bytes
      (Response.cleaned (Path.join r.out plan.output.fileName) output r.report) hr
      (Plan.isName_fileName hplan) d
  · have hended : ended = (.error failure, d') := hend.trans hwrite
    rw [hended]
    rcases hfailure with rfl | rfl
    · exact hd'
    · exact hd'
  · have hended : ended = (.ok _, d') := hend.trans hwrite
    rw [hended]
    exact ⟨settings, plan, document, output, hload, hplan, hread, hrun, rfl, hd'⟩

theorem leaves_initSettings (home : Option Text) (d : Disk) :
    let ended := (initSettings home : ExceptT Failure (StateM Disk) Response).run.run d
    Request.initSettings.Leaves home d ended.2 ended.1 := by
  intro ended
  cases home with
  | none =>
    obtain ⟨failure, hend⟩ := run_initSettings_none d
    have hended : ended = (.error failure, d) := hend
    rw [hended]
    rfl
  | some path =>
    have hended : ended = _ := congrArg (fun x => x.run.run d) (initSettings_some path)
    obtain ⟨cause, failure, d', hwrite, -, hd'⟩ | ⟨d', hwrite, hd'⟩ :=
      run_writeIn_cases _ _ _ _ (join_settingsDirectory_ne_nil path) isName_settingsName d
    · rw [hended, hwrite]
      exact hd'
    · rw [hended, hwrite]
      exact ⟨path, rfl, rfl, hd'⟩

/-- Whatever a command line asks for, no file changes but the one that the request is to write, and
that only if the request succeeds. A command line that cannot be followed gives no request. -/
theorem leaves_of_read_eq_ok {words : List Text} {i : Invocation}
    {result : Except Failure Response} (hi : Invocation.read usual words = .ok i)
    (h : (execute home i.request : ExceptT Failure (StateM Disk) Response).run.run d =
      (result, d')) :
    i.request.Leaves home d d' result := by
  have hpaths := hasPaths_read hi
  cases hr : i.request with
  | clean r =>
    rw [hr] at h hpaths
    have hleaves := leaves_clean home hpaths.2.1 d
    rw [execute] at h
    rw [h] at hleaves
    exact hleaves
  | initSettings =>
    rw [hr] at h
    have hleaves := leaves_initSettings home d
    rw [execute] at h
    rw [h] at hleaves
    exact hleaves
  | showSettings config =>
    rw [hr] at h
    have hkeep := keeps_showSettings home config d
    exact (congrArg Prod.snd h).symm.trans hkeep

/-- A table is written into a directory that has to be made. -/
theorem leaves_clean_table :
    let r : CleanRequest := ⟨"a.txt".toList, "out".toList, { format := some .csv }, false, none⟩
    let d : Disk := ⟨[([['w']], .directory), ([['w'], "a.txt".toList], .file [0x61])], [['w']]⟩
    ∃ output d',
      Invocation.read none ["clean".toList, "a.txt".toList, "-fcsv".toList, "-o".toList,
        "out".toList] = .ok ⟨.clean r, none, 0⟩ ∧
      (execute (some ['/', 'h']) (.clean r) : ExceptT Failure (StateM Disk) Response).run.run d =
        (.ok (.cleaned "out/cleaned_output.csv".toList output false), d') ∧
      (Request.clean r).Leaves (some ['/', 'h']) d d'
        (.ok (.cleaned "out/cleaned_output.csv".toList output false)) := by
  have he : Extraction.ofDocument Encoding.defaultChain ⟨"a.txt".toList, ⟨#[0x61]⟩⟩ =
      .ok ⟨[['a']], some .utf8, []⟩ := rfl
  obtain ⟨a, -, ha⟩ := Run.of_eq_of_ok (p := { output := { format := .csv } }) he
  have hread : Invocation.read none ["clean".toList, "a.txt".toList, "-fcsv".toList,
    "-o".toList, "out".toList] = .ok ⟨.clean ⟨"a.txt".toList, "out".toList,
      { format := some .csv }, false, none⟩, none, 0⟩ := rfl
  have hload : (loadSettings (some ['/', 'h']) none : ExceptT Failure (StateM Disk) Settings).run.run
      ⟨[([['w']], .directory), ([['w'], "a.txt".toList], .file [0x61])], [['w']]⟩ =
        (.ok {}, ⟨[([['w']], .directory), ([['w'], "a.txt".toList], .file [0x61])], [['w']]⟩) := rfl
  have hend := run_clean_of_ok
    (r := ⟨"a.txt".toList, "out".toList, { format := some .csv }, false, none⟩) hload rfl rfl
    (congrArg Run.result ha)
  exact ⟨_, _, hread, hend, leaves_of_read_eq_ok hread hend⟩

end Command
end Quire
