import Quire.Command.Request
import Quire.Proofs.Plan

/-!
# Paths on the command line

No path on a command line may be empty. Each word that is read keeps the options at that
(`Reading.hasPaths_readWord`), and so do all words of all levels: the paths of a request are not
empty (`hasPaths_read`).
-/

namespace Quire.Command

/-- The paths among options are not empty. -/
structure Options.HasPaths (s : Options) : Prop where
  input : s.input ≠ some []
  out : s.out ≠ some []
  config : s.config ≠ some []

/-- The paths of a request are not empty. -/
def Request.HasPaths : Request → Prop
  | clean r => r.input ≠ [] ∧ r.out ≠ [] ∧ r.config ≠ some []
  | initSettings => True
  | showSettings config => config ≠ some []

variable {s s' : Options} {o : OptionName} {t : Text} {value usual : Option Text} {l : Level}

/-! ### Options -/

namespace Options

theorem hasPaths_empty : HasPaths {} := ⟨nofun, nofun, nofun⟩

theorem ne_nil_of_path_eq_ok {u : Text} (h : path t = .ok u) : u ≠ [] := by
  unfold path at h
  split at h
  · cases h
  · next ht =>
    cases h
    simpa using ht

theorem hasPaths_set (hs : s.HasPaths) (h : s.set o t = .ok s') : s'.HasPaths := by
  cases o with
  | out =>
    obtain ⟨u, hu, h⟩ := exists_of_bind_eq_ok h
    cases h
    exact ⟨hs.input, fun he => ne_nil_of_path_eq_ok hu (Option.some.inj he), hs.config⟩
  | config =>
    obtain ⟨u, hu, h⟩ := exists_of_bind_eq_ok h
    cases h
    exact ⟨hs.input, hs.out, fun he => ne_nil_of_path_eq_ok hu (Option.some.inj he)⟩
  | format | logFormat | byBytes | byChars =>
    obtain ⟨a, -, h⟩ := exists_of_bind_eq_ok h
    cases h
    exact ⟨hs.input, hs.out, hs.config⟩
  | _ =>
    cases h
    exact ⟨hs.input, hs.out, hs.config⟩

theorem hasPaths_give (hs : s.HasPaths) (h : s.give o value = .ok s') : s'.HasPaths := by
  unfold give at h
  split at h
  · cases h
  split at h
  · cases h
  · cases h
  · cases h
    exact ⟨hs.input, hs.out, hs.config⟩
  · split at h
    · cases h
    · refine hasPaths_set ?_ h
      exact ⟨hs.input, hs.out, hs.config⟩

theorem hasPaths_giveInput (hs : s.HasPaths) (h : s.giveInput t = .ok s') : s'.HasPaths := by
  obtain ⟨u, hu, h⟩ := exists_of_bind_eq_ok h
  cases h
  exact ⟨fun he => ne_nil_of_path_eq_ok hu (Option.some.inj he), hs.out, hs.config⟩

theorem settingsFile_ne {config : Option Text} (hs : s.HasPaths)
    (h : s.settingsFile usual = .ok config) : config ≠ some [] := by
  unfold settingsFile at h
  cases hc : s.config with
  | some path =>
    rw [hc] at h
    cases h
    rw [← hc]
    exact hs.config
  | none =>
    rw [hc] at h
    cases usual with
    | some path =>
      obtain ⟨u, hu, rfl⟩ := exists_of_map_eq_ok h
      exact fun he => ne_nil_of_path_eq_ok hu (Option.some.inj he)
    | none =>
      cases h
      nofun

theorem hasPaths_cleanRequest {r : CleanRequest} (hs : s.HasPaths)
    (h : s.cleanRequest usual = .ok r) : (Request.clean r).HasPaths := by
  obtain ⟨config, hconfig, h⟩ := exists_of_bind_eq_ok h
  obtain ⟨division, -, h⟩ := exists_of_bind_eq_ok h
  split at h
  · cases h
  · next input hi =>
    cases h
    refine ⟨fun he => hs.input (he ▸ hi), ?_, settingsFile_ne hs hconfig⟩
    cases ho : s.out with
    | none => exact List.cons_ne_nil _ _
    | some out => exact fun he => hs.out (ho.trans (congrArg some he))

theorem hasPaths_request {r : Request} (hs : s.HasPaths) (h : s.request usual l = .ok r) :
    r.HasPaths := by
  cases l with
  | program | config => cases h
  | clean =>
    rw [request] at h
    obtain ⟨c, hc, rfl⟩ := exists_of_map_eq_ok h
    exact hasPaths_cleanRequest hs hc
  | configInit =>
    cases h
    trivial
  | configShow =>
    obtain ⟨c, hc, rfl⟩ := exists_of_map_eq_ok h
    exact settingsFile_ne hs hc

end Options

/-! ### Words -/

namespace Reading

variable {s s' : Reading}

theorem hasPaths_settle (hs : s.options.HasPaths) (h : s.settle = .ok s') :
    s'.options.HasPaths := by
  unfold settle at h
  split at h
  · cases h
    exact hs
  · obtain ⟨options, ho, h⟩ := exists_of_bind_eq_ok h
    cases h
    exact Options.hasPaths_give hs ho
  · obtain ⟨options, ho, h⟩ := exists_of_bind_eq_ok h
    cases h
    exact Options.hasPaths_giveInput hs ho

theorem hasPaths_give (hs : s.options.HasPaths) (h : s.give o value = .ok s') :
    s'.options.HasPaths := by
  obtain ⟨settled, hsettle, h⟩ := exists_of_bind_eq_ok h
  obtain ⟨options, ho, h⟩ := exists_of_bind_eq_ok h
  cases h
  exact Options.hasPaths_give (hasPaths_settle hs hsettle) ho

theorem hasPaths_await (hs : s.options.HasPaths) (h : s.await o = .ok s') :
    s'.options.HasPaths := by
  obtain ⟨settled, hsettle, h⟩ := exists_of_bind_eq_ok h
  have hsettled := hasPaths_settle hs hsettle
  cases h
  exact hsettled

theorem hasPaths_readLong (hs : s.options.HasPaths) (h : s.readLong l t value = .ok s') :
    s'.options.HasPaths := by
  unfold readLong at h
  split at h
  · cases h
  split at h
  · split at h
    · exact hasPaths_give hs h
    · exact hasPaths_await hs h
  · split at h
    · cases h
    · exact hasPaths_give hs h

theorem hasPaths_readLetters (hs : s.options.HasPaths) (h : s.readLetters l t = .ok s') :
    s'.options.HasPaths := by
  induction t generalizing s with
  | nil =>
    cases h
    exact hs
  | cons c t ih =>
    rw [readLetters] at h
    split at h
    · cases h
    split at h
    · split at h
      · exact hasPaths_await hs h
      · exact hasPaths_give hs h
      · exact hasPaths_give hs h
    · obtain ⟨given, hg, h⟩ := exists_of_bind_eq_ok h
      exact ih (hasPaths_give hs hg) h

theorem hasPaths_readPlain (hs : s.options.HasPaths) (h : s.readPlain l t = .ok s') :
    s'.options.HasPaths := by
  unfold readPlain at h
  split at h
  · cases h
    exact hs
  split at h
  · obtain ⟨settled, hsettle, h⟩ := exists_of_bind_eq_ok h
    have hsettled := hasPaths_settle hs hsettle
    cases h
    exact hsettled
  · split at h <;> cases h

theorem hasPaths_readWord (hs : s.options.HasPaths) (h : s.readWord l t = .ok s') :
    s'.options.HasPaths := by
  unfold readWord at h
  split at h
  · exact hasPaths_readPlain hs h
  split at h
  · cases h
    exact hs
  · exact hasPaths_readLong hs h
  · split at h
    · exact hasPaths_readPlain hs h
    · exact hasPaths_readLetters hs h
  · exact hasPaths_readPlain hs h

end Reading

/-! ### Levels -/

theorem hasPaths_readLevel {s : Reading} {words : List Text} {i : Invocation}
    (hs : s.options.HasPaths) (h : readLevel usual l s words = .ok i) : i.request.HasPaths := by
  induction words generalizing l s i with
  | nil =>
    obtain ⟨settled, hsettle, h⟩ := exists_of_bind_eq_ok h
    obtain ⟨request, hr, h⟩ := exists_of_bind_eq_ok h
    cases h
    exact Options.hasPaths_request (Reading.hasPaths_settle hs hsettle) hr
  | cons word words ih =>
    rw [readLevel] at h
    split at h
    · cases h
    split at h
    · obtain ⟨inner, hi, h⟩ := exists_of_bind_eq_ok h
      obtain ⟨settled, -, h⟩ := exists_of_bind_eq_ok h
      cases h
      exact ih (i := inner) Options.hasPaths_empty hi
    · obtain ⟨next, hn, h⟩ := exists_of_bind_eq_ok h
      exact ih (Reading.hasPaths_readWord hs hn) h

theorem hasPaths_read {words : List Text} {i : Invocation}
    (h : Invocation.read usual words = .ok i) : i.request.HasPaths :=
  hasPaths_readLevel (s := {}) Options.hasPaths_empty h

end Quire.Command
