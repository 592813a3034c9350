import Quire.Disk
import Quire.Proofs.Path
import Quire.Proofs.Plan

/-!
# Where files are written

A path that ends in a name leads to a place right below the one where its directory is
(`resolve_join`), and it still does after a file has been written there (`resolve_put_file`). Making
a directory changes the content of no file (`hasMoreDirectories_of_makeDirectory`), and writing
changes that of one (`write_eq_ok`).
-/

namespace Quire.Disk

variable {d d' : Disk} {p q r : Place} {path directory name : Text} {ss : List Text}
  {content : Bytes}

/-! ### Places -/

theorem walk_append (d : Disk) (p : Place) (ss ts : List Text) :
    d.walk p (ss ++ ts) = d.walk p ss >>= fun q => d.walk q ts := by
  induction ss generalizing p with
  | nil => rfl
  | cons s ss ih =>
    rw [List.cons_append, walk, walk]
    split
    · rfl
    · rfl
    · split_ifs
      · exact ih p
      · exact ih p.dropLast
      · rfl
      · exact ih (p ++ [s])

/-- A name leads from a directory to the place of that name in it. -/
theorem walk_name (hn : Path.IsName name) (h : d.walk p [name] = .ok q) :
    d.node? p = some .directory ∧ q = p ++ [name] := by
  rw [walk] at h
  split at h
  · cases h
  · cases h
  · next hdir =>
    rw [if_neg (not_or.2 ⟨hn.ne_nil, hn.ne_dot⟩), if_neg hn.ne_dots] at h
    split at h
    · cases h
    · cases h
      exact ⟨hdir, rfl⟩

theorem walk_empty (h : d.node? p = some .directory) : d.walk p [[]] = .ok p := by
  rw [walk, h]
  rfl

/-- A path goes through directories only, so that it leads where it led before as long as they are
there. -/
theorem walk_of_directories (hdir : ∀ p, d.node? p = some .directory → d'.node? p = some .directory)
    (h : d.walk p ss = .ok q) : d'.walk p ss = .ok q := by
  induction ss generalizing p with
  | nil => exact h
  | cons s ss ih =>
    rw [walk] at h
    split at h
    · cases h
    · cases h
    next hp =>
    rw [walk, hdir p hp]
    dsimp only
    split_ifs at h ⊢
    · exact ih h
    · exact ih h
    · exact ih h

theorem origin_of_isPrefix (hne : directory ≠ []) (hpre : directory <+: path)
    (habs : Path.isAbsolute path = Path.isAbsolute directory) (h : d.origin path = .ok p) :
    d.origin directory = .ok p := by
  obtain ⟨t, rfl⟩ := hpre
  unfold origin at h ⊢
  split at h
  · cases h
  next hnul =>
  split at h
  · cases h
  split at h
  · cases h
  next hlen =>
  rw [Text.utf8Length_append] at hlen
  rw [if_neg fun hc => hnul (by simp_all), if_neg (by simpa using hne), if_neg (by omega), ← habs]
  exact h

/-- Where a name under a directory leads. -/
theorem resolve_join (hd : directory ≠ []) (hn : Path.IsName name)
    (h : d.resolve (Path.join directory name) = .ok q) :
    ∃ p, d.resolve directory = .ok p ∧ d.node? p = some .directory ∧ q = p ++ [name] := by
  obtain ⟨start, ho, hw⟩ := exists_of_bind_eq_ok h
  have ho := origin_of_isPrefix hd (Path.isPrefix_join hd hn) (Path.isAbsolute_join hd hn) ho
  obtain ⟨ss, hss, hjoin⟩ := Path.segments_join hd hn
  rw [hjoin, walk_append] at hw
  obtain ⟨p, hp, hw⟩ := exists_of_bind_eq_ok hw
  obtain ⟨hdir, rfl⟩ := walk_name hn hw
  refine ⟨p, ?_, hdir, rfl⟩
  rw [resolve, ho]
  rcases hss with hss | hss
  · rw [hss]
    exact hp
  · rw [hss]
    show d.walk start (ss ++ [[]]) = .ok p
    rw [walk_append, hp]
    exact walk_empty hdir

/-! ### Changes -/

theorem content?_put_directory (h : d.node? p = none) (q : Place) :
    (d.put p .directory).content? q = d.content? q := by
  by_cases hq : q = p
  · subst hq
    have hne : q ≠ [] := by
      rintro rfl
      cases h
    rw [content?, content?, node?_put _ _ _ _ hne, if_pos rfl, h]
  · exact content?_put_of_ne d _ hq

/-- The files are the places that have content. -/
theorem mem_files_iff : p ∈ d.files ↔ (d.content? p).isSome := by
  refine ⟨fun h => (List.mem_filter.1 h).2, fun h => List.mem_filter.2 ⟨?_, h⟩⟩
  unfold content? node? at h
  split at h
  · next content hnode =>
    split at hnode
    · cases hnode
    · obtain ⟨before, after, hnodes, -⟩ := List.lookup_eq_some_iff.1 hnode
      rw [hnodes]
      simp
  · cases h

/-- A disk that may have more directories than another and is else the same. -/
structure HasMoreDirectories (d d' : Disk) : Prop where
  here_eq : d'.here = d.here
  directory : ∀ p, d.node? p = some .directory → d'.node? p = some .directory
  content?_eq : d'.content? = d.content?

theorem HasMoreDirectories.refl (d : Disk) : d.HasMoreDirectories d := ⟨rfl, fun _ => id, rfl⟩

theorem HasMoreDirectories.trans {d'' : Disk} (h : d.HasMoreDirectories d')
    (h' : d'.HasMoreDirectories d'') : d.HasMoreDirectories d'' where
  here_eq := h'.here_eq.trans h.here_eq
  directory := fun p hp => h'.directory p (h.directory p hp)
  content?_eq := h'.content?_eq.trans h.content?_eq

theorem HasMoreDirectories.mem_files_iff (h : d.HasMoreDirectories d') :
    p ∈ d'.files ↔ p ∈ d.files := by
  rw [Disk.mem_files_iff, Disk.mem_files_iff, h.content?_eq]

theorem HasMoreDirectories.resolve (h : d.HasMoreDirectories d') (hq : d.resolve path = .ok q) :
    d'.resolve path = .ok q := by
  obtain ⟨start, ho, hw⟩ := exists_of_bind_eq_ok hq
  have ho' : d'.origin path = .ok start := by
    rw [origin, h.here_eq]
    exact ho
  rw [Disk.resolve, ho']
  exact walk_of_directories h.directory hw

theorem hasMoreDirectories_of_makeDirectory (h : d.makeDirectory path = .ok d') :
    d.HasMoreDirectories d' := by
  obtain ⟨start, -, h⟩ := exists_of_bind_eq_ok h
  obtain ⟨p, -, h⟩ := exists_of_bind_eq_ok h
  split at h
  · cases h
  next hp =>
  cases h
  have hnone : d.node? p = none := by simpa using hp
  refine ⟨rfl, fun q hq => ?_, funext (content?_put_directory hnone)⟩
  have hp : p ≠ [] := by
    rintro rfl
    cases hnone
  rw [node?_put _ _ _ _ hp]
  split
  · rfl
  · exact hq

theorem write_eq_ok (h : d.write path content = .ok d') :
    ∃ p, d.resolve path = .ok p ∧ d.node? p ≠ some .directory ∧ d' = d.put p (.file content) := by
  obtain ⟨p, hp, h⟩ := exists_of_bind_eq_ok h
  split at h
  · cases h
  · next hdir =>
    cases h
    exact ⟨p, hp, hdir, rfl⟩

theorem ne_nil_of_node?_ne (h : d.node? p ≠ some .directory) : p ≠ [] := by
  rintro rfl
  exact h rfl

theorem content?_put_file (h : d.node? p ≠ some .directory) :
    (d.put p (.file content)).content? p = some content := by
  rw [content?, node?_put _ _ _ _ (ne_nil_of_node?_ne h), if_pos rfl]

theorem node?_put_file_of_directory (hr : d.node? r ≠ some .directory)
    (hp : d.node? p = some .directory) :
    (d.put r (.file content)).node? p = some .directory := by
  have hne : p ≠ r := by
    rintro rfl
    exact hr hp
  rw [node?_put _ _ _ _ (ne_nil_of_node?_ne hr), if_neg hne]
  exact hp

theorem resolve_put_file (hr : d.node? r ≠ some .directory) (h : d.resolve path = .ok q) :
    (d.put r (.file content)).resolve path = .ok q := by
  obtain ⟨start, ho, hw⟩ := exists_of_bind_eq_ok h
  have ho' : (d.put r (.file content)).origin path = .ok start := ho
  rw [resolve, ho']
  exact walk_of_directories (fun p => node?_put_file_of_directory hr) hw

/-! ### What is read -/

theorem read_eq_ok_iff : d.read path = .ok content ↔
    ∃ p, d.resolve path = .ok p ∧ d.content? p = some content := by
  unfold read content?
  cases d.resolve path with
  | error cause =>
    refine iff_of_false nofun ?_
    rintro ⟨p, hp, -⟩
    cases hp
  | ok p =>
    dsimp only [bind, Except.bind]
    cases hn : d.node? p with
    | none => simp [hn]
    | some n => cases n <;> simp [hn]

theorem HasMoreDirectories.read (h : d.HasMoreDirectories d') (hr : d.read path = .ok content) :
    d'.read path = .ok content := by
  obtain ⟨p, hp, hc⟩ := read_eq_ok_iff.1 hr
  exact read_eq_ok_iff.2 ⟨p, h.resolve hp, h.content?_eq ▸ hc⟩

/-- All files are as they were, but for one in a directory that has been written. -/
def IsWritten (d d' : Disk) (directory name : Text) (content : Bytes) : Prop :=
  ∃ p, d'.resolve directory = .ok p ∧ d'.resolve (Path.join directory name) = .ok (p ++ [name]) ∧
    d'.content? (p ++ [name]) = some content ∧
    ∀ q, q ≠ p ++ [name] → d'.content? q = d.content? q

/-- At most one file is new: the one that has been written. -/
theorem IsWritten.exists_mem_files_iff (h : IsWritten d d' directory name content) :
    ∃ p, d'.resolve (Path.join directory name) = .ok p ∧
      ∀ q, q ∈ d'.files ↔ q = p ∨ q ∈ d.files := by
  obtain ⟨p, -, hresolve, hcontent, hother⟩ := h
  refine ⟨p ++ [name], hresolve, fun q => ?_⟩
  rw [mem_files_iff, mem_files_iff]
  by_cases hq : q = p ++ [name]
  · rw [hq, hcontent]
    simp
  · rw [hother q hq]
    simp [hq]

theorem isWritten_of_write_eq_ok (hd : directory ≠ []) (hn : Path.IsName name)
    (h : d.write (Path.join directory name) content = .ok d') :
    IsWritten d d' directory name content := by
  obtain ⟨q, hq, hnode, rfl⟩ := write_eq_ok h
  obtain ⟨p, hp, -, rfl⟩ := resolve_join hd hn hq
  exact ⟨p, resolve_put_file hnode hp, resolve_put_file hnode hq, content?_put_file hnode,
    fun q hne => content?_put_of_ne d _ hne⟩

end Quire.Disk
