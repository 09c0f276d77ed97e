import TermSearch.Config.Discovery

namespace TermSearch

/-! Searching for settings files, one directory after another. A search over a
list of directories is the one over its first part, followed by the one over the
rest unless a root or a broken file has ended it before. -/

theorem SettingsFile.path_of_load {tree : FileTree} {path : Path}
    {file : SettingsFile} (h : SettingsFile.load tree path = .ok file) :
    file.path = path := by
  unfold SettingsFile.load at h
  split at h
  · contradiction
  · split at h
    · contradiction
    · rw [← Except.ok.inj h]

namespace Discovery

variable {tree : FileTree} {directory global : Path} {directories : List Path}
  {file : SettingsFile} {files : List SettingsFile}

/-- The second search takes place if the first one went through to its end. -/
def andThen (first second : Discovery) : Discovery :=
  match first.ending with
  | .complete => ⟨first.files ++ second.files, second.ending⟩
  | _ => first

theorem andThen_of_complete {first : Discovery} (h : first.ending = .complete)
    (second : Discovery) :
    first.andThen second = ⟨first.files ++ second.files, second.ending⟩ := by
  simp only [andThen, h]

theorem andThen_of_ne_complete {first : Discovery}
    (h : first.ending ≠ .complete) (second : Discovery) :
    first.andThen second = first := by
  unfold andThen
  split
  · contradiction
  · rfl

theorem andThen_assoc (first second third : Discovery) :
    (first.andThen second).andThen third =
      first.andThen (second.andThen third) := by
  by_cases hfirst : first.ending = .complete
  · rw [andThen_of_complete hfirst, andThen_of_complete hfirst]
    by_cases hsecond : second.ending = .complete
    · rw [andThen_of_complete hsecond, andThen_of_complete, List.append_assoc]
      exact hsecond
    · rw [andThen_of_ne_complete hsecond, andThen_of_ne_complete]
      exact hsecond
  · rw [andThen_of_ne_complete hfirst, andThen_of_ne_complete hfirst,
      andThen_of_ne_complete hfirst]

theorem mem_files_andThen {first second : Discovery}
    (h : file ∈ (first.andThen second).files) :
    file ∈ first.files ∨ file ∈ second.files := by
  by_cases hfirst : first.ending = .complete
  · rw [andThen_of_complete hfirst] at h
    exact List.mem_append.mp h
  · rw [andThen_of_ne_complete hfirst] at h
    exact .inl h

theorem upward_cons (tree : FileTree) (directory : Path)
    (directories : List Path) :
    upward tree (directory :: directories) =
      (upward tree [directory]).andThen (upward tree directories) := by
  simp only [upward]
  split
  · split
    · rfl
    · split <;> rfl
  · rfl

theorem upward_append (tree : FileTree) (below above : List Path) :
    upward tree (below ++ above) =
      (upward tree below).andThen (upward tree above) := by
  induction below with
  | nil => rfl
  | cons directory below ih =>
      rw [List.cons_append, upward_cons, ih, ← andThen_assoc, ← upward_cons]

theorem upward_singleton_cases (tree : FileTree) (directory : Path) :
    (tree.isFile (directory.child settingsFileName) = false ∧
      upward tree [directory] = ⟨[], .complete⟩) ∨
    (tree.isFile (directory.child settingsFileName) = true ∧
      ∃ error, upward tree [directory] = ⟨[], .broken error⟩) ∨
    (tree.isFile (directory.child settingsFileName) = true ∧
      ∃ file, file.path = directory.child settingsFileName ∧
        upward tree [directory] =
          ⟨[file], if file.settings.isRoot then .atRoot else .complete⟩) := by
  cases hfile : tree.isFile (directory.child settingsFileName) with
  | false => exact .inl ⟨rfl, by simp [upward, hfile]⟩
  | true =>
      cases hload :
        SettingsFile.load tree (directory.child settingsFileName) with
      | error error =>
          exact .inr (.inl ⟨rfl, error, by simp [upward, hfile, hload]⟩)
      | ok file =>
          refine .inr (.inr ⟨rfl, file, SettingsFile.path_of_load hload, ?_⟩)
          simp only [upward, hfile, hload, if_true]
          split <;> rfl

theorem exists_of_mem_upward (h : file ∈ (upward tree directories).files) :
    ∃ directory ∈ directories, file.path = directory.child settingsFileName ∧
      tree.isFile (directory.child settingsFileName) = true := by
  induction directories with
  | nil => contradiction
  | cons directory directories ih =>
      rw [upward_cons] at h
      rcases mem_files_andThen h with h | h
      · rcases upward_singleton_cases tree directory with
          ⟨-, hfound⟩ | ⟨-, error, hfound⟩ | ⟨hfile, found, hpath, hfound⟩
        · rw [hfound] at h
          contradiction
        · rw [hfound] at h
          contradiction
        · rw [hfound, List.mem_singleton] at h
          exact ⟨directory, List.mem_cons_self, h ▸ hpath, hfile⟩
      · obtain ⟨other, hmem, hother⟩ := ih h
        exact ⟨other, List.mem_cons_of_mem _ hmem, hother⟩

theorem upward_eq_nothing
    (h : ∀ directory ∈ directories,
      tree.isFile (directory.child settingsFileName) = false) :
    upward tree directories = ⟨[], .complete⟩ := by
  induction directories with
  | nil => rfl
  | cons directory directories ih =>
      obtain ⟨hdirectory, hdirectories⟩ := List.forall_mem_cons.mp h
      simp only [upward, hdirectory, ih hdirectories,
        Bool.false_eq_true, if_false]

theorem upward_ne_nothing (h : directory ∈ directories)
    (hfile : tree.isFile (directory.child settingsFileName) = true) :
    (upward tree directories).files ≠ [] ∨
      ∃ error, (upward tree directories).ending = .broken error := by
  induction directories with
  | nil => contradiction
  | cons first directories ih =>
      rw [upward_cons]
      rcases upward_singleton_cases tree first with
        ⟨hnone, hfound⟩ | ⟨-, error, hfound⟩ | ⟨-, file, -, hfound⟩
      · have hne : directory ≠ first := by
          rintro rfl
          rw [hfile] at hnone
          contradiction
        rw [hfound]
        exact ih ((List.mem_cons.mp h).resolve_left hne)
      · exact .inr ⟨error, by rw [hfound]; rfl⟩
      · rw [hfound]
        cases file.settings.isRoot <;> exact .inl (List.cons_ne_nil _ _)

theorem exists_mem_upward_of_complete
    (h : (upward tree directories).ending = .complete)
    (hmem : directory ∈ directories)
    (hfile : tree.isFile (directory.child settingsFileName) = true) :
    ∃ file ∈ (upward tree directories).files,
      file.path = directory.child settingsFileName := by
  induction directories with
  | nil => contradiction
  | cons first directories ih =>
      rw [upward_cons] at h ⊢
      rcases upward_singleton_cases tree first with
        ⟨hnone, hfound⟩ | ⟨-, error, hfound⟩ | ⟨-, file, hpath, hfound⟩
      · have hne : directory ≠ first := by
          rintro rfl
          rw [hfile] at hnone
          contradiction
        rw [hfound] at h ⊢
        exact ih h ((List.mem_cons.mp hmem).resolve_left hne)
      · rw [hfound] at h
        contradiction
      · rw [hfound] at h ⊢
        cases hroot : file.settings.isRoot with
        | true =>
            rw [hroot] at h
            contradiction
        | false =>
            rw [hroot] at h
            rcases List.mem_cons.mp hmem with rfl | hmem
            · exact ⟨file, List.mem_cons_self, hpath⟩
            · obtain ⟨other, hother, hotherpath⟩ := ih h hmem
              exact ⟨other, List.mem_cons_of_mem _ hother, hotherpath⟩

/-! The global file. -/

theorem result_eq_ok_iff {discovery : Discovery} :
    discovery.result = .ok files ↔
      discovery.files = files ∧ ∀ error, discovery.ending ≠ .broken error := by
  obtain ⟨found, ending⟩ := discovery
  cases ending <;> simp [result]

theorem run_some (tree : FileTree) (directory global : Path) :
    run tree directory (some global) =
      (upward tree directory.ancestors).withGlobal tree global := rfl

theorem withGlobal_cases (tree : FileTree) (global : Path)
    (discovery : Discovery) :
    discovery.withGlobal tree global = discovery ∨
      (∃ error, (discovery.withGlobal tree global).ending = .broken error) ∨
      (discovery.ending = .complete ∧
        tree.isFile global = true ∧
        (∀ file ∈ discovery.files, file.path ≠ global) ∧
        ∃ file, file.path = global ∧
          discovery.withGlobal tree global =
            ⟨discovery.files ++ [file], .complete⟩) := by
  obtain ⟨files, ending⟩ := discovery
  cases ending with
  | atRoot => exact .inl rfl
  | broken error => exact .inl rfl
  | complete =>
      by_cases h : tree.isFile global ∧ global ∉ files.map SettingsFile.path
      · have hpaths : ∀ file ∈ files, file.path ≠ global :=
          fun file hmem hpath => h.2 (hpath ▸ List.mem_map_of_mem hmem)
        cases hload : SettingsFile.load tree global with
        | error error =>
            refine .inr (.inl ⟨error, ?_⟩)
            simp only [withGlobal, if_pos h, hload]
        | ok file =>
            exact .inr (.inr ⟨rfl, h.1, hpaths, file, SettingsFile.path_of_load
              hload, by simp only [withGlobal, if_pos h, hload]⟩)
      · exact .inl (by simp only [withGlobal, if_neg h])

end Discovery

end TermSearch
