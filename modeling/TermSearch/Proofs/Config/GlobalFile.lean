import Mathlib.Data.List.Nodup
import TermSearch.Proofs.Config.Discovery
import TermSearch.Proofs.Config.Resolution
import TermSearch.Proofs.Files.Ancestors

namespace TermSearch

/-! What the global file has to say to the other files. It is meant for what no
other file settles, but a search that passes through the home directory meets it
before the files of the directories above. -/

namespace Discovery

variable {tree : FileTree} {directory home : Path}
  {directories below above : List Path}
  {file : SettingsFile} {files : List SettingsFile}

theorem path_ne_of_not_mem (h : home ∉ directories) :
    ∀ file ∈ (upward tree directories).files,
      file.path ≠ home.child settingsFileName := by
  intro file hmem hpath
  obtain ⟨other, hother, hotherpath, -⟩ := exists_of_mem_upward hmem
  obtain rfl := Path.child_injective (hotherpath.symm.trans hpath)
  exact h hother

theorem exists_around (hhome : home ∉ below ++ above)
    (hending : ∀ error,
      (upward tree (below ++ home :: above)).ending ≠ .broken error)
    (hmem : ∃ file ∈ (upward tree (below ++ home :: above)).files,
      file.path = home.child settingsFileName) :
    ∃ file, file.path = home.child settingsFileName ∧
      ((file.settings.isRoot = true ∧
          (upward tree (below ++ home :: above)).files =
            (upward tree below).files ++ [file]) ∨
        (file.settings.isRoot = false ∧
          (∀ error, (upward tree above).ending ≠ .broken error) ∧
          (upward tree (below ++ home :: above)).files =
            (upward tree below).files ++ file ::
              (upward tree above).files)) := by
  obtain ⟨hbelow, habove⟩ := not_or.mp (mt List.mem_append.mpr hhome)
  obtain ⟨found, hfound, hpath⟩ := hmem
  rw [upward_append, upward_cons] at hending hfound ⊢
  have hcomplete : (upward tree below).ending = .complete := by
    by_contra hended
    rw [andThen_of_ne_complete hended] at hfound
    exact path_ne_of_not_mem hbelow found hfound hpath
  rw [andThen_of_complete hcomplete] at hending hfound ⊢
  rcases upward_singleton_cases tree home with
    ⟨-, hnone⟩ | ⟨-, error, hbroken⟩ | ⟨-, file, hfile, hread⟩
  · rw [hnone] at hfound
    rcases List.mem_append.mp hfound with hfound | hfound
    · exact absurd hpath (path_ne_of_not_mem hbelow found hfound)
    · exact absurd hpath (path_ne_of_not_mem habove found hfound)
  · exact absurd (by rw [hbroken]; rfl) (hending error)
  · refine ⟨file, hfile, ?_⟩
    rw [hread] at hending ⊢
    cases hroot : file.settings.isRoot with
    | true => exact .inl ⟨rfl, rfl⟩
    | false =>
        rw [hroot] at hending
        exact .inr ⟨rfl, hending, rfl⟩

/-- The global file comes last unless the search has met it and gone on to
another file. -/
theorem around_global
    (hresult : (run tree directory
        (some (home.child settingsFileName))).result =
      .ok files)
    (hglobal : ∃ file ∈ files, file.path = home.child settingsFileName) :
    ∃ nearer file further, files = nearer ++ file :: further ∧
      file.path = home.child settingsFileName ∧
      (∀ other ∈ nearer ++ further, other.path ≠ home.child settingsFileName) ∧
      (further = [] ↔
        ¬ (home ∈ directory.ancestors ∧
          file.settings.isRoot = false ∧
          ∃ above ∈ home.ancestors.tail,
            tree.isFile (above.child settingsFileName) = true)) := by
  obtain ⟨rfl, hending⟩ := result_eq_ok_iff.mp hresult
  rw [run_some] at hending hglobal ⊢
  rcases withGlobal_cases tree (home.child settingsFileName)
    (upward tree directory.ancestors) with
    hmet | ⟨error, herror⟩ | ⟨hcomplete, hfile, hnone, file, hpath, hadded⟩
  · rw [hmet] at hending hglobal ⊢
    have hhome : home ∈ directory.ancestors := by
      obtain ⟨found, hfound, hpath⟩ := hglobal
      by_contra hnot
      exact path_ne_of_not_mem hnot found hfound hpath
    obtain ⟨below, hbelow⟩ := Path.suffix_of_mem_ancestors hhome
    rw [Path.ancestors_eq_cons home] at hbelow
    have hnodup := directory.nodup_ancestors
    rw [← hbelow] at hending hglobal hnodup ⊢
    have hnot := (List.nodup_cons.mp (List.nodup_middle.mp hnodup)).1
    obtain ⟨hnotbelow, hnotabove⟩ := not_or.mp (mt List.mem_append.mpr hnot)
    obtain ⟨file, hpath, ⟨hroot, hfiles⟩ | ⟨hroot, hunbroken, hfiles⟩⟩ :=
      exists_around hnot hending hglobal
    · refine ⟨(upward tree below).files, file, [], hfiles, hpath, ?_, ?_⟩
      · rw [List.append_nil]
        exact path_ne_of_not_mem hnotbelow
      · simp [hroot]
    · refine ⟨_, file, _, hfiles, hpath, ?_, ?_⟩
      · exact List.forall_mem_append.mpr
          ⟨path_ne_of_not_mem hnotbelow, path_ne_of_not_mem hnotabove⟩
      · constructor
        · rintro hnil ⟨-, -, above, hmem, habove⟩
          rcases upward_ne_nothing hmem habove with hsome | ⟨error, herror⟩
          · exact hsome hnil
          · exact hunbroken error herror
        · intro hno
          rw [upward_eq_nothing]
          intro above hmem
          rw [Bool.eq_false_iff]
          exact fun habove => hno ⟨by simp, hroot, above, hmem, habove⟩
  · exact absurd herror (hending error)
  · rw [hadded]
    refine ⟨_, file, [], rfl, hpath,
      by rwa [List.append_nil], iff_of_true rfl ?_⟩
    rintro ⟨hhome, -, -⟩
    obtain ⟨other, hother, hsame⟩ :=
      exists_mem_upward_of_complete hcomplete hhome hfile
    exact hnone other hother hsame

end Discovery

/-- If a search has the global file, that is the last one unless the search
passes through the home directory, is not ended there by a root, and there is a
settings file further up. It never settles what a file before it does. -/
theorem global_last_iff {tree : FileTree} {directory home : Path}
    {files : List SettingsFile}
    (hresult : (Discovery.run tree directory
        (some (home.child settingsFileName))).result =
      .ok files)
    (hglobal : ∃ file ∈ files, file.path = home.child settingsFileName) :
    ∃ nearer file further, files = nearer ++ file :: further ∧
      file.path = home.child settingsFileName ∧
      (∀ other ∈ nearer ++ further, other.path ≠ home.child settingsFileName) ∧
      (further = [] ↔
        ¬ (home ∈ directory.ancestors ∧
          file.settings.isRoot = false ∧
          ∃ above ∈ home.ancestors.tail,
            tree.isFile (above.child settingsFileName) = true)) ∧
      ∀ setting : Setting,
        (∃ other ∈ nearer, setting.inFile other.settings ≠ none) →
        setting.ofConfig (Config.merge files) =
          setting.ofConfig (Config.merge (nearer ++ further)) := by
  obtain ⟨nearer, file, further, rfl, hpath, hothers, hlast⟩ :=
    Discovery.around_global hresult hglobal
  refine ⟨nearer, file, further, rfl, hpath, hothers, hlast, ?_⟩
  intro setting hnearer
  exact setting.ofConfig_merge_middle hnearer file further

/-- The global file of a home directory that has the working directory in it,
and nothing above. -/
theorem global_last_iff_project_in_home :
    let tree : FileTree := .ofEntries
      [(⟨"/", ["home", "p", ".esq.toml"]⟩, .file "[page]\nsize = 1\n".toUTF8),
        (⟨"/", ["home", ".esq.toml"]⟩,
          .file "[page]\nfrom = 3\nsize = 2\n".toUTF8)]
    let directory : Path := ⟨"/", ["home", "p"]⟩
    let home : Path := ⟨"/", ["home"]⟩
    let nearer : SettingsFile :=
      ⟨directory.child settingsFileName, ⟨none, none, some ⟨none, some 1⟩⟩⟩
    let global : SettingsFile :=
      ⟨home.child settingsFileName, ⟨none, none, some ⟨some 3, some 2⟩⟩⟩
    (Discovery.run tree directory (some (home.child settingsFileName))).result =
        .ok [nearer, global] ∧
      (∃ file ∈ [nearer, global], file.path = home.child settingsFileName) ∧
      (∃ earlier last, [nearer, global] = earlier ++ [last] ∧
        last.path = home.child settingsFileName) ∧
      (Config.merge [nearer, global]).page = ⟨3, 1⟩ := by
  intro tree directory home nearer global
  have hresult : (Discovery.run tree directory
        (some (home.child settingsFileName))).result =
      .ok [nearer, global] := by
    decide +kernel
  have hglobal :
      ∃ file ∈ [nearer, global], file.path = home.child settingsFileName :=
    ⟨global, by simp, rfl⟩
  obtain ⟨earlier, file, further, hfiles, hpath, -, hlast, -⟩ :=
    global_last_iff hresult hglobal
  have hfurther : further = [] := by
    refine hlast.mpr ?_
    rintro ⟨-, -, above, hmem, hfile⟩
    obtain rfl : above = ⟨"/", []⟩ := List.mem_singleton.mp hmem
    exact absurd hfile (by decide +kernel)
  rw [hfurther] at hfiles
  exact ⟨hresult, hglobal, ⟨earlier, file, hfiles, hpath⟩, rfl⟩

/-- A file above the home directory comes after the global one, which settles
its setting. -/
theorem not_forall_global_last :
    (¬ ∀ (tree : FileTree) (directory home : Path) (files : List SettingsFile),
        (Discovery.run tree directory
            (some (home.child settingsFileName))).result =
          .ok files →
        (∃ file ∈ files, file.path = home.child settingsFileName) →
        files.getLast?.map SettingsFile.path =
          some (home.child settingsFileName)) ∧
      ¬ ∀ (tree : FileTree) (directory home : Path) (files : List SettingsFile),
        (Discovery.run tree directory
            (some (home.child settingsFileName))).result =
          .ok files →
        (∃ file ∈ files, file.path = home.child settingsFileName) →
        ∀ setting : Setting,
          (∃ other ∈ files, other.path ≠ home.child settingsFileName ∧
            setting.inFile other.settings ≠ none) →
          setting.ofConfig (Config.merge files) =
            setting.ofConfig
              (Config.merge
                (files.filter (·.path ≠ home.child settingsFileName))) := by
  let tree : FileTree := .ofEntries
    [(⟨"/", [".esq.toml"]⟩, .file "[page]\nsize = 1\n".toUTF8),
      (⟨"/", ["home", ".esq.toml"]⟩, .file "[page]\nsize = 2\n".toUTF8)]
  let home : Path := ⟨"/", ["home"]⟩
  let global : SettingsFile :=
    ⟨home.child settingsFileName, ⟨none, none, some ⟨none, some 2⟩⟩⟩
  let other : SettingsFile :=
    ⟨⟨"/", [".esq.toml"]⟩, ⟨none, none, some ⟨none, some 1⟩⟩⟩
  have hresult : (Discovery.run tree ⟨"/", ["home", "p"]⟩
      (some (home.child settingsFileName))).result = .ok [global, other] := by
    decide +kernel
  have hglobal :
      ∃ file ∈ [global, other], file.path = home.child settingsFileName :=
    ⟨global, by simp, rfl⟩
  constructor
  · intro h
    exact absurd (h _ _ _ _ hresult hglobal) (by decide)
  · intro h
    have hsize :=
      h _ _ _ _ hresult hglobal .size ⟨other, by simp, by decide, by decide⟩
    exact absurd hsize (by decide)

end TermSearch
