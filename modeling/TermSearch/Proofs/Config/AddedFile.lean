import TermSearch.Proofs.Config.Applicable

namespace TermSearch

/-! A new file that makes no settings. Wherever it is, the files that apply to a
directory are those that applied before, in the same order, with the new one
among them or not. -/

/-- The other tree has a file at the path that makes no settings, and else the
same entries. -/
structure FileTree.AddsBlank (path : Path) (tree other : FileTree) : Prop where
  absent : tree.isFile path = false
  blank : SettingsFile.load other path = .ok ⟨path, .empty⟩
  same : ∀ place, place ≠ path → other.find? place = tree.find? place

theorem fromUTF8?_toUTF8 (text : String) :
    String.fromUTF8? text.toUTF8 = some text :=
  dif_pos text.isValidUTF8

theorem FileTree.addsBlank_put {tree : FileTree} {path : Path} {text : String}
    (habsent : tree.isFile path = false)
    (hread : Settings.read text = .ok .empty) :
    AddsBlank path tree (tree.put path text.toUTF8) where
  absent := habsent
  blank := by
    have htext : (tree.put path text.toUTF8).read path = .ok text := by
      rw [read, find?_put_self]
      dsimp only
      rw [fromUTF8?_toUTF8]
    rw [SettingsFile.load, htext]
    dsimp only
    rw [hread]
  same := fun _ hne => tree.find?_put_of_ne _ hne

/-- What is left of a configuration if one of its sources made no settings. -/
def Config.withoutSource (path : Path) (config : Config) : Config :=
  { config with sources := config.sources.erase path }

namespace Config

variable {path : Path} {files : List SettingsFile}

theorem merge_cons (file : SettingsFile) (files : List SettingsFile) :
    merge (file :: files) =
      ⟨file.settings.fieldsOver (merge files).defaultFields,
        file.settings.pageOver (merge files).page,
        file.path :: (merge files).sources⟩ := rfl

theorem merge_filter
    (h : ∀ file ∈ files, file.path = path → file.settings = .empty) :
    merge (files.filter fun file => file.path ≠ path) =
      { merge files with
        sources := (merge files).sources.filter (· ≠ path) } := by
  induction files with
  | nil => rfl
  | cons file files ih =>
      obtain ⟨hfile, hfiles⟩ := List.forall_mem_cons.mp h
      rw [merge_cons]
      by_cases hpath : file.path = path
      · rw [List.filter_cons_of_neg (by simpa using hpath), ih hfiles,
          hfile hpath, List.filter_cons_of_neg (by simpa using hpath)]
        rfl
      · rw [List.filter_cons_of_pos (by simpa using hpath), merge_cons,
          ih hfiles, List.filter_cons_of_pos (by simpa using hpath)]

theorem withoutSource_merge (hnodup : (files.map SettingsFile.path).Nodup)
    (h : ∀ file ∈ files, file.path = path → file.settings = .empty) :
    (merge files).withoutSource path =
      merge (files.filter fun file => file.path ≠ path) := by
  have hsources : (merge files).sources.erase path =
      (merge files).sources.filter (· ≠ path) :=
    (hnodup.erase_eq_filter path).trans
      (List.filter_congr fun _ _ => Bool.eq_iff_iff.mpr (by simp))
  rw [merge_filter h, withoutSource, hsources]

end Config

namespace Discovery

variable {tree : FileTree} {path place : Path} {directories paths : List Path}

theorem filter_upTo {ends others : Path → Bool} (hpath : others path = false)
    (h : ∀ place ∈ paths, place ≠ path → others place = ends place) :
    (upTo others paths).filter (· ≠ path) =
      upTo ends (paths.filter (· ≠ path)) := by
  induction paths with
  | nil => rfl
  | cons first paths ih =>
      obtain ⟨hfirst, hpaths⟩ := List.forall_mem_cons.mp h
      rw [upTo]
      by_cases hne : first = path
      · -- it ends nothing, so what comes after it still counts
        subst hne
        rw [hpath, if_neg Bool.false_ne_true, List.filter_cons_of_neg (by simp),
          List.filter_cons_of_neg (by simp), ih hpaths]
      · rw [List.filter_cons_of_pos (by simpa using hne),
          List.filter_cons_of_pos (by simpa using hne), upTo, hfirst hne]
        cases ends first with
        | true => rfl
        | false =>
            rw [if_neg Bool.false_ne_true, if_neg Bool.false_ne_true, ih hpaths]

theorem isFile_of_mem_applicable (h : place ∈ applicable tree directories) :
    tree.isFile place = true :=
  (List.mem_filter.mp ((upTo_sublist _ _).subset h)).2

theorem isFile_of_mem_allApplicable {global : Option Path}
    (h : place ∈ allApplicable tree directories global) :
    tree.isFile place = true := by
  dsimp only [allApplicable] at h
  split at h
  · exact isFile_of_mem_applicable h
  · obtain h | h := List.mem_append.mp h
    · exact isFile_of_mem_applicable h
    · cases global with
      | none => contradiction
      | some global =>
          rw [globalBehind, Option.elim_some] at h
          split at h
          · rename_i hadded
            rw [List.mem_singleton.mp h]
            exact hadded.1
          · contradiction

end Discovery

namespace FileTree.AddsBlank

open Discovery

variable {tree other : FileTree} {path place : Path} {paths : List Path}

theorem isFile_eq (h : AddsBlank path tree other) (hne : place ≠ path) :
    other.isFile place = tree.isFile place :=
  isFile_congr (h.same place hne)

theorem filter_isFile (h : AddsBlank path tree other) (paths : List Path) :
    (paths.filter other.isFile).filter (· ≠ path) =
      paths.filter tree.isFile := by
  rw [List.filter_filter]
  refine List.filter_congr fun place _ => ?_
  by_cases hne : place = path
  · rw [hne, h.absent]
    simp
  · rw [h.isFile_eq hne]
    simp [hne]

theorem declaresRoot_path (h : AddsBlank path tree other) :
    declaresRoot other path = false := by
  rw [declaresRoot_of_ok h.blank]
  rfl

theorem loadFile_eq (h : AddsBlank path tree other) (hne : place ≠ path)
    (hfile : other.isFile place = true) :
    SettingsFile.load other place = SettingsFile.load tree place :=
  SettingsFile.load_congr (h.same place hne)
    ((h.isFile_eq hne).symm.trans hfile)

theorem declaresRoot_eq (h : AddsBlank path tree other) (hne : place ≠ path)
    (hfile : other.isFile place = true) :
    declaresRoot other place = declaresRoot tree place := by
  rw [declaresRoot, declaresRoot, h.loadFile_eq hne hfile]

theorem filter_applicable (h : AddsBlank path tree other)
    (directories : List Path) :
    (applicable other directories).filter (· ≠ path) =
      applicable tree directories := by
  rw [applicable, filter_upTo h.declaresRoot_path, h.filter_isFile]
  · rfl
  · exact fun place hmem hne =>
      h.declaresRoot_eq hne (List.mem_filter.mp hmem).2

theorem any_applicable (h : AddsBlank path tree other)
    (directories : List Path) :
    (applicable other directories).any (declaresRoot other) =
      (applicable tree directories).any (declaresRoot tree) := by
  rw [Bool.eq_iff_iff, List.any_eq_true, List.any_eq_true]
  simp only [← h.filter_applicable, List.mem_filter, decide_eq_true_eq]
  constructor
  · rintro ⟨place, hmem, hroot⟩
    have hne : place ≠ path := by
      rintro rfl
      rw [h.declaresRoot_path] at hroot
      contradiction
    rw [h.declaresRoot_eq hne (isFile_of_mem_applicable hmem)] at hroot
    exact ⟨place, ⟨hmem, hne⟩, hroot⟩
  · rintro ⟨place, ⟨hmem, hne⟩, hroot⟩
    rw [← h.declaresRoot_eq hne (isFile_of_mem_applicable hmem)] at hroot
    exact ⟨place, hmem, hroot⟩

theorem filter_globalBehind (h : AddsBlank path tree other) (files : List Path)
    (global : Option Path) :
    (globalBehind other files global).filter (· ≠ path) =
      globalBehind tree (files.filter (· ≠ path)) global := by
  cases global with
  | none => rfl
  | some global =>
      rw [globalBehind, globalBehind, Option.elim_some, Option.elim_some]
      by_cases hne : global = path
      · subst hne
        rw [h.absent]
        split <;> simp
      · have hmem :
            global ∈ files.filter (· ≠ path) ↔ global ∈ files := by simp [hne]
        simp only [h.isFile_eq hne, hmem]
        split <;> simp [hne]

theorem filter_allApplicable (h : AddsBlank path tree other)
    (directories : List Path) (global : Option Path) :
    (allApplicable other directories global).filter (· ≠ path) =
      allApplicable tree directories global := by
  dsimp only [allApplicable]
  rw [h.any_applicable, ← h.filter_applicable]
  split
  · rfl
  · rw [List.filter_append, h.filter_globalBehind]

theorem mapM_load_filter (h : AddsBlank path tree other)
    (hfiles : ∀ place ∈ paths, other.isFile place = true) :
    (paths.filter (· ≠ path)).mapM (SettingsFile.load tree) =
      (paths.mapM (SettingsFile.load other)).map fun files =>
        files.filter fun file => file.path ≠ path := by
  induction paths with
  | nil => rfl
  | cons first paths ih =>
      obtain ⟨hfirst, hpaths⟩ := List.forall_mem_cons.mp hfiles
      rw [List.mapM_cons]
      by_cases hne : first = path
      · -- the new file cannot fail, and is left out again
        subst hne
        rw [List.filter_cons_of_neg (by simp), h.blank, ih hpaths]
        cases paths.mapM (SettingsFile.load other) with
        | error error => rfl
        | ok files =>
            exact congrArg Except.ok (List.filter_cons_of_neg (by simp)).symm
      · rw [List.filter_cons_of_pos (by simpa using hne), List.mapM_cons,
          ih hpaths, h.loadFile_eq hne hfirst]
        cases hload : SettingsFile.load tree first with
        | error error => rfl
        | ok file =>
            cases paths.mapM (SettingsFile.load other) with
            | error error => rfl
            | ok files =>
                refine congrArg Except.ok (List.filter_cons_of_pos ?_).symm
                simpa [SettingsFile.path_of_load hload] using hne

/-- Each directory has the configuration that it had before, and one that could
not be loaded fails as before. -/
theorem load_eq (h : AddsBlank path tree other) (directory : Path)
    (global : Option Path) :
    Config.load tree directory global =
      (Config.load other directory global).map (Config.withoutSource path) := by
  rw [Config.load, Config.load, result_run_eq_mapM,
    result_run_eq_mapM, ← h.filter_allApplicable,
    h.mapM_load_filter fun _ => isFile_of_mem_allApplicable]
  cases hload : (allApplicable other directory.ancestors global).mapM
    (SettingsFile.load other) with
  | error error => rfl
  | ok files =>
      obtain ⟨hpaths, hloads⟩ := SettingsFile.mapM_load_eq_ok_iff.mp hload
      refine congrArg Except.ok (Config.withoutSource_merge ?_ ?_).symm
      · rw [hpaths]
        exact nodup_allApplicable other directory global
      · intro file hmem hpath
        have hfile := hloads file hmem
        rw [hpath, h.blank] at hfile
        rw [← Except.ok.inj hfile]

end FileTree.AddsBlank

end TermSearch
