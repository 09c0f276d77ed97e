import Mathlib.Data.List.Nodup
import TermSearch.Proofs.Config.Discovery
import TermSearch.Proofs.Files.Ancestors
import TermSearch.Proofs.Lists.Failure

namespace TermSearch

/-! Which files apply to a directory, said without a search: the settings files
in it and above it up to the first root, and after them the global file unless
there is a root. A search reads these one after another, and it asks for nothing
that lies behind the file that ends it. -/

namespace FileTree

variable {tree other : FileTree} {path : Path}

theorem isFile_congr (h : other.find? path = tree.find? path) :
    other.isFile path = tree.isFile path := by
  rw [isFile, isFile, h]

/-- How a file is read does not depend on what else there is. -/
theorem read_congr (h : other.find? path = tree.find? path)
    (hfile : tree.isFile path = true) : other.read path = tree.read path := by
  unfold isFile at hfile
  unfold read
  rw [h]
  split at hfile
  · rename_i content hcontent
    rw [hcontent]
  · rename_i hclosed
    rw [hclosed]
  · contradiction

end FileTree

namespace SettingsFile

variable {tree other : FileTree} {path : Path} {paths : List Path}
  {files : List SettingsFile} {error : ConfigError}

theorem load_congr (h : other.find? path = tree.find? path)
    (hfile : tree.isFile path = true) : load other path = load tree path := by
  rw [load, load, FileTree.read_congr h hfile]

theorem mapM_load_eq_ok_iff :
    paths.mapM (load tree) = .ok files ↔
      files.map SettingsFile.path = paths ∧
        ∀ file ∈ files, load tree file.path = .ok file := by
  induction paths generalizing files with
  | nil =>
      rw [List.mapM_nil, List.map_eq_nil_iff]
      constructor
      · rintro ⟨⟩
        exact ⟨rfl, List.forall_mem_nil _⟩
      · rintro ⟨rfl, -⟩
        rfl
  | cons path paths ih =>
      rw [List.mapM_cons]
      simp only [bind_eq_ok_iff]
      constructor
      · rintro ⟨file, hfile, rest, hrest, ⟨⟩⟩
        obtain ⟨hpaths, hloads⟩ := ih.mp hrest
        have hpath := path_of_load hfile
        refine ⟨by rw [List.map_cons, hpath, hpaths], ?_⟩
        exact List.forall_mem_cons.mpr ⟨by rw [hpath, hfile], hloads⟩
      · rintro ⟨hpaths, hloads⟩
        obtain ⟨file, rest, rfl, rfl, hrest⟩ := List.map_eq_cons_iff.mp hpaths
        obtain ⟨hfile, hloads⟩ := List.forall_mem_cons.mp hloads
        exact ⟨file, hfile, rest, ih.mpr ⟨hrest, hloads⟩, rfl⟩

theorem mapM_load_eq_error_iff :
    paths.mapM (load tree) = .error error ↔
      ∃ before path after, paths = before ++ path :: after ∧
        (∀ earlier ∈ before, ∃ file, load tree earlier = .ok file) ∧
        load tree path = .error error :=
  mapM_eq_error_iff

end SettingsFile

namespace Discovery

variable {tree other : FileTree} {directory path : Path}
  {directories : List Path}

/-- The paths as far as the first that ends them. -/
def upTo (ends : Path → Bool) : List Path → List Path
  | [] => []
  | path :: paths => path :: if ends path then [] else upTo ends paths

theorem upTo_sublist (ends : Path → Bool) (paths : List Path) :
    (upTo ends paths).Sublist paths := by
  induction paths with
  | nil => exact List.Sublist.refl _
  | cons path paths ih =>
      unfold upTo
      cases ends path with
      | true => exact (List.nil_sublist _).cons_cons path
      | false => exact ih.cons_cons path

def places (directories : List Path) : List Path :=
  directories.map fun directory => directory.child settingsFileName

theorem places_cons (directory : Path) (directories : List Path) :
    places (directory :: directories) =
      directory.child settingsFileName :: places directories := rfl

theorem nodup_places (directory : Path) : (places directory.ancestors).Nodup :=
  (Path.nodup_ancestors directory).map fun _ _ => Path.child_injective

/-- A file that can be read and says that it is a root. -/
def declaresRoot (tree : FileTree) (path : Path) : Bool :=
  match SettingsFile.load tree path with
  | .error _ => false
  | .ok file => file.settings.isRoot

/-- The settings files that there are in the directories, as far as the first
root. -/
def applicable (tree : FileTree) (directories : List Path) : List Path :=
  upTo (declaresRoot tree) ((places directories).filter tree.isFile)

/-- The global file behind certain others, unless it is one of them. -/
def globalBehind (tree : FileTree) (files : List Path) (global : Option Path) :
    List Path :=
  global.elim [] fun path =>
    if tree.isFile path ∧ path ∉ files then [path] else []

/-- All files that apply, in the order of their precedence. -/
def allApplicable (tree : FileTree) (directories : List Path)
    (global : Option Path) : List Path :=
  let files := applicable tree directories
  if files.any (declaresRoot tree) then files
  else files ++ globalBehind tree files global

def endsSearch (tree : FileTree) (path : Path) : Bool :=
  tree.isFile path &&
    match SettingsFile.load tree path with
    | .error _ => true
    | .ok file => file.settings.isRoot

/-- The paths at which a search looks whether there is a file, and what it
says. -/
def consulted (tree : FileTree) (directories : List Path)
    (global : Option Path) : List Path :=
  upTo (endsSearch tree) (places directories) ++
    if (places directories).any (endsSearch tree) then [] else global.toList

theorem declaresRoot_of_ok {file : SettingsFile}
    (h : SettingsFile.load tree path = .ok file) :
    declaresRoot tree path = file.settings.isRoot := by
  rw [declaresRoot, h]

theorem endsSearch_of_not_isFile (h : tree.isFile path = false) :
    endsSearch tree path = false := by
  rw [endsSearch, h, Bool.false_and]

theorem endsSearch_of_error {error : ConfigError}
    (h : tree.isFile path = true)
    (hload : SettingsFile.load tree path = .error error) :
    endsSearch tree path = true := by
  rw [endsSearch, h, hload, Bool.true_and]

theorem endsSearch_of_ok {file : SettingsFile} (h : tree.isFile path = true)
    (hload : SettingsFile.load tree path = .ok file) :
    endsSearch tree path = file.settings.isRoot := by
  rw [endsSearch, h, hload, Bool.true_and]

theorem applicable_cons (tree : FileTree) (directory : Path)
    (directories : List Path) :
    applicable tree (directory :: directories) =
      if tree.isFile (directory.child settingsFileName) then
        directory.child settingsFileName ::
          if declaresRoot tree (directory.child settingsFileName) then []
          else applicable tree directories
      else applicable tree directories := by
  rw [applicable, places_cons, List.filter_cons]
  split <;> rfl

theorem nodup_append_globalBehind {files : List Path} (h : files.Nodup)
    (global : Option Path) :
    (files ++ globalBehind tree files global).Nodup := by
  cases global with
  | none => rwa [globalBehind, Option.elim_none, List.append_nil]
  | some path =>
      rw [globalBehind, Option.elim_some]
      split
      · rename_i hadded
        exact h.append (List.nodup_singleton path)
          (List.disjoint_singleton.mpr hadded.2)
      · rwa [List.append_nil]

theorem nodup_allApplicable (tree : FileTree) (directory : Path)
    (global : Option Path) :
    (allApplicable tree directory.ancestors global).Nodup := by
  have hfiles : (applicable tree directory.ancestors).Nodup :=
    (nodup_places directory).sublist
      ((upTo_sublist _ _).trans List.filter_sublist)
  dsimp only [allApplicable]
  split
  · exact hfiles
  · exact nodup_append_globalBehind hfiles global

/-! What a step of the search does. -/

section

variable {file : SettingsFile} {error : ConfigError}

theorem upward_of_not_isFile
    (h : tree.isFile (directory.child settingsFileName) = false) :
    upward tree (directory :: directories) = upward tree directories := by
  simp only [upward, h, Bool.false_eq_true, if_false]

theorem upward_of_error
    (h : tree.isFile (directory.child settingsFileName) = true)
    (hload : SettingsFile.load tree (directory.child settingsFileName) =
      .error error) :
    upward tree (directory :: directories) = ⟨[], .broken error⟩ := by
  simp only [upward, h, hload, if_true]

theorem upward_of_root
    (h : tree.isFile (directory.child settingsFileName) = true)
    (hload : SettingsFile.load tree (directory.child settingsFileName) =
      .ok file)
    (hroot : file.settings.isRoot = true) :
    upward tree (directory :: directories) = ⟨[file], .atRoot⟩ := by
  simp only [upward, h, hload, hroot, if_true]

theorem upward_of_not_root
    (h : tree.isFile (directory.child settingsFileName) = true)
    (hload : SettingsFile.load tree (directory.child settingsFileName) =
      .ok file)
    (hroot : file.settings.isRoot = false) :
    upward tree (directory :: directories) =
      (upward tree directories).after file := by
  simp only [upward, h, hload, hroot, if_true, Bool.false_eq_true, if_false]

end

/-- A search goes on behind a directory without a settings file, and behind a
file that is not a root; at a root, and at a file that cannot be read, it
ends. -/
@[elab_as_elim]
theorem upward_induction (tree : FileTree) {motive : List Path → Prop}
    (nil : motive [])
    (skip : ∀ directory directories,
      tree.isFile (directory.child settingsFileName) = false →
      motive directories → motive (directory :: directories))
    (broken : ∀ directory directories error,
      tree.isFile (directory.child settingsFileName) = true →
      SettingsFile.load tree (directory.child settingsFileName) = .error error →
      motive (directory :: directories))
    (root : ∀ directory directories file,
      tree.isFile (directory.child settingsFileName) = true →
      SettingsFile.load tree (directory.child settingsFileName) = .ok file →
      file.settings.isRoot = true → motive (directory :: directories))
    (further : ∀ directory directories file,
      tree.isFile (directory.child settingsFileName) = true →
      SettingsFile.load tree (directory.child settingsFileName) = .ok file →
      file.settings.isRoot = false →
      motive directories → motive (directory :: directories))
    (directories : List Path) : motive directories := by
  induction directories with
  | nil => exact nil
  | cons directory directories ih =>
      cases hfile : tree.isFile (directory.child settingsFileName) with
      | false => exact skip directory directories hfile ih
      | true =>
          cases hload :
            SettingsFile.load tree (directory.child settingsFileName) with
          | error error => exact broken directory directories error hfile hload
          | ok file =>
              cases hroot : file.settings.isRoot with
              | true => exact root directory directories file hfile hload hroot
              | false =>
                  exact further directory directories file hfile hload hroot ih

theorem result_after (file : SettingsFile) (discovery : Discovery) :
    (discovery.after file).result = discovery.result.map (file :: ·) := by
  obtain ⟨files, ending⟩ := discovery
  cases ending <;> rfl

theorem upward_eq_mapM (tree : FileTree) (directories : List Path) :
    (upward tree directories).result =
        (applicable tree directories).mapM (SettingsFile.load tree) ∧
      ((∃ error, (upward tree directories).ending = .broken error) ∨
        (upward tree directories).ending =
          if (applicable tree directories).any (declaresRoot tree) then .atRoot
          else .complete) := by
  induction directories using upward_induction tree with
  | nil => exact ⟨rfl, .inr rfl⟩
  | skip directory directories hfile ih =>
      rw [upward_of_not_isFile hfile, applicable_cons, hfile]
      exact ih
  | broken directory directories error hfile hload =>
      rw [upward_of_error hfile hload, applicable_cons, if_pos hfile,
        List.mapM_cons, hload]
      exact ⟨rfl, .inl ⟨error, rfl⟩⟩
  | root directory directories file hfile hload hroot =>
      rw [upward_of_root hfile hload hroot, applicable_cons, if_pos hfile,
        List.any_cons, declaresRoot_of_ok hload, hroot, List.mapM_cons, hload]
      exact ⟨rfl, .inr rfl⟩
  | further directory directories file hfile hload hroot ih =>
      rw [upward_of_not_root hfile hload hroot, applicable_cons, if_pos hfile,
        List.any_cons, declaresRoot_of_ok hload, hroot, List.mapM_cons, hload,
        result_after, ih.1]
      refine ⟨?_, ih.2⟩
      rw [if_neg Bool.false_ne_true]
      cases (applicable tree directories).mapM (SettingsFile.load tree) <;> rfl

theorem result_withGlobal_complete (tree : FileTree) (global : Path)
    (files : List SettingsFile) :
    (withGlobal tree global ⟨files, .complete⟩).result =
      ((globalBehind tree (files.map SettingsFile.path) (some global)).mapM
        (SettingsFile.load tree)).map (files ++ ·) := by
  rw [globalBehind, Option.elim_some]
  by_cases hadded : tree.isFile global ∧ global ∉ files.map SettingsFile.path
  · rw [withGlobal, if_pos hadded, if_pos hadded, List.mapM_cons]
    cases SettingsFile.load tree global <;> rfl
  · rw [withGlobal, if_neg hadded, if_neg hadded]
    exact congrArg Except.ok (List.append_nil files).symm

/-- The files that apply are read one after another. -/
theorem result_run_eq_mapM (tree : FileTree) (directory : Path)
    (global : Option Path) :
    (run tree directory global).result =
      (allApplicable tree directory.ancestors global).mapM
        (SettingsFile.load tree) := by
  obtain ⟨hresult, hending⟩ := upward_eq_mapM tree directory.ancestors
  dsimp only [allApplicable]
  cases global with
  | none =>
      rw [globalBehind, Option.elim_none, List.append_nil, ite_self]
      exact hresult
  | some global =>
      rw [run_some]
      generalize upward tree directory.ancestors = found at hresult hending
      obtain ⟨files, ending⟩ := found
      rcases hending with ⟨error, rfl⟩ | hending
      · -- a failure on the way up comes before whatever the global file does
        change Except.error error = _ at hresult
        split
        · exact hresult
        · rw [List.mapM_append, ← hresult]
          rfl
      · obtain rfl : ending = _ := hending
        cases hroot :
          (applicable tree directory.ancestors).any (declaresRoot tree) with
        | true =>
            rw [hroot] at hresult
            exact hresult
        | false =>
            rw [hroot] at hresult
            change Except.ok files = _ at hresult
            obtain ⟨hpaths, -⟩ :=
              SettingsFile.mapM_load_eq_ok_iff.mp hresult.symm
            rw [if_neg Bool.false_ne_true, if_neg Bool.false_ne_true,
              List.mapM_append, ← hresult, ← hpaths, result_withGlobal_complete]
            cases (globalBehind tree _ (some global)).mapM
              (SettingsFile.load tree) <;> rfl

/-! What a search depends on. -/

theorem ending_upward_eq_complete_iff :
    (upward tree directories).ending = .complete ↔
      (places directories).any (endsSearch tree) = false := by
  induction directories using upward_induction tree with
  | nil => exact iff_of_true rfl rfl
  | skip directory directories hfile ih =>
      rw [upward_of_not_isFile hfile, places_cons, List.any_cons,
        endsSearch_of_not_isFile hfile]
      exact ih
  | broken directory directories error hfile hload =>
      rw [upward_of_error hfile hload, places_cons, List.any_cons,
        endsSearch_of_error hfile hload]
      exact ⟨nofun, nofun⟩
  | root directory directories file hfile hload hroot =>
      rw [upward_of_root hfile hload hroot, places_cons, List.any_cons,
        endsSearch_of_ok hfile hload, hroot]
      exact ⟨nofun, nofun⟩
  | further directory directories file hfile hload hroot ih =>
      rw [upward_of_not_root hfile hload hroot, places_cons, List.any_cons,
        endsSearch_of_ok hfile hload, hroot]
      exact ih

theorem upward_congr
    (h : ∀ path ∈ upTo (endsSearch tree) (places directories),
      other.find? path = tree.find? path) :
    upward other directories = upward tree directories := by
  induction directories using upward_induction tree with
  | nil => rfl
  | skip directory directories hfile ih =>
      obtain ⟨hpath, hrest⟩ := List.forall_mem_cons.mp h
      have hother := FileTree.isFile_congr hpath
      rw [endsSearch_of_not_isFile hfile] at hrest
      rw [upward_of_not_isFile hfile, upward_of_not_isFile (hother.trans hfile)]
      exact ih hrest
  | broken directory directories error hfile hload =>
      obtain ⟨hpath, -⟩ := List.forall_mem_cons.mp h
      have hother := FileTree.isFile_congr hpath
      have hotherload := SettingsFile.load_congr hpath hfile
      rw [upward_of_error hfile hload,
        upward_of_error (hother.trans hfile) (hotherload.trans hload)]
  | root directory directories file hfile hload hroot =>
      obtain ⟨hpath, -⟩ := List.forall_mem_cons.mp h
      have hother := FileTree.isFile_congr hpath
      have hotherload := SettingsFile.load_congr hpath hfile
      rw [upward_of_root hfile hload hroot,
        upward_of_root (hother.trans hfile) (hotherload.trans hload) hroot]
  | further directory directories file hfile hload hroot ih =>
      obtain ⟨hpath, hrest⟩ := List.forall_mem_cons.mp h
      have hother := FileTree.isFile_congr hpath
      have hotherload := SettingsFile.load_congr hpath hfile
      rw [endsSearch_of_ok hfile hload, hroot] at hrest
      rw [upward_of_not_root hfile hload hroot, upward_of_not_root
        (hother.trans hfile) (hotherload.trans hload) hroot, ih hrest]

theorem withGlobal_congr {discovery : Discovery} {global : Path}
    (h : discovery.ending = .complete →
      other.find? global = tree.find? global) :
    discovery.withGlobal other global = discovery.withGlobal tree global := by
  obtain ⟨files, ending⟩ := discovery
  cases ending with
  | atRoot => rfl
  | broken error => rfl
  | complete =>
      have hsame := h rfl
      dsimp only [withGlobal]
      rw [FileTree.isFile_congr hsame]
      split
      · rename_i hadded
        rw [SettingsFile.load_congr hsame hadded.1]
      · rfl

theorem run_congr {global : Option Path}
    (h : ∀ path ∈ consulted tree directory.ancestors global,
      other.find? path = tree.find? path) :
    run other directory global = run tree directory global := by
  obtain ⟨hupward, hglobal⟩ := List.forall_mem_append.mp h
  cases global with
  | none => exact upward_congr hupward
  | some global =>
      rw [run_some, run_some, upward_congr hupward]
      refine withGlobal_congr fun hcomplete => ?_
      rw [if_neg (by simp [ending_upward_eq_complete_iff.mp hcomplete])]
        at hglobal
      exact hglobal global (List.mem_singleton_self global)

/-- A search fails with the error of the first of the files that apply that has
one, and otherwise gives all of them in their order, none of them twice. Nothing
else counts, neither what lies above a root nor a global file that was not
consulted. -/
theorem run_reads_applicable (tree : FileTree) (directory : Path)
    (global : Option Path) :
    let files := allApplicable tree directory.ancestors global
    (∀ error, (run tree directory global).result = .error error ↔
        ∃ before path after, files = before ++ path :: after ∧
          (∀ earlier ∈ before,
            ∃ file, SettingsFile.load tree earlier = .ok file) ∧
          SettingsFile.load tree path = .error error) ∧
      (∀ found, (run tree directory global).result = .ok found ↔
        found.map SettingsFile.path = files ∧
          ∀ file ∈ found, SettingsFile.load tree file.path = .ok file) ∧
      files.Nodup ∧
      ∀ other : FileTree,
        (∀ path ∈ consulted tree directory.ancestors global,
          other.find? path = tree.find? path) →
        run other directory global = run tree directory global := by
  intro files
  rw [result_run_eq_mapM]
  exact ⟨fun _ => SettingsFile.mapM_load_eq_error_iff,
    fun _ => SettingsFile.mapM_load_eq_ok_iff,
    nodup_allApplicable tree directory global, fun _ => run_congr⟩

/-- Below a root, broken files above it and in the home directory can as well be
missing. -/
theorem run_reads_applicable_root_below_broken :
    let nearest : Path × Entry :=
      (⟨"/", ["a", "b", ".esq.toml"]⟩, .file "[page]\nsize = 1\n".toUTF8)
    let root : Path × Entry :=
      (⟨"/", ["a", ".esq.toml"]⟩, .file "root = true\n".toUTF8)
    let tree : FileTree :=
      .ofEntries [nearest, root, (⟨"/", [".esq.toml"]⟩, .file "size =".toUTF8),
        (⟨"/", ["home", ".esq.toml"]⟩, .file "[page".toUTF8)]
    let directory : Path := ⟨"/", ["a", "b", "c"]⟩
    let global : Option Path := some ⟨"/", ["home", ".esq.toml"]⟩
    (∀ path ∈ consulted tree directory.ancestors global,
        (FileTree.ofEntries [nearest, root]).find? path = tree.find? path) ∧
      run (.ofEntries [nearest, root]) directory global =
        run tree directory global ∧
      (run tree directory global).result =
        .ok [⟨nearest.1, none, none, some ⟨none, some 1⟩⟩,
          ⟨root.1, some true, none, none⟩] := by
  intro nearest root tree directory global
  obtain ⟨-, hfound, -, hdepends⟩ := run_reads_applicable tree directory global
  have hconsulted : consulted tree directory.ancestors global =
      [directory.child settingsFileName, nearest.1, root.1] := by
    decide +kernel
  have hsame : ∀ path ∈ consulted tree directory.ancestors global,
      (FileTree.ofEntries [nearest, root]).find? path = tree.find? path := by
    rw [hconsulted]
    simp only [List.forall_mem_cons]
    exact ⟨rfl, rfl, rfl, List.forall_mem_nil _⟩
  refine ⟨hsame, hdepends _ hsame, (hfound _).mpr ⟨?_, ?_⟩⟩
  · decide +kernel
  · decide +kernel

end Discovery

end TermSearch
