import TermSearch.Proofs.CommandLine.Request
import TermSearch.Proofs.Config.AddedFile
import TermSearch.Proofs.Config.Template

namespace TermSearch

/-! What starting a settings file does. There is one new file afterwards or
nothing has changed, and in neither case has a directory another configuration
than before. -/

/-- There is nothing yet, but a directory for it. -/
structure FileTree.IsVacant (tree : FileTree) (path : Path) : Prop where
  absent : tree.find? path = none
  parent : ∃ parent, path.parent? = some parent ∧
    tree.find? parent = some .directory

theorem FileTree.obstacle?_of_absent {tree : FileTree} {path : Path}
    (h : tree.find? path = none) :
    tree.obstacle? path = none ↔ tree.IsVacant path := by
  have hvacant : tree.IsVacant path ↔
      path.parent?.map tree.find? = some (some .directory) := by
    rw [Option.map_eq_some_iff]
    exact ⟨IsVacant.parent, fun hparent => ⟨h, hparent⟩⟩
  rw [obstacle?, hvacant, h]
  split
  · contradiction
  · contradiction
  · contradiction
  · rename_i hparent
    exact iff_of_true rfl hparent
  · rename_i hnone
    exact iff_of_false nofun hnone

namespace CommandLine

open Transcript

theorem Scope.read_template (scope : Scope) :
    Settings.read scope.template = .ok .empty := by
  cases scope with
  | directory => exact Config.Template.read_localText
  | user => exact Config.Template.read_globalText

namespace InitRequest

variable {request : InitRequest} {surroundings : Surroundings} {tree : FileTree}
  {path : Path} {text : String}

/-- Where the file belongs: to the user if he asks for that or is at home, and
else to the directory. -/
def place? (request : InitRequest) (surroundings : Surroundings) :
    Option Path :=
  if request.global ∨ surroundings.home = some surroundings.directory then
    surroundings.global
  else some (surroundings.directory.child settingsFileName)

theorem target_eq_ok_iff :
    request.target surroundings = .ok path ↔
      request.place? surroundings = some path := by
  unfold target scope place?
  by_cases huser : request.global ∨
    surroundings.home = some surroundings.directory
  · rw [if_pos huser, if_pos huser]
    cases surroundings.global <;> simp
  · rw [if_neg huser, if_neg huser]
    simp

theorem write_cases (request : InitRequest) (tree : FileTree) (path : Path)
    (text : String) :
    request.write tree path text = ⟨[], "", [(path, text)], .ok ()⟩ ∨
      ∃ failure, request.write tree path text = .ofResult (.error failure) := by
  unfold write
  split
  · exact .inr ⟨_, rfl⟩
  · unfold Transcript.write
    split
    · exact .inr ⟨_, rfl⟩
    · exact .inl rfl

theorem written_write_of_ok
    (h : (request.write tree path text).result = .ok ()) :
    (request.write tree path text).written = [(path, text)] := by
  obtain hwritten | ⟨failure, hfailed⟩ := request.write_cases tree path text
  · rw [hwritten]
  · rw [hfailed] at h
    contradiction

theorem isSilentOnFailure_write (request : InitRequest) (tree : FileTree)
    (path : Path) (text : String) :
    (request.write tree path text).IsSilentOnFailure := by
  intro failure h
  obtain hwritten | ⟨other, hfailed⟩ := request.write_cases tree path text
  · rw [hwritten] at h
    contradiction
  · rw [hfailed]
    exact isSilent_ofResult _

theorem write_eq_ok_iff (hforce : request.force = false) :
    (request.write tree path text).result = .ok () ↔ tree.IsVacant path := by
  unfold write
  by_cases hpresent : tree.isPresent path
  · rw [if_pos ⟨hpresent, by simp [hforce]⟩]
    refine iff_of_false nofun fun hvacant => ?_
    rw [FileTree.isPresent, hvacant.absent] at hpresent
    contradiction
  · have habsent : tree.find? path = none := by
      simpa [FileTree.isPresent] using hpresent
    rw [if_neg fun h => hpresent h.1, ← FileTree.obstacle?_of_absent habsent]
    unfold Transcript.write
    split
    · rename_i hobstacle
      rw [hobstacle]
      exact iff_of_false nofun nofun
    · rename_i hfree
      exact iff_of_true rfl hfree

/-- Behind the step that writes nothing can fail any more. -/
theorem isSilentOnFailure_run (request : InitRequest)
    (surroundings : Surroundings) :
    (request.run surroundings).IsSilentOnFailure :=
  (isSilent_ofResult _).bind_silentOnFailure fun path =>
    (request.isSilentOnFailure_write _ path _).bind_of_ok fun _ => ⟨(), rfl⟩

theorem run_eq_ok_iff (hforce : request.force = false) :
    (request.run surroundings).result = .ok () ↔
      ∃ path, request.place? surroundings = some path ∧
        surroundings.tree.IsVacant path := by
  simp only [run, result_bind_eq_ok, result_ofResult, target_eq_ok_iff,
    result_record, result_print]
  simp [write_eq_ok_iff hforce]

theorem written_run_of_ok (hplace : request.place? surroundings = some path)
    (h : (request.run surroundings).result = .ok ()) :
    (request.run surroundings).written =
      [(path, (request.scope surroundings).template)] := by
  have htarget := target_eq_ok_iff.mpr hplace
  obtain ⟨_, hother, hrest⟩ := result_bind_eq_ok.mp h
  cases htarget.symm.trans hother
  obtain ⟨_, hwrite, -⟩ := result_bind_eq_ok.mp hrest
  rw [run, written_bind_of_ok htarget, written_bind_of_ok hwrite,
    written_write_of_ok hwrite]
  rfl

end InitRequest

theorem Scope.addsBlank_template (scope : Scope) {tree : FileTree} {path : Path}
    (h : tree.IsVacant path) :
    FileTree.AddsBlank path tree (tree.put path scope.template.toUTF8) := by
  have habsent : tree.isFile path = false := by
    rw [FileTree.isFile, h.absent]
  exact FileTree.addsBlank_put habsent scope.read_template

theorem execute_init {arguments : List String} {verbosity : Nat}
    {request : InitRequest}
    (h : Invocation.ofArguments? arguments = some ⟨verbosity, .init request⟩)
    (surroundings : Surroundings) :
    execute arguments surroundings =
      (request.run surroundings).outcome verbosity surroundings.tree := by
  rw [execute, h]
  rfl

/-- Without being told to write over files, the command either fails and leaves
the tree as it is, or makes one file where there was none, and succeeds if there
is a directory for it. The new file settles nothing: configurations differ from
those before by at most a source. -/
theorem init_creates_inert_file {arguments : List String} {verbosity : Nat}
    {request : InitRequest}
    (h : Invocation.ofArguments? arguments = some ⟨verbosity, .init request⟩)
    (hforce : request.force = false) (surroundings : Surroundings) :
    let before := surroundings.tree
    let outcome := execute arguments surroundings
    (outcome.status.code = 1 ∧ outcome.tree = before ∨
        outcome.status.code = 0 ∧
          ∃ path, request.place? surroundings = some path ∧
            before.find? path = none ∧
            outcome.tree.find? path =
              some (.file (request.scope surroundings).template.toUTF8) ∧
            (∀ other, other ≠ path →
              outcome.tree.find? other = before.find? other) ∧
            ∀ directory global, Config.load before directory global =
              (Config.load outcome.tree directory global).map
                (Config.withoutSource path)) ∧
      (∀ path, request.place? surroundings = some path →
        before.isPresent path = true → outcome.status.code = 1) ∧
      (outcome.status.code = 0 ↔
        ∃ path, request.place? surroundings = some path ∧
          before.IsVacant path) := by
  intro before outcome
  have houtcome :
      outcome = (request.run surroundings).outcome verbosity before :=
    execute_init h surroundings
  cases hrun : (request.run surroundings).result with
  | error failure =>
      have hnever : ¬ ∃ path, request.place? surroundings = some path ∧
          before.IsVacant path := by
        rw [← InitRequest.run_eq_ok_iff hforce, hrun]
        nofun
      have hnothing :=
        (request.isSilentOnFailure_run surroundings failure hrun).written_eq
      rw [houtcome, outcome_of_error hrun, hnothing]
      exact ⟨.inl ⟨rfl, rfl⟩, fun _ _ _ => rfl,
        iff_of_false Nat.one_ne_zero hnever⟩
  | ok =>
      obtain ⟨path, hplace, hvacant⟩ :=
        (InitRequest.run_eq_ok_iff hforce).mp hrun
      have hadds := (request.scope surroundings).addsBlank_template hvacant
      rw [houtcome, outcome_of_ok hrun,
        InitRequest.written_run_of_ok hplace hrun]
      refine ⟨.inr ⟨rfl, path, hplace, hvacant.absent,
        before.find?_put_self path _, hadds.same, hadds.load_eq⟩, ?_,
        iff_of_true rfl ⟨path, hplace, hvacant⟩⟩
      intro other hother hpresent
      obtain rfl : path = other := Option.some.inj (hplace.symm.trans hother)
      rw [FileTree.isPresent, hvacant.absent] at hpresent
      contradiction

theorem init_creates_inert_file_in_project :
    let request : InitRequest := ⟨false, false⟩
    let project : Path := ⟨"/", ["home", "p"]⟩
    let surroundings : Surroundings :=
      ⟨.ofEntries [(project.child "app", .directory),
          (project.child settingsFileName, .file "[page]\nsize = 7\n".toUTF8)],
        project.child "app", some ⟨"/", ["home"]⟩, .empty⟩
    let outcome := execute ["init"] surroundings
    Invocation.ofArguments? ["init"] = some ⟨0, .init request⟩ ∧
      request.force = false ∧
      outcome.status.code = 0 ∧
      ∃ config,
        Config.load outcome.tree (project.child "app") surroundings.global =
            .ok config ∧
          config.page = ⟨0, 7⟩ ∧
          config.sources.erase ((project.child "app").child settingsFileName) =
            [project.child settingsFileName] := by
  intro request project surroundings outcome
  have hinvocation :
      Invocation.ofArguments? ["init"] = some ⟨0, .init request⟩ := by
    decide +kernel
  have hplace : request.place? surroundings =
      some ((project.child "app").child settingsFileName) := by
    decide +kernel
  have hload :
      Config.load surroundings.tree (project.child "app") surroundings.global =
        .ok ⟨["title", "body"], ⟨0, 7⟩, [project.child settingsFileName]⟩ := by
    decide +kernel
  obtain ⟨houtcome, -, hsucceeds⟩ :=
    init_creates_inert_file hinvocation rfl surroundings
  have hcode : outcome.status.code = 0 :=
    hsucceeds.mpr ⟨_, hplace, rfl, project.child "app", rfl, rfl⟩
  obtain ⟨hfailed, -⟩ | ⟨-, path, hpath, -, -, -, hsame⟩ := houtcome
  · rw [hcode] at hfailed
    contradiction
  · rw [hplace] at hpath
    cases hpath
    rw [hsame] at hload
    cases hafter :
      Config.load outcome.tree (project.child "app") surroundings.global with
    | error error =>
        rw [hafter] at hload
        contradiction
    | ok config =>
        rw [hafter] at hload
        have hconfig := Except.ok.inj hload
        exact ⟨hinvocation, rfl, hcode, config, rfl,
          congrArg Config.page hconfig, congrArg Config.sources hconfig⟩

end CommandLine

end TermSearch
