import TermSearch.Config.Basic
import TermSearch.Files.Tree

namespace TermSearch

/-! Finding the settings files that apply to a directory: those in the directory
and above it, nearest first, up to the first that declares itself the root.
Without such a root the user's global file applies after all of them. -/

def settingsFileName : String := ".esq.toml"

inductive ConfigError where
  | unreadable (path : Path) (failure : FileFailure)
  | unusable (path : Path) (error : SettingsError)
  deriving DecidableEq, Repr

def SettingsFile.load (tree : FileTree) (path : Path) :
    Except ConfigError SettingsFile :=
  match tree.read path with
  | .error failure => .error (.unreadable path failure)
  | .ok text =>
      match Settings.read text with
      | .error error => .error (.unusable path error)
      | .ok settings => .ok ⟨path, settings⟩

inductive Discovery.Ending where
  | atRoot
  | complete
  | broken (error : ConfigError)
  deriving DecidableEq, Repr

/-- The settings files that were read, nearest first, and how the search
ended. -/
structure Discovery where
  files : List SettingsFile
  ending : Discovery.Ending
  deriving DecidableEq, Repr

namespace Discovery

def after (file : SettingsFile) (discovery : Discovery) : Discovery :=
  ⟨file :: discovery.files, discovery.ending⟩

def upward (tree : FileTree) : List Path → Discovery
  | [] => ⟨[], .complete⟩
  | directory :: directories =>
      let path := directory.child settingsFileName
      if tree.isFile path then
        match SettingsFile.load tree path with
        | .error error => ⟨[], .broken error⟩
        | .ok file =>
            if file.settings.isRoot then ⟨[file], .atRoot⟩
            else (upward tree directories).after file
      else
        upward tree directories

/-- The global file comes last, unless it was met on the way up. -/
def withGlobal (tree : FileTree) (global : Path) (discovery : Discovery) :
    Discovery :=
  match discovery.ending with
  | .complete =>
      if tree.isFile global ∧
          global ∉ discovery.files.map SettingsFile.path then
        match SettingsFile.load tree global with
        | .error error => ⟨discovery.files, .broken error⟩
        | .ok file => ⟨discovery.files ++ [file], .complete⟩
      else
        discovery
  | _ => discovery

def run (tree : FileTree) (directory : Path) (global : Option Path) :
    Discovery :=
  let discovery := upward tree directory.ancestors
  global.elim discovery fun path => discovery.withGlobal tree path

def result (discovery : Discovery) : Except ConfigError (List SettingsFile) :=
  match discovery.ending with
  | .broken error => .error error
  | _ => .ok discovery.files

end Discovery

namespace Config

def load (tree : FileTree) (directory : Path) (global : Option Path) :
    Except ConfigError Config :=
  (Discovery.run tree directory global).result.map merge

def loadFiles (tree : FileTree) (paths : List Path) :
    Except ConfigError Config :=
  (paths.mapM (SettingsFile.load tree)).map merge

end Config

end TermSearch
