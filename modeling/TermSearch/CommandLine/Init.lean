import TermSearch.CommandLine.Surroundings
import TermSearch.Config.Template

namespace TermSearch.CommandLine

/-! Starting files of settings, for the working directory or for the user. In
the home directory the two are the same file, and it gets the text for the
user. -/

inductive Scope where
  | directory
  | user
  deriving DecidableEq, Repr

namespace Scope

def label : Scope → String
  | .directory => "local"
  | .user => "global"

def template : Scope → String
  | .directory => Config.Template.localText
  | .user => Config.Template.globalText

end Scope

namespace InitRequest

def scope (request : InitRequest) (surroundings : Surroundings) : Scope :=
  if request.global ∨ surroundings.home = some surroundings.directory then .user
  else .directory

def target (request : InitRequest) (surroundings : Surroundings) :
    Except Failure Path :=
  match request.scope surroundings with
  | .directory => .ok (surroundings.directory.child settingsFileName)
  | .user =>
      match surroundings.global with
      | none => .error .noHome
      | some path => .ok path

/-- What is there already is kept, unless the user asked to write over it. -/
def write (request : InitRequest) (tree : FileTree) (path : Path)
    (text : String) : Transcript Unit :=
  if tree.isPresent path ∧ ¬ request.force then
    .ofResult (.error (.alreadyThere path))
  else
    .write tree path text

def run (request : InitRequest) (surroundings : Surroundings) :
    Transcript Unit := do
  let scope := request.scope surroundings
  let path ← .ofResult (request.target surroundings)
  request.write surroundings.tree path scope.template
  .record .info ("wrote " ++ scope.label ++ " template")
  .print ("Created " ++ path.text ++ "\n\nConfiguration written:\n" ++
    Text.indentBlock scope.template ++ "\n")

end InitRequest

end TermSearch.CommandLine
