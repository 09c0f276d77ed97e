import TermSearch.Config.Settings
import TermSearch.Files.Path
import TermSearch.Query.Translate
import TermSearch.Text.Class

namespace TermSearch

/-! The configuration that settings files add up to. The files come in the order
of their precedence, and a file counts before all those after it, for each
setting alone. -/

structure SettingsFile where
  path : Path
  settings : Settings
  deriving DecidableEq, Repr

structure Config where
  defaultFields : List String
  page : Page
  /-- The files that were merged, highest precedence first. -/
  sources : List Path
  deriving DecidableEq, Repr

/-- What a configuration allows but hardly anybody wants. -/
inductive Warning where
  | noDefaultFields
  | invalidFieldName (field : String)
  | duplicateField (field : String)
  | zeroPageSize
  deriving DecidableEq, Repr

namespace Settings

def fieldsOver (settings : Settings) (fields : List String) : List String :=
  match settings.query with
  | none => fields
  | some query => query.defaultFields.getD fields

/-- The page where another was given already. A file may change one part of it
only. -/
def pageOver (settings : Settings) (page : Page) : Page :=
  match settings.page with
  | none => page
  | some given => ⟨given.offset.getD page.offset, given.size.getD page.size⟩

end Settings

namespace Config

/-- The file of the lowest precedence changes the built-in settings, and every
file before it changes what those after it have made. -/
def merge (files : List SettingsFile) : Config where
  defaultFields :=
    files.foldr (fun file => file.settings.fieldsOver) Translator.standardFields
  page := files.foldr (fun file => file.settings.pageOver) Page.standard
  sources := files.map SettingsFile.path

def standard : Config := merge []

/-- What a default field has to be: letters, digits, `_` and `.`, at least one
of them. -/
def isFieldName (name : String) : Bool :=
  !name.isEmpty && name.toList.all fun c => c.isAlphanum || c == '_' || c == '.'

/-- Default fields are judged by the rule of the query language for names. -/
theorem isFieldName_eq_isIdentifier (name : String) :
    isFieldName name = isIdentifier name := by
  unfold isFieldName isIdentifier isIdentifierChar
  rfl

/-- The warnings on fields that come after others. A repeated field is reported
where it is repeated first. -/
def fieldWarnings (before : List String) : List String → List Warning
  | [] => []
  | field :: fields =>
      (if isFieldName field then [] else [.invalidFieldName field]) ++
        (if before.count field = 1 then [.duplicateField field] else []) ++
        fieldWarnings (before ++ [field]) fields

def warnings (config : Config) : List Warning :=
  (if config.defaultFields.isEmpty then [.noDefaultFields] else []) ++
    fieldWarnings [] config.defaultFields ++
    (if config.page.size = 0 then [.zeroPageSize] else [])

def translator (config : Config) : Translator :=
  ⟨config.defaultFields, config.page⟩

end Config

end TermSearch
