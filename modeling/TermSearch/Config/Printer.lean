import TermSearch.Config.Discovery
import TermSearch.Toml.Quote

namespace TermSearch

/-! Configurations, the warnings on them and the errors in their files as
text. -/

def Warning.text : Warning → String
  | .noDefaultFields =>
      "no default fields configured; queries without a 'field:' prefix will fail"
  | .invalidFieldName field =>
      "default field '" ++ field ++
        "' is not a valid identifier (letters, digits, '_' and '.')"
  | .duplicateField field =>
      "default field '" ++ field ++ "' is listed more than once"
  | .zeroPageSize => "page size is 0; queries will return no hits"

def SettingsError.display : SettingsError → String
  | .malformed => "TOML parse error at one of its statements"
  | .mismatch fault =>
      "TOML parse error at one of its values\n" ++ fault.message

def ConfigError.display : ConfigError → String
  | .unreadable path failure =>
      "failed to read config file " ++ path.text ++ ": " ++ failure.message
  | .unusable path error =>
      "failed to parse config file " ++ path.text ++ ": " ++ error.display

namespace Config

def settingsText (config : Config) : String :=
  "[query]\ndefault_fields = " ++ Toml.quotedArray config.defaultFields ++
    "\n\n[page]\nfrom = " ++ toString config.page.offset.toNat ++
    "\nsize = " ++ toString config.page.size.toNat ++ "\n"

def sourceLine (global : Option Path) (path : Path) : String :=
  "#   " ++ path.text ++ if global = some path then " (global)" else ""

def sourceLines (global : Option Path) : List Path → List String
  | [] => ["# no configuration files found, using defaults"]
  | paths =>
      "# merged from (highest precedence first):" ::
        paths.map (sourceLine global)

def warningLines : List Warning → List String
  | [] => []
  | warnings =>
      ["", "Warnings (" ++ toString warnings.length ++ "):"] ++
        warnings.map fun warning => "  - " ++ warning.text

def overview (config : Config) (global : Option Path) : String :=
  Text.unlines (sourceLines global config.sources ++ [""]) ++
    config.settingsText ++ Text.unlines (warningLines config.warnings)

end Config

end TermSearch
