import TermSearch.Text.Lines

namespace TermSearch.Config.Template

/-! Settings files to start from. All their settings are commented out, so a new
file changes nothing. -/

def localLines : List String :=
  ["# esq configuration",
    "#",
    "# Settings in this file apply to queries translated in this directory and",
    "# below. Files closer to the working directory take precedence.",
    "",
    "# Stop searching parent directories and ~/.esq.toml for configuration.",
    "root = true",
    "",
    "[query]",
    "# Fields searched by query groups without a `field:` prefix.",
    "default_fields = [\"title\", \"body\"]",
    "",
    "[page]",
    "# Offset of the first hit.",
    "from = 0",
    "# Maximum number of hits per query.",
    "size = 50"]

def globalLines : List String :=
  ["# Global esq configuration (~/.esq.toml)", "#",
    "# These settings have the lowest precedence. Any .esq.toml found between the",
    "# working directory and the filesystem root overrides them per key.", "",
    "[query]", "# Fields searched by query groups without a `field:` prefix.",
    "default_fields = [\"title\", \"body\"]", "", "[page]",
    "# Maximum number of hits per query.", "size = 50"]

/-- Empty lines and comments stay as they are. -/
def commentedOut (line : String) : String :=
  match line.toList.head? with
  | none | some '#' => line
  | _ => "# " ++ line

def localText : String := Text.unlines (localLines.map commentedOut)

def globalText : String := Text.unlines (globalLines.map commentedOut)

end TermSearch.Config.Template
