namespace TermSearch.Terminal

/-! Graphic renditions of a terminal. A styled text is put between the escape
sequences that switch its renditions on and the one that switches all of them
off. -/

inductive Rendition where
  | bold
  | dim
  | red
  | green
  | yellow
  | cyan
  deriving DecidableEq, Repr

def Rendition.code : Rendition → Nat
  | .bold => 1
  | .dim => 2
  | .red => 31
  | .green => 32
  | .yellow => 33
  | .cyan => 36

/-- The escape sequence that selects a rendition by its number; zero is none. -/
def select (code : Nat) : String := "\x1b[" ++ toString code ++ "m"

inductive Style where
  | header
  | subheader
  | dim
  | success
  | warning
  | error
  deriving DecidableEq, Repr

namespace Style

def renditions : Style → List Rendition
  | .header => [.bold, .cyan]
  | .subheader => [.bold]
  | .dim => [.dim]
  | .success => [.green]
  | .warning => [.yellow]
  | .error => [.red]

def apply (style : Style) (text : String) : String :=
  String.join (style.renditions.map fun rendition => select rendition.code) ++
    text ++ select 0

end Style

end TermSearch.Terminal
