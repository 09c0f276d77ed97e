import TermSearch.Terminal.ControlSequence
import TermSearch.Text.Lines

namespace TermSearch.Terminal

/-! The log of a run. Each entry has a level, and how much is shown depends on
how often the user asked for more. -/

inductive Level where
  | warn
  | info
  | debug
  | trace
  deriving DecidableEq, Repr

namespace Level

def label : Level → String
  | .warn => "[WARN ] "
  | .info => "[INFO ] "
  | .debug => "[DEBUG] "
  | .trace => "[TRACE] "

def verbosity : Level → Nat
  | .warn => 0
  | .info => 1
  | .debug => 2
  | .trace => 3

end Level

structure LogEntry where
  level : Level
  text : String
  deriving DecidableEq, Repr

namespace LogEntry

/-- The entry as it is shown, its further lines indented. A control sequence
that is left open can take the end of the entry with it. -/
def shown (entry : LogEntry) : String :=
  withoutControls (entry.level.label ++ Text.hangingIndent entry.text ++ "\n")

def showAll (verbosity : Nat) (entries : List LogEntry) : String :=
  String.join
    ((entries.filter fun entry => entry.level.verbosity ≤ verbosity).map shown)

end LogEntry

end TermSearch.Terminal
