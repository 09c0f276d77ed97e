namespace TermSearch

/-! What a reader of the grammar looks for. Each alternative that is not there
leaves an attempt; the attempts at the furthest place explain why a query is
refused. -/

/-- What was looked for, and the rules that were active then, outermost
first. -/
structure Expectation where
  expected : String
  rules : List String
  deriving DecidableEq, Repr

structure Attempt where
  position : Nat
  expectation : Expectation
  deriving DecidableEq, Repr

namespace Attempt

def within (attempt : Attempt) (rule : String) : Attempt :=
  ⟨attempt.position, attempt.expectation.expected,
    rule :: attempt.expectation.rules⟩

end Attempt

namespace Expected

/-! The names of the alternatives. -/

def identifier : String := "identifier"
def colon : String := "':'"
def comma : String := "','"
def space : String := "whitespace"
def andWord : String := "'and'"
def orWord : String := "'or'"
def doubleQuote : String := "'\"'"
def singleQuote : String := "\"'\""
def closingDoubleQuote : String := "closing '\"'"
def closingSingleQuote : String := "closing \"'\""
def escapedCharacter : String := "escaped character"
def rawCondition : String := "raw condition"
def noColon : String := "no ':' after condition"
def endOfInput : String := "end of input"

end Expected

/-- The word that joins or-groups; it is no unquoted condition. -/
def reservedWord : List Char := ['a', 'n', 'd']

/-- The expectations at the furthest position so far, each once and in the order
in which they were met. -/
structure Furthest where
  position : Nat
  expected : List Expectation
  deriving DecidableEq, Repr

namespace Furthest

def start : Furthest := ⟨0, []⟩

/-- A later position replaces everything; the same position adds what is new. -/
def record (furthest : Furthest) (attempt : Attempt) : Furthest :=
  if furthest.position < attempt.position then
    ⟨attempt.position, [attempt.expectation]⟩
  else if attempt.position = furthest.position ∧
      attempt.expectation ∉ furthest.expected then
    ⟨furthest.position, furthest.expected ++ [attempt.expectation]⟩
  else
    furthest

def ofAttempts (attempts : List Attempt) : Furthest :=
  attempts.foldl record start

theorem position_record (furthest : Furthest) (attempt : Attempt) :
    (furthest.record attempt).position =
      max furthest.position attempt.position := by
  unfold record
  split
  · simp only; omega
  · split
    · simp only; omega
    · omega

end Furthest

end TermSearch
