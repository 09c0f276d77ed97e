import TermSearch.Grammar.Production
import TermSearch.Grammar.RuleTree

namespace TermSearch

/-! Reading a whole query. A query is refused with the furthest place at which
an alternative was missing and with everything that was looked for there. -/

structure SyntaxError where
  position : Nat
  expected : List Expectation
  input : String
  deriving DecidableEq, Repr

def SyntaxTree.parse (input : String) : Except SyntaxError SyntaxTree :=
  let outcome := Grammar.andQueries (.ofText input)
  match outcome.result with
  | some (tree, _) => .ok tree
  | none =>
      let furthest := Furthest.ofAttempts outcome.attempts
      .error ⟨furthest.position, furthest.expected, input⟩

inductive Hint where
  | emptyQuery
  | reservedWord
  | danglingAnd
  | leadingSpace
  | fieldName
  deriving DecidableEq, Repr

def Hint.text : Hint → String
  | .emptyQuery => "enter at least one search term, e.g. 'title: rust'"
  | .reservedWord =>
      "'and' is reserved; quote it (\"and\") to search for the literal word"
  | .danglingAnd =>
      "'and' needs a condition after it; quote it (\"and\") to search for the word"
  | .leadingSpace => "remove the whitespace before the query"
  | .fieldName => "field names may only contain letters, digits, '_' and '.'"

namespace SyntaxError

/-- The input before the position, or nothing if the position is none of the
input. -/
def before (error : SyntaxError) : List Char :=
  (cutAt? error.position error.input.toList).elim [] (·.1)

def after (error : SyntaxError) : List Char :=
  (cutAt? error.position error.input.toList).elim [] (·.2)

def column (error : SyntaxError) : Nat :=
  error.before.length

def found (error : SyntaxError) : String :=
  match error.after with
  | [] => "end of input"
  | c :: _ => if isSpace c then "whitespace" else Text.quotedChar c

def alternatives (error : SyntaxError) : List String :=
  error.expected.foldl (fun labels e => addNew e.expected labels) []

def message (error : SyntaxError) : String :=
  let wanted :=
    if error.alternatives = [] then "a valid query"
    else Text.alternatives error.alternatives
  "expected " ++ wanted ++ ", found " ++ error.found

def Attempted (error : SyntaxError) (label : String) : Prop :=
  ∃ e ∈ error.expected, e.expected = label

instance (error : SyntaxError) (label : String) :
    Decidable (error.Attempted label) :=
  inferInstanceAs (Decidable (∃ e ∈ error.expected, e.expected = label))

/-- The last word of a text, whatever space follows it. -/
def lastWord (text : List Char) : List Char :=
  ((text.reverse.dropWhile isSpace).takeWhile fun c => !isSpace c).reverse

def hint? (error : SyntaxError) : Option Hint :=
  if error.input.toList.all isSpace then
    some .emptyQuery
  else if error.Attempted Expected.rawCondition ∧
      error.after.takeWhile isTermChar = TermSearch.reservedWord then
    some .reservedWord
  else if error.after.all isSpace ∧
      lastWord error.before = TermSearch.reservedWord then
    some .danglingAnd
  else if error.position = 0 ∧ error.after.head?.any isSpace then
    some .leadingSpace
  else if error.Attempted Expected.noColon then
    some .fieldName
  else
    none

/-- The message, the input with a caret below the failing column, and the
hint. -/
def display (error : SyntaxError) : String :=
  "query syntax error: " ++ error.message ++ "\n  " ++ error.input ++ "\n  " ++
    String.ofList (List.replicate error.column ' ') ++ "^" ++
    error.hint?.elim "" fun hint => "\nhint: " ++ hint.text

/-- The message and below it the rules that were active, with what each looked
for. -/
def ruleReport (error : SyntaxError) : String :=
  Text.unlines
    ((error.message ++ " at column " ++ toString error.column) ::
      (RuleForest.ofExpectations error.expected).lines)

end SyntaxError

end TermSearch
