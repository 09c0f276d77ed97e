import Mathlib.Data.PFun
import TermSearch.Grammar.Parse

namespace TermSearch.InPlace

/-! The grammar read in place. All rules share one state: a byte position in the
input, the rules that are active, and the furthest place at which an alternative
was missing. Nothing is taken back by itself. A rule that fails has to put back
a position that it saved, a rule that was entered has to be left, and each look
at the text is a slice of it at the position of the moment. Whether reading
ends, and whether its slices can be cut, is left open here. -/

/-- A slice of the input between two bytes that cannot be cut. -/
structure BadSlice where
  start : Nat
  stop : Nat
  deriving DecidableEq, Repr

structure State where
  input : String
  /-- In bytes from the start of the input. -/
  position : Nat
  /-- The rules that were entered and not yet left, outermost first. -/
  rules : List String
  furthest : Furthest
  deriving DecidableEq, Repr

def State.start (input : String) : State := ⟨input, 0, [], .start⟩

/-- A reader goes from state to state and gives a value or fails; the state
stays as it is left then. Instead of either, reading may stop for good at a bad
slice, or have no end. -/
abbrev Reader : Type → Type :=
  OptionT (StateT State (ExceptT BadSlice Part))

/-! What a reader can do. -/

def position : Reader Nat := return (← get).position

def reset (position : Nat) : Reader Unit :=
  modify fun state => { state with position }

def moveOn (size : Nat) : Reader Unit :=
  modify fun state => { state with position := state.position + size }

def enter (name : String) : Reader Unit :=
  modify fun state => { state with rules := state.rules ++ [name] }

def leave : Reader Unit :=
  modify fun state => { state with rules := state.rules.dropLast }

/-- Notes what was looked for at this position, under the rules that are active,
and fails. -/
def missing (expected : String) : Reader α := do
  modify fun state =>
    { state with
      furthest :=
        state.furthest.record ⟨state.position, expected, state.rules⟩ }
  failure

def slice (start stop : Nat) : Reader (List Char) := do
  match textBetween? (← get).input.toList start stop with
  | some text => pure text
  | none => throwThe BadSlice ⟨start, stop⟩

def rest : Reader (List Char) := do
  let state ← get
  slice state.position (byteSize state.input.toList)

def atEnd : Reader Bool := do
  let state ← get
  return decide (byteSize state.input.toList ≤ state.position)

def peek : Reader (Option Char) := return (← rest).head?

def advance : Reader (Option Char) := do
  match ← peek with
  | some c => do
      moveOn c.utf8Size
      return some c
  | none => return none

def eat (word : List Char) : Reader Bool := do
  if word.isPrefixOf (← rest) then
    moveOn (byteSize word)
    return true
  else
    return false

def eatWhile (allowed : Char → Bool) : Reader (List Char) := do
  let start ← position
  moveOn (byteSize ((← rest).takeWhile allowed))
  slice start (← position)

/-! Ways to combine readers. -/

/-- How a turn of a loop comes out. -/
inductive Turn (σ α : Type) where
  | done (value : α)
  | again (next : σ)

/-- What follows on a turn: the end of the loop, which a turn that fails brings
as well, or another turn from where this one has left the state. -/
def afterTurn : Except BadSlice (Option (Turn σ α) × State) →
    Except BadSlice (Option α × State) ⊕ σ × State
  | .error slice => .inl (.error slice)
  | .ok (none, state) => .inl (.ok (none, state))
  | .ok (some (.done value), state) => .inl (.ok (some value, state))
  | .ok (some (.again next), state) => .inr (next, state)

/-- Takes turns until one is the last. There is no end if each of them asks for
another. -/
def loop (turn : σ → Reader (Turn σ α)) (first : σ) : Reader α :=
  OptionT.mk fun state => ExceptT.mk <|
    PFun.fix (fun place => ((turn place.1).run.run place.2).run.map afterTurn)
      (first, state)

/-- Whether the reader gives a value or fails, without failing with it. -/
def attempt (reader : Reader α) : Reader (Option α) := OptionT.lift reader.run

/-- The rule is active while the body reads, and a body that fails is taken
back. -/
def named (name : String) (body : Reader α) : Reader α := do
  let start ← position
  enter name
  let result ← attempt body
  leave
  match result with
  | some value => return value
  | none => do
      reset start
      failure

def spanned (reader : Reader α) : Reader (α × Span) := do
  let start ← position
  let value ← reader
  return (value, ⟨start, ← position⟩)

def literal (word : List Char) (expected : String) : Reader Unit := do
  if ← eat word then return () else missing expected

/-- One more item after a separator. A separator that reads but has no item
behind it is taken back; one that fails is trusted to have taken itself back. -/
def nextItem (item : Reader α) (separator : Reader Unit) : Reader α := do
  let checkpoint ← position
  separator
  match ← attempt item with
  | some value => return value
  | none => do
      reset checkpoint
      failure

def furtherItems (item : Reader α) (separator : Reader Unit) :
    List α → Reader (List α) :=
  loop fun values => do
    match ← attempt (nextItem item separator) with
    | some value => return .again (values ++ [value])
    | none => return .done values

def separated (item : Reader α) (separator : Reader Unit) :
    Reader (List α) := do
  let first ← item
  furtherItems item separator [first]

/-! The rules. -/

def space : Reader Unit := do
  if (← eatWhile isSpace).isEmpty then missing Expected.space else return ()

def identifier : Reader FieldName := do
  let (name, span) ← spanned (eatWhile isIdentifierChar)
  if name.isEmpty then
    missing Expected.identifier
  else
    return ⟨String.ofList name, span⟩

def comma : Reader Unit := literal [','] Expected.comma

def multiField : Reader (List FieldName) :=
  named "multi_field" (separated identifier comma)

def field : Reader FieldList :=
  named "field" do
    let (fields, span) ← spanned do
      let fields ← multiField
      literal [':'] Expected.colon
      return fields
    let _ ← attempt space
    return ⟨fields, span⟩

def quotedRest (quote : Char) (closing : String) :
    List Char → Reader (List Char) :=
  loop fun text => do
    match ← advance with
    | none => missing closing
    | some c =>
        if c = '\\' then
          match ← advance with
          | none => missing Expected.escapedCharacter
          | some escaped => return .again (text ++ [escaped])
        else if c = quote then
          return .done text
        else
          return .again (text ++ [c])

def openingQuote : Reader (Char × String) :=
  (do literal ['"'] Expected.doubleQuote
      return ('"', Expected.closingDoubleQuote)) <|>
  (do literal ['\''] Expected.singleQuote
      return ('\'', Expected.closingSingleQuote))

def quotedString : Reader Condition :=
  named "quoted_string" do
    let ((text, quote), span) ← spanned do
      let (quote, closing) ← openingQuote
      let text ← quotedRest quote closing []
      return (text, quote)
    return .quoted (String.ofList text) quote span

def rawCondition : Reader Condition :=
  named "raw_condition" do
    let start ← position
    let text ← eatWhile isTermChar
    if text = [] ∨ text = reservedWord then
      reset start
      missing Expected.rawCondition
    else
      return .raw (String.ofList text) ⟨start, ← position⟩

def condition : Reader Condition :=
  named "condition" do
    let condition ← quotedString <|> rawCondition
    if (← peek) = some ':' then
      missing Expected.noColon
    else
      return condition

def orOp : Reader Unit :=
  named "or_op" do
    let start ← position
    (do space; literal ['o', 'r'] Expected.orWord; space) <|>
      (do reset start; space)

def orConditions : Reader OrGroup :=
  named "or_conditions" do
    let (conditions, span) ← spanned (separated condition orOp)
    return ⟨conditions, span⟩

def andOp : Reader Unit :=
  named "and_op" do
    space
    literal reservedWord Expected.andWord
    space

def andConditions : Reader Conditions :=
  named "and_conditions" do
    let (groups, span) ← spanned (separated orConditions andOp)
    return ⟨groups, span⟩

def andQuery : Reader QueryGroup :=
  named "and_query" do
    let ((fields, conditions), span) ← spanned do
      let fields ← attempt field
      let conditions ← andConditions
      return (fields, conditions)
    return ⟨fields, conditions, span⟩

def endOfInput : Reader Unit := do
  if ← atEnd then return () else missing Expected.endOfInput

def andQueries : Reader SyntaxTree :=
  named "and_queries" do
    let (groups, span) ← spanned (separated andQuery space)
    let _ ← attempt space
    endOfInput
    return ⟨groups, span⟩

/-- Reads a whole query from a new state. The furthest place explains a
failure. -/
def parse (input : String) :
    ExceptT BadSlice Part (Except SyntaxError SyntaxTree) := do
  match ← andQueries.run.run (.start input) with
  | (some tree, _) => return .ok tree
  | (none, state) =>
      return .error ⟨state.furthest.position, state.furthest.expected, input⟩

end TermSearch.InPlace
