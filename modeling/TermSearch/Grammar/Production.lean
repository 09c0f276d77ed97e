import TermSearch.Grammar.Rule
import TermSearch.Text.Class

namespace TermSearch.Grammar

/-! The grammar of queries.

    and_queries    = and_query (space and_query)* space?
    and_query      = field? and_conditions
    field          = multi_field ":" space?
    multi_field    = identifier ("," identifier)*
    and_conditions = or_conditions (and_op or_conditions)*
    or_conditions  = condition (or_op condition)*
    and_op         = space "and" space
    or_op          = space "or" space / space
    condition      = (quoted_string / raw_condition) !":"
    raw_condition  = a longest run of term characters, except the word "and"
    quoted_string  = a quote, characters or escapes, the same quote

Choice is ordered and repetition is greedy, so `and` binds looser than the space
between two conditions, which already means "or". Spaces and identifiers are no
named rules: their attempts belong to the rule that asks for them. -/

def space : Rule Unit := do
  let spaces ← Rule.run isSpace
  if spaces.isEmpty then Rule.missing Expected.space else pure ()

def identifier : Rule FieldName := do
  let (name, span) ← Rule.spanned (Rule.run isIdentifierChar)
  if name.isEmpty then
    Rule.missing Expected.identifier
  else
    pure ⟨String.ofList name, span⟩

def multiField : Rule (List FieldName) :=
  Rule.named "multi_field"
    (Rule.separated identifier (Rule.literal [','] Expected.comma))

def field : Rule FieldList :=
  Rule.named "field" do
    let (fields, span) ← Rule.spanned do
      let fields ← multiField
      Rule.literal [':'] Expected.colon
      pure fields
    let _ ← Rule.optional space
    pure ⟨fields, span⟩

/-- The rest of a quoted string, with its escapes resolved. A backslash stands
for the character after it, whatever that is. -/
def quotedRest (quote : Char) (closing : String) :
    Nat → List Char → Outcome (List Char)
  | position, [] => Rule.missing closing ⟨position, []⟩
  | position, ['\\'] =>
      Rule.missing Expected.escapedCharacter ⟨position + 1, []⟩
  | position, '\\' :: c :: rest =>
      let outcome := quotedRest quote closing (position + 1 + c.utf8Size) rest
      ⟨outcome.result.map fun reading => (c :: reading.1, reading.2),
        outcome.attempts⟩
  | position, c :: rest =>
      if c = quote then
        ⟨some ([], ⟨position + c.utf8Size, rest⟩), []⟩
      else
        let outcome := quotedRest quote closing (position + c.utf8Size) rest
        ⟨outcome.result.map fun reading => (c :: reading.1, reading.2),
          outcome.attempts⟩

def openingQuote : Rule (Char × String) :=
  (do Rule.literal ['"'] Expected.doubleQuote
      pure ('"', Expected.closingDoubleQuote)) <|>
  (do Rule.literal ['\''] Expected.singleQuote
      pure ('\'', Expected.closingSingleQuote))

def quotedString : Rule Condition :=
  Rule.named "quoted_string" do
    let ((text, quote), span) ← Rule.spanned do
      let (quote, closing) ← openingQuote
      let text ← fun cursor =>
          quotedRest quote closing cursor.position cursor.rest
      pure (text, quote)
    pure (.quoted (String.ofList text) quote span)

def rawCondition : Rule Condition :=
  Rule.named "raw_condition" do
    let text := (← Rule.upcoming).takeWhile isTermChar
    if text = [] ∨ text = reservedWord then
      Rule.missing Expected.rawCondition
    else
      let (text, span) ← Rule.spanned (Rule.run isTermChar)
      pure (.raw (String.ofList text) span)

/-- A condition must not run into a colon: then its text was meant as field
names. -/
def condition : Rule Condition :=
  Rule.named "condition" do
    let condition ← quotedString <|> rawCondition
    if (← Rule.upcoming).head? = some ':' then
      Rule.missing Expected.noColon
    else
      pure condition

def orOp : Rule Unit :=
  Rule.named "or_op" <|
    (do space; Rule.literal ['o', 'r'] Expected.orWord; space) <|> space

def orConditions : Rule OrGroup :=
  Rule.named "or_conditions" do
    let (conditions, span) ← Rule.spanned (Rule.separated condition orOp)
    pure ⟨conditions, span⟩

def andOp : Rule Unit :=
  Rule.named "and_op" do
    space
    Rule.literal reservedWord Expected.andWord
    space

def andConditions : Rule Conditions :=
  Rule.named "and_conditions" do
    let (groups, span) ← Rule.spanned (Rule.separated orConditions andOp)
    pure ⟨groups, span⟩

def andQuery : Rule QueryGroup :=
  Rule.named "and_query" do
    let ((fields, conditions), span) ← Rule.spanned do
      let fields ← Rule.optional field
      let conditions ← andConditions
      pure (fields, conditions)
    pure ⟨fields, conditions, span⟩

def endOfInput : Rule Unit := do
  if (← Rule.upcoming).isEmpty then pure ()
  else Rule.missing Expected.endOfInput

def andQueries : Rule SyntaxTree :=
  Rule.named "and_queries" do
    let (groups, span) ← Rule.spanned (Rule.separated andQuery space)
    let _ ← Rule.optional space
    endOfInput
    pure ⟨groups, span⟩

end TermSearch.Grammar
