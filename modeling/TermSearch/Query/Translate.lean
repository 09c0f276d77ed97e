import TermSearch.Grammar.Parse
import TermSearch.Query.Search

namespace TermSearch

/-! From a written query to a document. Each or-group is a term match over its
conditions, each query group spreads its or-groups over its fields, and the
groups all have to match. Groups that name no field use the default fields. -/

inductive QueryError where
  | input (error : SyntaxError)
  | internal (violation : ContractViolation)
  deriving DecidableEq, Repr

namespace QueryError

def message : QueryError → String
  | .input error => error.message
  | .internal violation => violation.message

def display : QueryError → String
  | .input error => error.display
  | .internal violation => "internal query error: " ++ violation.message

end QueryError

/-- A term match on the texts of the conditions, its field still open. -/
def OrGroup.toNode (group : OrGroup) : Except ContractViolation QueryNode :=
  if group.conditions.isEmpty then
    .error (.emptyNode .orConditions)
  else
    .ok (.term none (group.conditions.map Condition.text))

def FieldList.names (list : FieldList) :
    Except ContractViolation (List String) :=
  if list.fields.isEmpty then
    .error (.emptyNode .fieldList)
  else
    .ok (list.fields.map FieldName.name)

def QueryGroup.toNode (defaultFields : List String) (group : QueryGroup) :
    Except ContractViolation QueryNode :=
  if group.conditions.groups.isEmpty then
    .error (.emptyNode .andConditions)
  else do
    let conditions ← group.conditions.groups.mapM OrGroup.toNode
    let fields ← group.fields.elim (.ok defaultFields) FieldList.names
    QueryNode.distribute fields conditions

def SyntaxTree.toQuery (defaultFields : List String) (tree : SyntaxTree) :
    Except ContractViolation SearchQuery :=
  if tree.groups.isEmpty then
    .error (.emptyNode .andQueries)
  else
    (tree.groups.mapM (QueryGroup.toNode defaultFields)).map fun groups =>
      .ofRoot (.combine .all groups)

structure Translator where
  defaultFields : List String
  page : Page
  deriving DecidableEq, Repr

namespace Translator

def standardFields : List String := ["title", "body"]

def standard : Translator := ⟨standardFields, .standard⟩

def query (translator : Translator) (input : String) :
    Except QueryError SearchQuery :=
  match SyntaxTree.parse input with
  | .error error => .error (.input error)
  | .ok tree =>
      match tree.toQuery translator.defaultFields with
      | .error violation => .error (.internal violation)
      | .ok query => .ok (query.withPage translator.page)

def translate (translator : Translator) (input : String) :
    Except QueryError QueryDocument :=
  match translator.query input with
  | .error error => .error error
  | .ok query => query.eval.mapError .internal

end Translator

end TermSearch
