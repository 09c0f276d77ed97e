import TermSearch.Document.Basic
import TermSearch.Text.Lines
import TermSearch.Text.Quoted

namespace TermSearch

/-! Boolean queries. A term match asks for one of some values in a field, and
its field may still be open. Queries are evaluated to clauses once all fields
are set. -/

inductive QueryNode where
  | term (field : Option String) (values : List String)
  | combine (connective : Connective) (clauses : List QueryNode)
  deriving Repr

inductive NodeKind where
  | andQueries
  | andConditions
  | orConditions
  | fieldList
  deriving DecidableEq, Repr

def NodeKind.label : NodeKind → String
  | .andQueries => "and_queries"
  | .andConditions => "and_conditions"
  | .orConditions => "or_conditions"
  | .fieldList => "field_list"

/-- What the parts of the translation promise each other, and was not kept. -/
inductive ContractViolation where
  | unsetField (values : List String)
  | emptyNode (kind : NodeKind)
  | noFields
  deriving DecidableEq, Repr

def ContractViolation.message : ContractViolation → String
  | .unsetField values =>
      "term match on " ++ Text.quotedList values ++
        " has no field at evaluation time"
  | .emptyNode kind => "syntax tree contains an empty " ++ kind.label ++ " node"
  | .noFields => "field distribution requires at least one field"

namespace QueryNode

/-- The same query with every term match on one field. -/
def withField (field : String) : QueryNode → QueryNode
  | .term _ values => .term (some field) values
  | .combine connective clauses =>
      .combine connective (clauses.map (withField field))

mutual
/-- The clause that a query stands for. A combination of a single query stands
for that query. -/
def eval : QueryNode → Except ContractViolation Clause
  | .term none values => .error (.unsetField values)
  | .term (some field) values => .ok (.terms (.single field values))
  | .combine _ [only] => only.eval
  | .combine connective clauses => (evalAll clauses).map (.bool connective)

def evalAll : List QueryNode → Except ContractViolation (List Clause)
  | [] => .ok []
  | node :: nodes =>
      match node.eval with
      | .error violation => .error violation
      | .ok clause => (evalAll nodes).map (clause :: ·)
end

/-- One combination per field, in which every condition is put to that field;
one of them has to match. -/
def distribute (fields : List String) (conditions : List QueryNode) :
    Except ContractViolation QueryNode :=
  if fields.isEmpty then
    .error .noFields
  else
    .ok (.combine .any (fields.map fun field =>
      .combine .all (conditions.map (withField field))))

def heading (connective : Connective) : String :=
  match connective with
  | .all => "Conjunction"
  | .any => "Disjunction"

mutual
def lines (level : Nat) : QueryNode → List String
  | .term field values =>
      [Text.indented level ("TermMatch(" ++ field.elim "?" Text.quoted ++
        ", " ++ Text.quotedList values ++ ")")]
  | .combine connective clauses =>
      Text.indented level (heading connective) :: linesAll (level + 1) clauses

def linesAll (level : Nat) : List QueryNode → List String
  | [] => []
  | node :: nodes => lines level node ++ linesAll level nodes
end

def display (node : QueryNode) : String :=
  Text.unlines (node.lines 0)

theorem linesAll_eq_flatMap (level : Nat) (nodes : List QueryNode) :
    linesAll level nodes = nodes.flatMap (lines level) := by
  induction nodes with
  | nil => rfl
  | cons node nodes ih => simp [linesAll, ih]

@[simp] theorem eval_singleton (connective : Connective) (node : QueryNode) :
    (combine connective [node]).eval = node.eval := by
  rw [eval]

theorem distribute_eq_error_iff (fields : List String)
    (conditions : List QueryNode) :
    distribute fields conditions = .error .noFields ↔ fields = [] := by
  cases fields <;> simp [distribute]

end QueryNode

end TermSearch
