import TermSearch.Query.Node

namespace TermSearch

/-! A query together with the page of hits that it asks for. Further conditions
can be added at the root: as required ones, or as alternatives to all that is
there. -/

structure SearchQuery where
  root : QueryNode
  page : Page

namespace QueryNode

/-- The query and another one, combined at the root. A root of that connective
takes the other query as a further clause. -/
def join (connective : Connective) (root node : QueryNode) : QueryNode :=
  match root with
  | .combine kind clauses =>
      if kind = connective then .combine kind (clauses ++ [node])
      else .combine connective [root, node]
  | .term _ _ => .combine connective [root, node]

end QueryNode

namespace SearchQuery

def ofRoot (root : QueryNode) : SearchQuery := ⟨root, .standard⟩

def withPage (query : SearchQuery) (page : Page) : SearchQuery :=
  ⟨query.root, page⟩

def addMust (query : SearchQuery) (node : QueryNode) : SearchQuery :=
  ⟨query.root.join .all node, query.page⟩

def addShould (query : SearchQuery) (node : QueryNode) : SearchQuery :=
  ⟨query.root.join .any node, query.page⟩

def eval (query : SearchQuery) : Except ContractViolation QueryDocument :=
  query.root.eval.map fun clause => ⟨query.page, clause⟩

def heading (page : Page) : String :=
  "SearchQuery(from=" ++ toString page.offset.toNat ++ ", size=" ++
    toString page.size.toNat ++ ")"

def display (query : SearchQuery) : String :=
  Text.unlines (heading query.page ::
    (Text.lines query.root.display).map (Text.indented 1))

@[simp] theorem root_withPage (query : SearchQuery) (page : Page) :
    (query.withPage page).root = query.root := rfl

end SearchQuery

end TermSearch
