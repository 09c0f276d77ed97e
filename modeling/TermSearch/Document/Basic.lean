import TermSearch.Document.FieldValues

namespace TermSearch

/-! The query document that is handed to a search engine: a page of hits, and a
clause that says which records are hits. -/

inductive Connective where
  | all
  | any
  deriving DecidableEq, Repr

inductive Clause where
  | terms (fields : FieldValues)
  | bool (connective : Connective) (clauses : List Clause)

namespace Clause

@[elab_as_elim, induction_eliminator]
theorem induction {motive : Clause → Prop}
    (terms : ∀ fields, motive (.terms fields))
    (bool : ∀ connective clauses, (∀ clause ∈ clauses, motive clause) →
      motive (.bool connective clauses)) : ∀ clause, motive clause
  | .terms fields => terms fields
  | .bool connective clauses => bool connective clauses fun clause _ =>
      induction terms bool clause

end Clause

/-- Which of the hits are wanted: `size` of them after the first `offset`. -/
structure Page where
  offset : UInt64
  size : UInt64
  deriving DecidableEq, Repr

namespace Page

def standard : Page := ⟨0, 50⟩

end Page

structure QueryDocument where
  page : Page
  query : Clause

end TermSearch
