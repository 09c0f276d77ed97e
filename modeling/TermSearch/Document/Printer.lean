import TermSearch.Document.Basic
import TermSearch.Json.Layout

namespace TermSearch

/-! Documents as JSON. -/

def Connective.occurrence : Connective → String
  | .all => "must"
  | .any => "should"

def FieldValues.tokens (fields : FieldValues) : List Json.Token :=
  Json.object (fields.entries.map fun entry =>
    (entry.1, Json.array (entry.2.map fun value => [.text value])))

namespace Clause

mutual
def tokens : Clause → List Json.Token
  | .terms fields => Json.object [("terms", fields.tokens)]
  | .bool connective clauses =>
      Json.object [("bool",
        Json.object [(connective.occurrence, Json.array (tokensAll clauses))])]

def tokensAll : List Clause → List (List Json.Token)
  | [] => []
  | clause :: clauses => clause.tokens :: tokensAll clauses
end

theorem tokensAll_eq_map (clauses : List Clause) :
    tokensAll clauses = clauses.map tokens := by
  induction clauses with
  | nil => rfl
  | cons clause clauses ih => simp [tokensAll, ih]

def compact (clause : Clause) : String :=
  Json.compact clause.tokens

end Clause

namespace QueryDocument

def tokens (document : QueryDocument) : List Json.Token :=
  Json.object [("from", [.nat document.page.offset.toNat]),
    ("size", [.nat document.page.size.toNat]), ("query", document.query.tokens)]

def compact (document : QueryDocument) : String :=
  Json.compact document.tokens

def pretty (document : QueryDocument) : String :=
  Json.indented document.tokens

end QueryDocument

end TermSearch
