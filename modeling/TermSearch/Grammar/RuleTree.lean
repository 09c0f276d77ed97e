import TermSearch.Grammar.Attempt
import TermSearch.Text.Lines

namespace TermSearch

/-! Expectations arranged by the rules that had them: one node for each rule
path, with what that very rule looked for. Siblings and labels keep the order in
which they were first met. -/

inductive RuleNode where
  | mk (name : String) (expected : List String) (children : List RuleNode)
  deriving Repr

namespace RuleNode

def name : RuleNode → String
  | .mk name _ _ => name

def expected : RuleNode → List String
  | .mk _ expected _ => expected

def children : RuleNode → List RuleNode
  | .mk _ _ children => children

end RuleNode

def addNew [DecidableEq α] (value : α) (values : List α) : List α :=
  if value ∈ values then values else values ++ [value]

abbrev RuleForest := List RuleNode

namespace RuleForest

/-- Changes the node of that name, which is added at the end if there is
none. -/
def alter (name : String) (change : RuleNode → RuleNode) :
    RuleForest → RuleForest
  | [] => [change (.mk name [] [])]
  | node :: nodes =>
      if node.name = name then change node :: nodes
      else node :: alter name change nodes

/-- Notes below a path of rules what its last rule looked for. -/
def insert (expected : String) : List String → RuleForest → RuleForest
  | [], forest => forest
  | [name], forest =>
      alter name (fun node =>
        .mk node.name (addNew expected node.expected) node.children) forest
  | name :: rules, forest =>
      alter name (fun node => .mk node.name node.expected
        (insert expected rules node.children)) forest

def ofExpectations (expectations : List Expectation) : RuleForest :=
  expectations.foldl (fun forest e => forest.insert e.expected e.rules) []

end RuleForest

namespace RuleNode

def heading (node : RuleNode) : String :=
  if node.expected = [] then node.name
  else node.name ++ ": expected " ++ Text.alternatives node.expected

mutual
def lines (branches : String) (last : Bool) : RuleNode → List String
  | .mk name expected children =>
      (branches ++ (if last then "└─ " else "├─ ") ++
        (mk name expected children).heading) ::
        forestLines (branches ++ if last then "   " else "│  ") children

def forestLines (branches : String) : List RuleNode → List String
  | [] => []
  | node :: nodes =>
      lines branches nodes.isEmpty node ++ forestLines branches nodes
end

end RuleNode

def RuleForest.lines (forest : RuleForest) : List String :=
  RuleNode.forestLines "" forest

theorem nodup_addNew [DecidableEq α] {value : α} {values : List α}
    (h : values.Nodup) : (addNew value values).Nodup := by
  unfold addNew
  split
  · exact h
  · rename_i hnew
    exact List.nodup_append.mpr ⟨h, by simp, by
      intro a ha b hb
      simp only [List.mem_singleton] at hb
      rintro rfl
      exact hnew (hb ▸ ha)⟩

end TermSearch
