import TermSearch.Proofs.Query.Meaning
import TermSearch.Query.Search

namespace TermSearch

/-! Conditions that are added to a query at its root, one after another. Whether
the root takes a condition as a further clause or is put below a new one depends
on what the additions before have made of it. Either way no term match is lost
or moved, and the meaning of the query is joined with that of the condition. -/

namespace Connective

variable {holds : α → Prop} {connective : Connective}

def Joint : Connective → Prop → Prop → Prop
  | .all, left, right => left ∧ right
  | .any, left, right => left ∨ right

theorem joint_assoc {left middle right : Prop} :
    connective.Joint (connective.Joint left middle) right ↔
      connective.Joint left (connective.Joint middle right) := by
  cases connective with
  | all => exact and_assoc
  | any => exact or_assoc

theorem joint_joins_nil {statement : Prop} :
    connective.Joint statement (connective.Joins holds []) ↔ statement := by
  cases connective <;> simp [Joint, Joins]

theorem joins_append {items others : List α} :
    connective.Joins holds (items ++ others) ↔
      connective.Joint (connective.Joins holds items)
        (connective.Joins holds others) := by
  cases connective with
  | all => simp [Joins, Joint, or_imp, forall_and]
  | any => simp [Joins, Joint, or_and_right, exists_or]

theorem joins_pair {item other : α} :
    connective.Joins holds [item, other] ↔
      connective.Joint (holds item) (holds other) := by
  change connective.Joins holds ([item] ++ [other]) ↔ _
  rw [joins_append, joins_singleton, joins_singleton]

end Connective

structure TermMatch where
  field : Option String
  values : List String
  deriving DecidableEq, Repr

namespace QueryNode

mutual
def leaves : QueryNode → List TermMatch
  | .term field values => [⟨field, values⟩]
  | .combine _ clauses => leavesAll clauses

def leavesAll : List QueryNode → List TermMatch
  | [] => []
  | node :: nodes => node.leaves ++ leavesAll nodes
end

theorem leavesAll_eq_flatMap (nodes : List QueryNode) :
    leavesAll nodes = nodes.flatMap leaves := by
  induction nodes with
  | nil => rfl
  | cons node nodes ih => rw [leavesAll, ih, List.flatMap_cons]

theorem leaves_combine (connective : Connective) (clauses : List QueryNode) :
    (combine connective clauses).leaves = clauses.flatMap leaves := by
  rw [leaves, leavesAll_eq_flatMap]

theorem isSet_iff_leaves {node : QueryNode} :
    node.IsSet ↔ ∀ leaf ∈ node.leaves, leaf.field ≠ none := by
  induction node with
  | term field values => simp [IsSet, leaves]
  | combine connective clauses ih =>
      rw [IsSet, leaves_combine]
      simp only [List.mem_flatMap, forall_exists_index, and_imp]
      constructor
      · intro h leaf node hnode
        exact (ih node hnode).mp (h node hnode) leaf
      · intro h node hnode
        exact (ih node hnode).mpr fun leaf => h leaf node hnode

/-- A root of the connective grows by the node, and any other root gets a new
one. -/
theorem join_cases (connective : Connective) (root node : QueryNode) :
    (∃ clauses, root = combine connective clauses ∧
      root.join connective node = combine connective (clauses ++ [node])) ∨
    root.join connective node = combine connective [root, node] := by
  cases root with
  | term field values => exact .inr rfl
  | combine kind clauses =>
      by_cases hkind : kind = connective
      · subst hkind
        exact .inl ⟨clauses, rfl, if_pos rfl⟩
      · exact .inr (if_neg hkind)

theorem leaves_join (connective : Connective) (root node : QueryNode) :
    (root.join connective node).leaves = root.leaves ++ node.leaves := by
  obtain ⟨clauses, rfl, hjoin⟩ | hjoin := join_cases connective root node
  · rw [hjoin, leaves_combine, leaves_combine, List.flatMap_append,
      List.flatMap_singleton]
  · rw [hjoin, leaves_combine, List.flatMap_cons, List.flatMap_singleton]

theorem matches_join {connective : Connective} {root node : QueryNode}
    {record : Record} :
    (root.join connective node).Matches record ↔
      connective.Joint (root.Matches record) (node.Matches record) := by
  obtain ⟨clauses, rfl, hjoin⟩ | hjoin := join_cases connective root node
  · rw [hjoin, matches_combine, matches_combine, Connective.joins_append,
      Connective.joins_singleton]
  · rw [hjoin, matches_combine, Connective.joins_pair]

/-- The clause that the query stands for matches the record. -/
def EvaluatesToMatch (record : Record) (node : QueryNode) : Prop :=
  ∃ clause, node.eval = .ok clause ∧ clause.Matches record

theorem evaluatesToMatch_iff {record : Record} {node : QueryNode}
    (h : node.IsSet) : node.EvaluatesToMatch record ↔ node.Matches record := by
  obtain ⟨clause, heval, hmatches⟩ := eval_of_isSet h
  simp only [EvaluatesToMatch, heval, Except.ok.injEq,
    exists_eq_left', hmatches]

end QueryNode

/-- A condition to be added: one that is required, or an alternative to all
before it. -/
structure Addition where
  connective : Connective
  node : QueryNode

namespace SearchQuery

def add (query : SearchQuery) (addition : Addition) : SearchQuery :=
  match addition.connective with
  | .all => query.addMust addition.node
  | .any => query.addShould addition.node

/-- The query after additions, of which the first in the list is made first. -/
def addAll (query : SearchQuery) (additions : List Addition) : SearchQuery :=
  additions.foldl add query

variable {query : SearchQuery} {additions : List Addition} {record : Record}

theorem root_add (query : SearchQuery) (addition : Addition) :
    (query.add addition).root =
      query.root.join addition.connective addition.node := by
  obtain ⟨_ | _, node⟩ := addition <;> rfl

theorem page_add (query : SearchQuery) (addition : Addition) :
    (query.add addition).page = query.page := by
  obtain ⟨_ | _, node⟩ := addition <;> rfl

theorem page_addAll (query : SearchQuery) (additions : List Addition) :
    (query.addAll additions).page = query.page := by
  induction additions generalizing query with
  | nil => rfl
  | cons addition additions ih =>
      exact (ih (query.add addition)).trans (page_add query addition)

theorem leaves_addAll (query : SearchQuery) (additions : List Addition) :
    (query.addAll additions).root.leaves =
      query.root.leaves ++ additions.flatMap fun addition =>
        addition.node.leaves := by
  induction additions generalizing query with
  | nil => simp [addAll]
  | cons addition additions ih =>
      change ((query.add addition).addAll additions).root.leaves = _
      rw [ih, root_add, QueryNode.leaves_join, List.append_assoc,
        List.flatMap_cons]

theorem matches_addAll :
    (query.addAll additions).root.Matches record ↔
      additions.foldl
        (fun matched addition =>
          addition.connective.Joint matched (addition.node.Matches record))
        (query.root.Matches record) := by
  induction additions generalizing query with
  | nil => rfl
  | cons addition additions ih =>
      change ((query.add addition).addAll additions).root.Matches record ↔ _
      rw [ih, root_add, propext QueryNode.matches_join, List.foldl_cons]

/-- Additions of one kind amount to one addition of them all. -/
theorem matches_addAll_map {connective : Connective} {nodes : List QueryNode} :
    (query.addAll (nodes.map (Addition.mk connective))).root.Matches record ↔
      connective.Joint (query.root.Matches record)
        (connective.Joins (fun node => node.Matches record) nodes) := by
  induction nodes generalizing query with
  | nil => exact Connective.joint_joins_nil.symm
  | cons node nodes ih =>
      change ((query.add ⟨connective, node⟩).addAll (nodes.map _)).root.Matches
        record ↔ _
      rw [ih, root_add, propext QueryNode.matches_join, Connective.joint_assoc,
        ← List.singleton_append, propext Connective.joins_append,
        propext Connective.joins_singleton]

theorem isSet_addAll_iff :
    (query.addAll additions).root.IsSet ↔
      query.root.IsSet ∧ ∀ addition ∈ additions, addition.node.IsSet := by
  simp only [QueryNode.isSet_iff_leaves, leaves_addAll, List.forall_mem_append,
    List.mem_flatMap, forall_exists_index, and_imp]
  grind

theorem isSet_addAll_map_iff {connective : Connective}
    {nodes : List QueryNode} :
    (query.addAll (nodes.map (Addition.mk connective))).root.IsSet ↔
      query.root.IsSet ∧ ∀ node ∈ nodes, node.IsSet := by
  rw [isSet_addAll_iff, List.forall_mem_map]

theorem eval_of_isSet_root (h : query.root.IsSet) :
    ∃ document, query.eval = .ok document ∧ document.page = query.page ∧
      ∀ record, document.query.Matches record ↔ query.root.Matches record := by
  obtain ⟨clause, heval, hmatches⟩ := QueryNode.eval_of_isSet h
  refine ⟨⟨query.page, clause⟩, ?_, rfl, hmatches⟩
  rw [SearchQuery.eval, heval]
  rfl

/-- Additions keep all term matches in their order, and the page. Once
evaluated, the query matches what is had by joining the matches of the
conditions to those of the first query, from left to right. -/
theorem addAll_keeps_and_joins (query : SearchQuery)
    (additions : List Addition) :
    (query.addAll additions).root.leaves =
        query.root.leaves ++
          additions.flatMap (fun addition => addition.node.leaves) ∧
      (query.addAll additions).page = query.page ∧
      ((∀ leaf ∈ (query.addAll additions).root.leaves, leaf.field ≠ none) →
        ∃ document, (query.addAll additions).eval = .ok document ∧
          document.page = query.page ∧
          ∀ record : Record, document.query.Matches record ↔
            additions.foldl
              (fun matched addition =>
                addition.connective.Joint matched
                  (addition.node.EvaluatesToMatch record))
              (query.root.EvaluatesToMatch record)) := by
  refine ⟨leaves_addAll query additions, page_addAll query additions, ?_⟩
  intro hleaves
  have hset := QueryNode.isSet_iff_leaves.mpr hleaves
  obtain ⟨document, heval, hpage, hmatches⟩ := eval_of_isSet_root hset
  refine ⟨document, heval, hpage.trans (page_addAll query additions), ?_⟩
  intro record
  obtain ⟨hroot, hadditions⟩ := isSet_addAll_iff.mp hset
  rw [hmatches, matches_addAll,
    ← propext (QueryNode.evaluatesToMatch_iff hroot)]
  refine iff_of_eq (List.foldl_ext _ _ _ fun matched addition hmem => ?_)
  rw [propext (QueryNode.evaluatesToMatch_iff (hadditions addition hmem))]

theorem addAll_keeps_and_joins_filtered_twice :
    let query : SearchQuery :=
      ⟨.combine .any
        [.term (some "title") ["rust"], .term (some "body") ["rust"]], ⟨10, 5⟩⟩
    let additions : List Addition :=
      [⟨.all, .term (some "tenant") ["acme"]⟩, ⟨.any, .combine .all
        [.term (some "tags") ["new"], .term (some "tags") ["free"]]⟩,
        ⟨.all, .term (some "language") ["en", "de"]⟩]
    (∀ leaf ∈ (query.addAll additions).root.leaves, leaf.field ≠ none) ∧
      ∃ document, (query.addAll additions).eval = .ok document ∧
        document.page = ⟨10, 5⟩ ∧
        ∀ record : Record, document.query.Matches record ↔
          ((("rust" ∈ record "title" ∨ "rust" ∈ record "body") ∧
                "acme" ∈ record "tenant") ∨
              "new" ∈ record "tags" ∧ "free" ∈ record "tags") ∧
            ("en" ∈ record "language" ∨ "de" ∈ record "language") := by
  intro query additions
  have hleaves : ∀ leaf ∈ (query.addAll additions).root.leaves,
      leaf.field ≠ none := by decide
  obtain ⟨document, heval, hpage, hmatches⟩ :=
    (addAll_keeps_and_joins query additions).2.2 hleaves
  refine ⟨hleaves, document, heval, hpage, ?_⟩
  intro record
  rw [hmatches]
  simp [query, additions, QueryNode.evaluatesToMatch_iff, QueryNode.IsSet,
    QueryNode.matches_combine, QueryNode.matches_term, Connective.Joins,
    Connective.Joint]

end SearchQuery

end TermSearch
