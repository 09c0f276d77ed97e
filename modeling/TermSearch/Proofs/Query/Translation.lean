import TermSearch.Proofs.Grammar.Lossless
import TermSearch.Proofs.Query.Meaning
import TermSearch.Query.Translate

namespace TermSearch

/-! The translation of an accepted query keeps its meaning. The steps of it fail
on trees with an empty node only, and reading gives no such tree. -/

/-- The group's own fields, or the default ones if it names none. -/
def QueryGroup.fieldNames (defaultFields : List String) (group : QueryGroup) :
    List String :=
  group.fields.elim defaultFields fun list => list.fields.map FieldName.name

/-- In one of its fields the record has a condition of every or-group. -/
def QueryGroup.Matches (defaultFields : List String) (record : Record)
    (group : QueryGroup) : Prop :=
  ∃ field ∈ group.fieldNames defaultFields, ∀ orGroup ∈ group.conditions.groups,
    ∃ condition ∈ orGroup.conditions, condition.text ∈ record field

structure QueryGroup.IsFull (group : QueryGroup) : Prop where
  fields : ∀ list, group.fields = some list → list.fields ≠ []
  groups : group.conditions.groups ≠ []
  conditions : ∀ orGroup ∈ group.conditions.groups, orGroup.conditions ≠ []

theorem QueryGroup.Lossless.isFull {input : List Char} {group : QueryGroup}
    (h : group.Lossless input) : group.IsFull := by
  constructor
  · intro list hlist
    have hfilled := h.filled.2
    rw [hlist] at hfilled
    obtain ⟨-, ⟨⟨colon, hrow, -⟩, -⟩, -⟩ := hfilled
    exact hrow.ne_nil
  · exact h.conditions.row.ne_nil
  · intro orGroup hmem
    exact (h.conditions.groups orGroup hmem).row.ne_nil

theorem isFull_of_parse {input : String} {tree : SyntaxTree}
    (h : SyntaxTree.parse input = .ok tree) :
    tree.groups ≠ [] ∧ ∀ group ∈ tree.groups, group.IsFull := by
  obtain ⟨stop, hresult⟩ := Grammar.parse_eq_ok_iff.mp h
  obtain ⟨-, hrow, hgroups, -⟩ :=
    Grammar.andQueries_lossless (Cursor.isIn_ofText input) hresult
  exact ⟨hrow.ne_nil, fun group hmem => (hgroups group hmem).isFull⟩

theorem OrGroup.toNode_eq_ok {group : OrGroup} (h : group.conditions ≠ []) :
    group.toNode = .ok (.term none (group.conditions.map Condition.text)) :=
  if_neg (by simp [h])

namespace QueryGroup

variable {group : QueryGroup} {defaultFields : List String}

theorem IsFull.fieldNames_ne_nil (h : group.IsFull)
    (hdefaults : defaultFields ≠ []) : group.fieldNames defaultFields ≠ [] := by
  unfold fieldNames
  cases hfields : group.fields with
  | none => exact hdefaults
  | some list => simpa using h.fields list hfields

theorem IsFull.names_eq_ok (h : group.IsFull) :
    group.fields.elim (.ok defaultFields) FieldList.names =
      .ok (group.fieldNames defaultFields) := by
  unfold fieldNames
  cases hfields : group.fields with
  | none => rfl
  | some list => exact if_neg (by simpa using h.fields list hfields)

/-- All that is left to fail is to spread the or-groups over the fields. -/
theorem IsFull.toNode_eq_distribute (h : group.IsFull)
    (defaultFields : List String) :
    ∃ conditions,
      group.toNode defaultFields =
          QueryNode.distribute (group.fieldNames defaultFields) conditions ∧
        List.Forall₂
          (fun node orGroup =>
            ∀ texts : Set String, (node.Holds fun _ => texts) ↔
              ∃ condition ∈ OrGroup.conditions orGroup, condition.text ∈ texts)
          conditions group.conditions.groups := by
  have hconditions : ∀ orGroup ∈ group.conditions.groups,
      ∃ node, orGroup.toNode = .ok node ∧
        ∀ texts : Set String, (node.Holds fun _ => texts) ↔
          ∃ condition ∈ orGroup.conditions, condition.text ∈ texts := by
    intro orGroup hmem
    refine ⟨_, OrGroup.toNode_eq_ok (h.conditions orGroup hmem), ?_⟩
    intro texts
    rw [QueryNode.holds_term]
    simp
  obtain ⟨conditions, htranslated, hall⟩ := exists_mapM_eq_ok hconditions
  refine ⟨conditions, ?_, hall⟩
  rw [QueryGroup.toNode, if_neg (by simp [h.groups]), htranslated,
    h.names_eq_ok]
  rfl

theorem IsFull.toNode (h : group.IsFull)
    (hnames : group.fieldNames defaultFields ≠ []) :
    ∃ node, group.toNode defaultFields = .ok node ∧
      node.IsSet ∧
      ∀ record, node.Matches record ↔ group.Matches defaultFields record := by
  obtain ⟨conditions, heq, hall⟩ := h.toNode_eq_distribute defaultFields
  obtain ⟨node, hnode, hset, hholds⟩ :=
    QueryNode.distribute_eq_ok hnames conditions
  refine ⟨node, heq.trans hnode, hset, ?_⟩
  intro record
  rw [QueryNode.Matches, hholds]
  refine exists_congr fun field => and_congr_right fun _ => ?_
  change Connective.Joins _ .all conditions ↔
    Connective.Joins _ .all group.conditions.groups
  exact Connective.joins_forall₂ (hall.imp fun _ _ hiff => hiff (record field))

end QueryGroup

namespace SyntaxTree

variable {tree : SyntaxTree} {defaultFields : List String}

theorem toQuery_of_fieldNames (hgroups : tree.groups ≠ [])
    (hfull : ∀ group ∈ tree.groups, group.IsFull)
    (hnames : ∀ group ∈ tree.groups, group.fieldNames defaultFields ≠ []) :
    ∃ query, tree.toQuery defaultFields = .ok query ∧ query.root.IsSet ∧
      ∀ record, query.root.Matches record ↔
        ∀ group ∈ tree.groups, group.Matches defaultFields record := by
  let Stands (node : QueryNode) (group : QueryGroup) : Prop :=
    ∀ record, node.Matches record ↔ group.Matches defaultFields record
  have hnodes : ∀ group ∈ tree.groups,
      ∃ node, group.toNode defaultFields = .ok node ∧
        (node.IsSet ∧ Stands node group) :=
    fun group hmem => (hfull group hmem).toNode (hnames group hmem)
  obtain ⟨nodes, htranslated, hall⟩ := exists_mapM_eq_ok hnodes
  obtain ⟨hset, hstands⟩ := (List.forall₂_and_left nodes tree.groups).mp hall
  refine ⟨.ofRoot (.combine .all nodes), ?_, ?_, ?_⟩
  · rw [toQuery, if_neg (by simp [hgroups]), htranslated]
    rfl
  · change (QueryNode.combine .all nodes).IsSet
    rw [QueryNode.IsSet]
    exact hset
  · intro record
    change (QueryNode.combine .all nodes).Matches record ↔ _
    rw [QueryNode.matches_combine]
    exact Connective.joins_forall₂ (hstands.imp fun _ _ hiff => hiff record)

theorem toQuery_of_isFull (hgroups : tree.groups ≠ [])
    (hfull : ∀ group ∈ tree.groups, group.IsFull)
    (hdefaults : defaultFields ≠ []) :
    ∃ query, tree.toQuery defaultFields = .ok query ∧
      query.root.IsSet ∧
      ∀ record, query.root.Matches record ↔
        ∀ group ∈ tree.groups, group.Matches defaultFields record :=
  toQuery_of_fieldNames hgroups hfull fun group hmem =>
    (hfull group hmem).fieldNames_ne_nil hdefaults

end SyntaxTree

namespace Translator

variable {translator : Translator} {input : String}

theorem query_eq_of_parse {tree : SyntaxTree} {query : SearchQuery}
    (h : SyntaxTree.parse input = .ok tree)
    (hquery : tree.toQuery translator.defaultFields = .ok query) :
    translator.query input = .ok (query.withPage translator.page) := by
  unfold Translator.query
  generalize SyntaxTree.parse input = parsed at h
  subst h
  simp only [hquery]

theorem translate_eq_of_query {query : SearchQuery}
    (h : translator.query input = .ok query) :
    translator.translate input = query.eval.mapError .internal := by
  unfold translate
  generalize translator.query input = result at h
  subst h
  rfl

/-- An accepted query is translated, and its document matches the records in
which every group finds a condition of each of its or-groups in one of its
fields. -/
theorem translate_of_parse {tree : SyntaxTree}
    (hdefaults : translator.defaultFields ≠ [])
    (h : SyntaxTree.parse input = .ok tree) :
    ∃ document, translator.translate input = .ok document ∧
      ∀ record : Record, document.query.Matches record ↔
        ∀ group ∈ tree.groups,
          ∃ field ∈ group.fieldNames translator.defaultFields,
            ∀ orGroup ∈ group.conditions.groups,
              ∃ condition ∈ orGroup.conditions,
                condition.text ∈ record field := by
  obtain ⟨hgroups, hfull⟩ := isFull_of_parse h
  obtain ⟨query, hquery, hset, hmeaning⟩ :=
    SyntaxTree.toQuery_of_isFull hgroups hfull hdefaults
  obtain ⟨clause, heval, hclause⟩ := QueryNode.eval_of_isSet hset
  refine ⟨⟨translator.page, clause⟩, ?_, ?_⟩
  · have hdocument : (query.withPage translator.page).eval =
        .ok ⟨translator.page, clause⟩ := by
      rw [SearchQuery.eval, SearchQuery.root_withPage, heval]
      rfl
    rw [translate_eq_of_query (query_eq_of_parse h hquery), hdocument]
    rfl
  · intro record
    rw [hclause, hmeaning]
    rfl

theorem translate_of_parse_two_groups :
    ∃ document, standard.translate "a b and c x:d" = .ok document ∧
      ∀ record : Record, document.query.Matches record ↔
        (("a" ∈ record "title" ∨ "b" ∈ record "title") ∧ "c" ∈ record "title" ∨
          ("a" ∈ record "body" ∨ "b" ∈ record "body") ∧ "c" ∈ record "body") ∧
        "d" ∈ record "x" := by
  have hdefaults : standard.defaultFields ≠ [] := by decide
  have hparse : SyntaxTree.parse "a b and c x:d" =
      .ok ⟨[⟨none,
        ⟨[⟨[.raw "a" ⟨0, 1⟩, .raw "b" ⟨2, 3⟩], ⟨0, 3⟩⟩,
          ⟨[.raw "c" ⟨8, 9⟩], ⟨8, 9⟩⟩], ⟨0, 9⟩⟩, ⟨0, 9⟩⟩,
        ⟨some ⟨[⟨"x", ⟨10, 11⟩⟩], ⟨10, 12⟩⟩,
          ⟨[⟨[.raw "d" ⟨12, 13⟩], ⟨12, 13⟩⟩], ⟨12, 13⟩⟩, ⟨10, 13⟩⟩],
        ⟨0, 13⟩⟩ := by
    decide +kernel
  obtain ⟨document, htranslated, hmatches⟩ :=
    translate_of_parse hdefaults hparse
  refine ⟨document, htranslated, ?_⟩
  intro record
  rw [hmatches]
  simp [QueryGroup.fieldNames, standard, standardFields]

end Translator

end TermSearch
