import Mathlib.Algebra.GroupWithZero.Nat
import TermSearch.Proofs.Query.NormalForm
import TermSearch.Proofs.Query.Shape

namespace TermSearch

/-! Conditions spread over fields. Whatever the conditions look like and
whatever fields they had, they are asked of one field at a time, and none of
their term matches is lost, moved or changed but in its field. What a text is
translated to is made in this way, group by group. -/

theorem filterMap_fieldValues? (field : String) (values : α → List String)
    (items : List α) :
    (items.map fun item => TermMatch.mk (some field) (values item)).filterMap
        TermMatch.fieldValues? =
      items.map fun item => .single field (values item) := by
  rw [List.filterMap_map]
  exact congrFun List.filterMap_eq_map items

namespace QueryNode

theorem leaves_withField (field : String) (node : QueryNode) :
    (node.withField field).leaves =
      node.leaves.map fun leaf => ⟨some field, leaf.values⟩ := by
  induction node with
  | term _ values => simp [withField, leaves]
  | combine connective nodes ih =>
      rw [withField, leaves_combine, leaves_combine, List.flatMap_map,
        List.map_flatMap]
      exact List.flatMap_congr ih

theorem leaves_distribute {fields : List String} {conditions : List QueryNode}
    {node : QueryNode} (h : distribute fields conditions = .ok node) :
    node.leaves =
      fields.flatMap fun field =>
        (conditions.flatMap leaves).map fun leaf =>
          ⟨some field, leaf.values⟩ := by
  unfold distribute at h
  split at h
  · cases h
  · cases h
    rw [leaves_combine, List.flatMap_map]
    apply List.flatMap_congr
    intro field _
    rw [leaves_combine, List.flatMap_map, List.map_flatMap]
    exact List.flatMap_congr fun condition _ => leaves_withField field condition

/-- Conditions of any shape can be spread over fields, and what results can be
evaluated. It asks all conditions of one of the fields, with the same values in
the same order. -/
theorem distribute_reads_each_field (fields : List String)
    (conditions : List QueryNode) :
    distribute [] conditions = .error .noFields ∧
      (fields ≠ [] →
        ∃ node clause, distribute fields conditions = .ok node ∧
          node.eval = .ok clause ∧
          (∀ record : Record, clause.Matches record ↔
            ∃ field ∈ fields,
              ∀ condition ∈ conditions, condition.Holds fun _ => record field) ∧
          node.leaves =
            fields.flatMap
              (fun field =>
                (conditions.flatMap leaves).map fun leaf =>
                  ⟨some field, leaf.values⟩) ∧
          clause.leaves =
            fields.flatMap fun field =>
              (conditions.flatMap leaves).map fun leaf =>
                .single field leaf.values) := by
  refine ⟨(distribute_eq_error_iff [] conditions).mpr rfl, ?_⟩
  intro hfields
  obtain ⟨node, hnode, hset, hholds⟩ := distribute_eq_ok hfields conditions
  obtain ⟨clause, heval⟩ := exists_eval_of_isSet hset
  have hleaves := leaves_distribute hnode
  refine ⟨node, clause, hnode, heval, ?_, hleaves, ?_⟩
  · intro record
    rw [matches_of_eval heval, Matches, hholds]
    rfl
  · rw [leaves_of_eval heval, hleaves, List.filterMap_flatMap]
    exact List.flatMap_congr fun field _ =>
      filterMap_fieldValues? field TermMatch.values _

/-- Fields that were set before do not count, and an empty combination stays
one. -/
theorem distribute_reads_each_field_nested :
    let fields := ["title", "body"]
    let conditions : List QueryNode :=
      [.combine .any [.term (some "tags") ["a"],
        .combine .all [.term none ["b", "c"]]], .combine .all []]
    fields ≠ [] ∧
      ∃ node clause, distribute fields conditions = .ok node ∧
        node.eval = .ok clause ∧
        (∀ record : Record, clause.Matches record ↔
          ("a" ∈ record "title" ∨ "b" ∈ record "title" ∨ "c" ∈ record "title") ∨
            "a" ∈ record "body" ∨
            "b" ∈ record "body" ∨
            "c" ∈ record "body") ∧
        clause.leaves =
          [.single "title" ["a"], .single "title" ["b", "c"],
            .single "body" ["a"], .single "body" ["b", "c"]] := by
  intro fields conditions
  have hfields : fields ≠ [] := by decide
  obtain ⟨node, clause, hnode, heval, hmatches, -, hleaves⟩ :=
    (distribute_reads_each_field fields conditions).2 hfields
  refine ⟨hfields, node, clause, hnode, heval, ?_, ?_⟩
  · intro record
    rw [hmatches]
    simp [fields, conditions, holds_combine, holds_term, Connective.Joins]
  · rw [hleaves]
    rfl

end QueryNode

/-! The documents that texts are translated to. -/

namespace QueryGroup

variable {group : QueryGroup} {defaultFields : List String}

theorem leaves_node (group : QueryGroup) (defaultFields : List String) :
    (group.node defaultFields).leaves =
      (group.fieldNames defaultFields).flatMap fun field =>
        group.conditions.groups.map fun orGroup =>
          ⟨some field, orGroup.conditions.map Condition.text⟩ := by
  rw [node, QueryNode.leaves_combine, List.flatMap_map]
  apply List.flatMap_congr
  intro field _
  rw [QueryNode.leaves_combine, List.flatMap_map]
  exact List.map_eq_flatMap.symm

theorem IsFull.hasSizes_node (h : group.IsFull)
    (hnames : group.fieldNames defaultFields ≠ []) :
    (group.node defaultFields).HasSizes (· ≠ 0) := by
  simp [node, QueryNode.hasSizes_combine, hnames, h.groups]

end QueryGroup

namespace SyntaxTree

variable {tree : SyntaxTree} {defaultFields : List String}

theorem leaves_node (tree : SyntaxTree) (defaultFields : List String) :
    (tree.node defaultFields).leaves = tree.groups.flatMap fun group =>
      (group.fieldNames defaultFields).flatMap fun field =>
        group.conditions.groups.map fun orGroup =>
          ⟨some field, orGroup.conditions.map Condition.text⟩ := by
  rw [node, QueryNode.leaves_combine, List.flatMap_map]
  exact List.flatMap_congr fun group _ => group.leaves_node defaultFields

theorem hasSizes_node (hgroups : tree.groups ≠ [])
    (hfull : ∀ group ∈ tree.groups, group.IsFull)
    (hnames : ∀ group ∈ tree.groups, group.fieldNames defaultFields ≠ []) :
    (tree.node defaultFields).HasSizes (· ≠ 0) := by
  rw [node, QueryNode.hasSizes_combine, List.length_map, List.forall_mem_map]
  refine ⟨by simpa using hgroups, ?_⟩
  exact fun group hmem => (hfull group hmem).hasSizes_node (hnames group hmem)

end SyntaxTree

namespace Translator

variable {translator : Translator} {input : String} {document : QueryDocument}

theorem exists_tree_of_translate
    (h : translator.translate input = .ok document) :
    ∃ tree, SyntaxTree.parse input = .ok tree ∧
      (∀ group ∈ tree.groups, group.fieldNames translator.defaultFields ≠ []) ∧
      (tree.node translator.defaultFields).eval = .ok document.query := by
  cases hquery : translator.query input with
  | error error => cases h.symm.trans (translate_of_query_error hquery)
  | ok query =>
      obtain ⟨tree, hparse, hnames, rfl⟩ := exists_full_tree_of_query hquery
      refine ⟨tree, hparse, hnames, ?_⟩
      rw [translate_eq_of_query hquery, mapError_eq_ok_iff, SearchQuery.eval]
        at h
      obtain ⟨clause, heval, rfl⟩ := map_eq_ok_iff.mp h
      exact heval

/-- A document has, group by group and for each of the group's fields, one
clause for each or-group, with the texts of its conditions. What is combined is
more than one clause, and no more than three combinations stand inside each
other. -/
theorem shape_of_translate (h : translator.translate input = .ok document) :
    ∃ tree, SyntaxTree.parse input = .ok tree ∧
      document.query.leaves =
        tree.groups.flatMap
          (fun group =>
            (group.fieldNames translator.defaultFields).flatMap fun field =>
              group.conditions.groups.map fun orGroup =>
                .single field (orGroup.conditions.map Condition.text)) ∧
      document.query.HasSizes (2 ≤ ·) ∧
      (∀ fields ∈ document.query.leaves,
        ∀ entry ∈ fields.entries, entry.2 ≠ []) ∧
      document.query.IsWithin 3 ∧
      document.query.leaves.length =
        (tree.groups.map fun group =>
          (group.fieldNames translator.defaultFields).length *
            group.conditions.groups.length).sum := by
  obtain ⟨tree, hparse, hnames, heval⟩ := exists_tree_of_translate h
  obtain ⟨hgroups, hfull⟩ := isFull_of_parse hparse
  have hleaves : document.query.leaves = tree.groups.flatMap fun group =>
      (group.fieldNames translator.defaultFields).flatMap fun field =>
        group.conditions.groups.map fun orGroup =>
          .single field (orGroup.conditions.map Condition.text) := by
    rw [QueryNode.leaves_of_eval heval, tree.leaves_node,
      List.filterMap_flatMap]
    apply List.flatMap_congr
    intro group _
    rw [List.filterMap_flatMap]
    exact List.flatMap_congr fun field _ => filterMap_fieldValues? field
      (fun orGroup : OrGroup => orGroup.conditions.map Condition.text) _
  refine ⟨tree, hparse, hleaves, ?_, ?_, ?_, ?_⟩
  · have hsizes := tree.hasSizes_node hgroups hfull hnames
    refine (QueryNode.hasSizes_of_eval heval hsizes).imp fun size hsize => ?_
    omega
  · intro fields hfields
    rw [hleaves] at hfields
    simp only [List.mem_flatMap, List.mem_map] at hfields
    obtain ⟨group, hgroup, field, -, orGroup, horGroup, rfl⟩ := hfields
    rw [FieldValues.entries_single, List.forall_mem_singleton, Ne,
      List.map_eq_nil_iff]
    exact (hfull group hgroup).conditions orGroup horGroup
  · exact QueryNode.isWithin_of_eval heval
      (tree.isWithin_node translator.defaultFields)
  · rw [hleaves]
    simp [List.length_flatMap]

theorem shape_of_translate_named_fields :
    ∃ document,
      translate ⟨[], .standard⟩ "x,y:a b and 'c d' z:e" = .ok document ∧
        document.query.leaves =
          [.single "x" ["a", "b"], .single "x" ["c d"], .single "y" ["a", "b"],
            .single "y" ["c d"], .single "z" ["e"]] ∧
        document.query.HasSizes (2 ≤ ·) ∧
        document.query.IsWithin 3 := by
  have hparse : SyntaxTree.parse "x,y:a b and 'c d' z:e" =
      .ok ⟨[⟨some ⟨[⟨"x", ⟨0, 1⟩⟩, ⟨"y", ⟨2, 3⟩⟩], ⟨0, 4⟩⟩,
        ⟨[⟨[.raw "a" ⟨4, 5⟩, .raw "b" ⟨6, 7⟩], ⟨4, 7⟩⟩,
          ⟨[.quoted "c d" '\'' ⟨12, 17⟩], ⟨12, 17⟩⟩], ⟨4, 17⟩⟩, ⟨0, 17⟩⟩,
        ⟨some ⟨[⟨"z", ⟨18, 19⟩⟩], ⟨18, 20⟩⟩,
          ⟨[⟨[.raw "e" ⟨20, 21⟩], ⟨20, 21⟩⟩], ⟨20, 21⟩⟩, ⟨18, 21⟩⟩],
        ⟨0, 21⟩⟩ := by
    decide +kernel
  obtain ⟨query, hquery, -⟩ :=
    @query_of_parse ⟨[], .standard⟩ _ _ hparse (.inr (by simp))
  obtain ⟨document, htranslate, -⟩ := translate_of_query hquery
  obtain ⟨tree, htree, hleaves, hsizes, -, hwithin, -⟩ :=
    shape_of_translate htranslate
  cases htree.symm.trans hparse
  exact ⟨document, htranslate, hleaves, hsizes, hwithin⟩

end Translator

end TermSearch
