import TermSearch.Proofs.Query.Addition
import TermSearch.Proofs.Query.Violation

namespace TermSearch

/-! The form of the queries that texts become, and how deeply their combinations
are nested. A text gives at most three levels, and further queries at the root
add at most one level for each run of them that has the same connective. -/

/-- For each of its fields the group asks for one of the texts of every
or-group. -/
def QueryGroup.node (defaultFields : List String) (group : QueryGroup) :
    QueryNode :=
  .combine .any ((group.fieldNames defaultFields).map fun field =>
    .combine .all (group.conditions.groups.map fun orGroup =>
      .term (some field) (orGroup.conditions.map Condition.text)))

theorem QueryGroup.IsFull.toNode_eq_node {group : QueryGroup}
    {defaultFields : List String} (h : group.IsFull)
    (hnames : group.fieldNames defaultFields ≠ []) :
    group.toNode defaultFields = .ok (group.node defaultFields) := by
  have hconditions := mapM_eq_map fun orGroup hmem =>
    OrGroup.toNode_eq_ok (h.conditions orGroup hmem)
  rw [QueryGroup.toNode, if_neg (by simp [h.groups]), hconditions,
    h.names_eq_ok]
  change QueryNode.distribute _ _ = _
  rw [QueryNode.distribute, if_neg (by simp [hnames])]
  simp [node, QueryNode.withField]

def SyntaxTree.node (defaultFields : List String) (tree : SyntaxTree) :
    QueryNode :=
  .combine .all (tree.groups.map (QueryGroup.node defaultFields))

theorem Translator.exists_full_tree_of_query {translator : Translator}
    {input : String} {query : SearchQuery}
    (h : translator.query input = .ok query) :
    ∃ tree, SyntaxTree.parse input = .ok tree ∧
      (∀ group ∈ tree.groups, group.fieldNames translator.defaultFields ≠ []) ∧
      query = ⟨tree.node translator.defaultFields, translator.page⟩ := by
  rcases query_cases translator input with
    ⟨error, -, hquery⟩ | ⟨tree, -, -, hquery⟩ | ⟨tree, hparse, hclosed, -⟩
  · cases h.symm.trans hquery
  · cases h.symm.trans hquery
  · obtain ⟨hgroups, hfull⟩ := isFull_of_parse hparse
    have hnames : ∀ group ∈ tree.groups,
        group.fieldNames translator.defaultFields ≠ [] := by
      intro group hmem
      rw [Ne, (hfull group hmem).fieldNames_eq_nil_iff]
      exact fun hopen => hclosed ⟨hopen.1, group, hmem, hopen.2⟩
    have hnodes :
        tree.groups.mapM (QueryGroup.toNode translator.defaultFields) =
          .ok (tree.groups.map (QueryGroup.node translator.defaultFields)) :=
      mapM_eq_map fun group hmem =>
        (hfull group hmem).toNode_eq_node (hnames group hmem)
    have htree : tree.toQuery translator.defaultFields =
        .ok (.ofRoot (tree.node translator.defaultFields)) := by
      rw [SyntaxTree.toQuery, if_neg (by simp [hgroups]), hnodes]
      rfl
    exact ⟨tree, hparse, hnames,
      Except.ok.inj (h.symm.trans (query_eq_of_parse hparse htree))⟩

theorem Translator.exists_tree_of_query {translator : Translator}
    {input : String} {query : SearchQuery}
    (h : translator.query input = .ok query) :
    ∃ tree, SyntaxTree.parse input = .ok tree ∧
      query = ⟨tree.node translator.defaultFields, translator.page⟩ := by
  obtain ⟨tree, hparse, -, hquery⟩ := exists_full_tree_of_query h
  exact ⟨tree, hparse, hquery⟩

/-! Levels of combinations. -/

def Clause.IsWithin : Nat → Clause → Prop
  | _, .terms _ => True
  | 0, .bool _ _ => False
  | levels + 1, .bool _ clauses => ∀ clause ∈ clauses, clause.IsWithin levels

namespace QueryNode

def IsWithin : Nat → QueryNode → Prop
  | _, .term _ _ => True
  | 0, .combine _ _ => False
  | levels + 1, .combine _ clauses => ∀ node ∈ clauses, node.IsWithin levels

variable {levels : Nat} {node root : QueryNode}

theorem IsWithin.succ (h : node.IsWithin levels) :
    node.IsWithin (levels + 1) := by
  induction levels generalizing node with
  | zero =>
      cases node with
      | term field values => trivial
      | combine connective clauses => exact h.elim
  | succ levels ih =>
      cases node with
      | term field values => trivial
      | combine connective clauses =>
          exact fun clause hmem => ih (h clause hmem)

theorem IsWithin.of_mem {connective : Connective} {clauses : List QueryNode}
    (h : (combine connective clauses).IsWithin levels) (hmem : node ∈ clauses) :
    node.IsWithin levels := by
  cases levels with
  | zero => exact h.elim
  | succ levels => exact (h node hmem).succ

/-- Evaluation only ever takes combinations away. -/
theorem isWithin_of_eval {clause : Clause} (heval : node.eval = .ok clause)
    (h : node.IsWithin levels) : clause.IsWithin levels := by
  induction heval using eval_induction generalizing levels with
  | term field values => cases levels <;> trivial
  | single connective only clause _ ih => exact ih (h.of_mem List.mem_cons_self)
  | combine connective nodes clauses _ _ hall =>
      cases levels with
      | zero => exact h.elim
      | succ levels =>
          intro clause hclause
          obtain ⟨node, hnode, -, hwithin⟩ :=
            exists_related_of_mem hall.flip hclause
          exact hwithin (h node hnode)

/-- The query stays within the levels, or else it combines some that do so. -/
def HasClausesWithin (connective : Connective) (levels : Nat)
    (root : QueryNode) : Prop :=
  root.IsWithin levels ∨ ∃ clauses, root = combine connective clauses ∧
    ∀ node ∈ clauses, node.IsWithin levels

variable {connective : Connective}

theorem HasClausesWithin.join (h : root.HasClausesWithin connective levels)
    (hnode : node.IsWithin levels) :
    (root.join connective node).HasClausesWithin connective levels := by
  right
  obtain h | ⟨clauses, rfl, h⟩ := h
  · obtain ⟨clauses, rfl, hjoin⟩ | hjoin := join_cases connective root node
    · refine ⟨_, hjoin,
        List.forall_mem_append.mpr ⟨fun clause hmem => h.of_mem hmem, ?_⟩⟩
      exact List.forall_mem_singleton.mpr hnode
    · exact ⟨_, hjoin,
        List.forall_mem_cons.mpr ⟨h, List.forall_mem_singleton.mpr hnode⟩⟩
  · refine ⟨clauses ++ [node], if_pos rfl, List.forall_mem_append.mpr ⟨h, ?_⟩⟩
    exact List.forall_mem_singleton.mpr hnode

end QueryNode

theorem SyntaxTree.isWithin_node (tree : SyntaxTree)
    (defaultFields : List String) : (tree.node defaultFields).IsWithin 3 := by
  simp [node, QueryGroup.node, QueryNode.IsWithin]

end TermSearch
