import TermSearch.Proofs.Query.Addition

namespace TermSearch

/-! Evaluation term match by term match. The first one without a field is
reported, whatever combinations it stands in; and where there is none, each
becomes a clause of its own, in the same order. -/

mutual
def Clause.leaves : Clause → List FieldValues
  | .terms fields => [fields]
  | .bool _ clauses => Clause.leavesAll clauses

def Clause.leavesAll : List Clause → List FieldValues
  | [] => []
  | clause :: clauses => clause.leaves ++ Clause.leavesAll clauses
end

theorem Clause.leavesAll_eq_flatMap (clauses : List Clause) :
    leavesAll clauses = clauses.flatMap leaves := by
  induction clauses with
  | nil => rfl
  | cons clause clauses ih => rw [leavesAll, ih, List.flatMap_cons]

theorem Clause.leaves_bool (connective : Connective) (clauses : List Clause) :
    (bool connective clauses).leaves = clauses.flatMap leaves := by
  rw [leaves, leavesAll_eq_flatMap]

theorem flatMap_eq_of_forall₂ {parts : α → List γ} {pieces : β → List γ}
    {items : List α} {others : List β}
    (h : List.Forall₂ (fun item other => pieces other = parts item) items
      others) :
    others.flatMap pieces = items.flatMap parts := by
  induction h with
  | nil => rfl
  | cons hitem _ ih => rw [List.flatMap_cons, List.flatMap_cons, hitem, ih]

def TermMatch.fieldValues? (leaf : TermMatch) : Option FieldValues :=
  leaf.field.map fun field => .single field leaf.values

namespace QueryNode

variable {node : QueryNode} {clause : Clause}

theorem leaves_of_eval (h : node.eval = .ok clause) :
    clause.leaves = node.leaves.filterMap TermMatch.fieldValues? := by
  induction h using eval_induction with
  | term field values => rfl
  | single connective only clause _ ih =>
      rw [ih, leaves_combine, List.flatMap_singleton]
  | combine connective nodes clauses _ _ hall =>
      rw [Clause.leaves_bool, leaves_combine, List.filterMap_flatMap]
      apply flatMap_eq_of_forall₂
      refine hall.imp fun node clause hnode => ?_
      obtain ⟨-, hnode⟩ := hnode
      exact hnode

/-! The report of a field that is still open. -/

def firstOpen? (node : QueryNode) : Option TermMatch :=
  node.leaves.find? fun leaf => leaf.field.isNone

theorem firstOpen?_combine (connective : Connective) (nodes : List QueryNode) :
    (combine connective nodes).firstOpen? = nodes.findSome? firstOpen? := by
  rw [firstOpen?, leaves_combine, List.find?_flatMap]
  rfl

theorem firstOpen?_eq_none_iff : node.firstOpen? = none ↔ node.IsSet := by
  rw [firstOpen?, List.find?_eq_none, isSet_iff_leaves]
  simp

theorem eval_of_firstOpen? {leaf : TermMatch}
    (h : node.firstOpen? = some leaf) :
    node.eval = .error (.unsetField leaf.values) := by
  induction node with
  | term field values =>
      cases field with
      | none =>
          cases h
          rw [eval]
      | some field => cases h
  | combine connective nodes ih =>
      rw [firstOpen?_combine] at h
      by_cases hsingle : ∃ only, nodes = [only]
      · obtain ⟨only, rfl⟩ := hsingle
        rw [eval_singleton]
        apply ih only List.mem_cons_self
        simpa using h
      · obtain ⟨before, node, after, rfl, hnode, hbefore⟩ :=
          List.findSome?_eq_some_iff.mp h
        rw [eval_combine (not_exists.mp hsingle), map_eq_error_iff,
          mapM_eq_error_iff]
        refine ⟨before, node, after, rfl, ?_, ?_⟩
        · intro earlier hmem
          apply exists_eval_of_isSet
          exact firstOpen?_eq_none_iff.mp (hbefore earlier hmem)
        · exact ih node (List.mem_append_right before List.mem_cons_self) hnode

theorem eval_eq_error_iff {violation : ContractViolation} :
    node.eval = .error violation ↔
      ∃ leaf, node.firstOpen? = some leaf ∧
        violation = .unsetField leaf.values := by
  constructor
  · intro h
    cases hopen : node.firstOpen? with
    | none =>
        obtain ⟨clause, heval⟩ :=
          exists_eval_of_isSet (firstOpen?_eq_none_iff.mp hopen)
        cases heval.symm.trans h
    | some leaf =>
        refine ⟨leaf, rfl, ?_⟩
        exact Except.error.inj (h.symm.trans (eval_of_firstOpen? hopen))
  · rintro ⟨leaf, hopen, rfl⟩
    exact eval_of_firstOpen? hopen

theorem firstOpen?_eq_some_iff {leaf : TermMatch} :
    node.firstOpen? = some leaf ↔
      leaf.field = none ∧
        ∃ before after, node.leaves = before ++ leaf :: after ∧
          ∀ earlier ∈ before, earlier.field ≠ none := by
  rw [firstOpen?, List.find?_eq_some_iff_append]
  simp only [Option.isNone_iff_eq_none, Bool.not_eq_true',
    Option.isNone_eq_false_iff, Option.isSome_iff_ne_none]

/-- A query has no clause exactly if some term match has no field; what is
reported is then the first one of these and nothing else, for the query alone as
for that on a page. -/
theorem eval_reports_first_open (node : QueryNode) :
    ((∃ violation, node.eval = .error violation) ↔
        ∃ leaf ∈ node.leaves, leaf.field = none) ∧
      (∀ violation, node.eval = .error violation ↔
        ∃ before values after, node.leaves = before ++ ⟨none, values⟩ :: after ∧
          (∀ earlier ∈ before, earlier.field ≠ none) ∧
          violation = .unsetField values) ∧
      ∀ page violation, (SearchQuery.mk node page).eval = .error violation ↔
        node.eval = .error violation := by
  refine ⟨?_, fun violation => ?_, fun page violation => ?_⟩
  · simp only [eval_eq_error_iff]
    rw [exists_comm]
    simp [← Option.isSome_iff_exists, firstOpen?]
  · rw [eval_eq_error_iff]
    simp only [firstOpen?_eq_some_iff]
    constructor
    · rintro ⟨⟨field, values⟩, ⟨rfl, before, after, hleaves, hbefore⟩, rfl⟩
      exact ⟨before, values, after, hleaves, hbefore, rfl⟩
    · rintro ⟨before, values, after, hleaves, hbefore, rfl⟩
      exact ⟨⟨none, values⟩, ⟨rfl, before, after, hleaves, hbefore⟩, rfl⟩
  · rw [SearchQuery.eval, map_eq_error_iff]

end QueryNode

end TermSearch
