import TermSearch.Proofs.Query.Evaluation

namespace TermSearch

/-! The clauses that queries evaluate to: those on one field each in which
nothing is combined alone. Such a clause can be read as a query again, which
evaluates to it. -/

def Clause.HasSizes (allowed : Nat → Prop) : Clause → Prop
  | .terms _ => True
  | .bool _ clauses =>
      allowed clauses.length ∧ ∀ clause ∈ clauses, clause.HasSizes allowed

namespace Clause

variable {allowed other : Nat → Prop}

@[simp] theorem hasSizes_terms (fields : FieldValues) :
    (terms fields).HasSizes allowed := by
  rw [HasSizes]
  trivial

theorem hasSizes_bool {connective : Connective} {clauses : List Clause} :
    (bool connective clauses).HasSizes allowed ↔
      allowed clauses.length ∧ ∀ clause ∈ clauses, clause.HasSizes allowed := by
  rw [HasSizes]

theorem HasSizes.imp (himp : ∀ size, allowed size → other size)
    {clause : Clause} (h : clause.HasSizes allowed) :
    clause.HasSizes other := by
  induction clause with
  | terms fields => exact hasSizes_terms fields
  | bool connective clauses ih =>
      rw [hasSizes_bool] at h ⊢
      exact ⟨himp _ h.1, fun clause hmem => ih clause hmem (h.2 clause hmem)⟩

end Clause

namespace QueryNode

def HasSizes (allowed : Nat → Prop) : QueryNode → Prop
  | .term _ _ => True
  | .combine _ nodes =>
      allowed nodes.length ∧ ∀ node ∈ nodes, node.HasSizes allowed

variable {node : QueryNode} {clause : Clause} {allowed : Nat → Prop}

@[simp] theorem hasSizes_term (field : Option String) (values : List String) :
    (term field values).HasSizes allowed := by
  rw [HasSizes]
  trivial

theorem hasSizes_combine {connective : Connective} {nodes : List QueryNode} :
    (combine connective nodes).HasSizes allowed ↔
      allowed nodes.length ∧ ∀ node ∈ nodes, node.HasSizes allowed := by
  rw [HasSizes]

theorem hasSizes_of_forall (h : ∀ size, allowed size) (node : QueryNode) :
    node.HasSizes allowed := by
  induction node with
  | term field values => exact hasSizes_term field values
  | combine connective nodes ih => exact hasSizes_combine.mpr ⟨h _, ih⟩

/-- Evaluation takes out the combinations of one, and keeps the sizes of the
others. -/
theorem hasSizes_of_eval (heval : node.eval = .ok clause)
    (h : node.HasSizes allowed) :
    clause.HasSizes fun size => allowed size ∧ size ≠ 1 := by
  induction heval using eval_induction with
  | term field values => exact Clause.hasSizes_terms _
  | single connective only clause _ ih =>
      rw [hasSizes_combine] at h
      exact ih (h.2 only List.mem_cons_self)
  | combine connective nodes clauses _ hlength hall =>
      rw [hasSizes_combine] at h
      rw [Clause.hasSizes_bool, ← hall.length_eq]
      refine ⟨⟨h.1, hlength⟩, ?_⟩
      intro clause hclause
      obtain ⟨node, hnode, -, hsizes⟩ := exists_related_of_mem hall.flip hclause
      exact hsizes (h.2 node hnode)

end QueryNode

/-- Every terms clause is on one field, and no combination is of one clause. -/
structure Clause.IsNormal (clause : Clause) : Prop where
  fields : ∀ fields ∈ clause.leaves, fields.entries.length = 1
  sizes : clause.HasSizes (· ≠ 1)

theorem Clause.IsNormal.of_mem {connective : Connective}
    {clauses : List Clause} (h : (bool connective clauses).IsNormal)
    {clause : Clause} (hmem : clause ∈ clauses) : clause.IsNormal := by
  constructor
  · intro fields hfields
    apply h.fields
    rw [leaves_bool]
    exact List.mem_flatMap_of_mem hmem hfields
  · exact (hasSizes_bool.mp h.sizes).2 clause hmem

theorem QueryNode.isNormal_of_eval {node : QueryNode} {clause : Clause}
    (h : node.eval = .ok clause) : clause.IsNormal := by
  constructor
  · intro fields hfields
    rw [leaves_of_eval h, List.mem_filterMap] at hfields
    obtain ⟨leaf, -, hleaf⟩ := hfields
    obtain ⟨field, -, rfl⟩ := Option.map_eq_some_iff.mp hleaf
    rfl
  · have hall : node.HasSizes fun _ => True :=
      hasSizes_of_forall (fun _ => trivial) node
    exact (hasSizes_of_eval h hall).imp fun _ hsize => hsize.2

/-! Clauses read as queries. -/

def QueryNode.ofEntries : List (String × List String) → QueryNode
  | [(field, values)] => .term (some field) values
  | entries =>
      .combine .all (entries.map fun entry => .term (some entry.1) entry.2)

namespace Clause

mutual
def toNode : Clause → QueryNode
  | .terms fields => .ofEntries fields.entries
  | .bool connective clauses => .combine connective (toNodes clauses)

def toNodes : List Clause → List QueryNode
  | [] => []
  | clause :: clauses => clause.toNode :: toNodes clauses
end

theorem toNodes_eq_map (clauses : List Clause) :
    toNodes clauses = clauses.map toNode := by
  induction clauses with
  | nil => rfl
  | cons clause clauses ih => rw [toNodes, ih, List.map_cons]

theorem IsNormal.eval_toNode {clause : Clause} (h : clause.IsNormal) :
    clause.toNode.eval = .ok clause := by
  induction clause with
  | terms fields =>
      obtain ⟨⟨field, values⟩, hentries⟩ :=
        List.length_eq_one_iff.mp (h.fields fields List.mem_cons_self)
      have hfields : fields = .single field values :=
        FieldValues.ext_entries hentries
      rw [hfields]
      rfl
  | bool connective clauses ih =>
      have hnodes : (clauses.map toNode).mapM QueryNode.eval = .ok clauses := by
        rw [mapM_eq_ok_iff, List.forall₂_map_left_iff, List.forall₂_same]
        exact fun clause hmem => ih clause hmem (h.of_mem hmem)
      rw [toNode, toNodes_eq_map, QueryNode.eval_combine, hnodes]
      · rfl
      · intro only hsingle
        apply (hasSizes_bool.mp h.sizes).1
        rw [← List.length_map, hsingle]
        rfl

end Clause

/-! Combinations of one, put anywhere into a query. -/

namespace QueryNode

theorem eval_combine_congr {connective : Connective}
    {nodes others : List QueryNode} (h : nodes.map eval = others.map eval) :
    (combine connective nodes).eval = (combine connective others).eval := by
  -- both lists are of the same length, so either both combinations are taken
  -- out or none
  by_cases hsingle : ∃ only, nodes = [only]
  · obtain ⟨only, rfl⟩ := hsingle
    obtain ⟨other, hother, heval⟩ := List.map_eq_singleton_iff.mp h.symm
    rw [hother, eval_singleton, eval_singleton, heval]
  · have hother : ¬∃ only, others = [only] := by
      rintro ⟨other, rfl⟩
      obtain ⟨only, honly, -⟩ := List.map_eq_singleton_iff.mp h
      exact hsingle ⟨only, honly⟩
    rw [eval_combine (not_exists.mp hsingle),
      eval_combine (not_exists.mp hother), mapM_eq_of_map_eq h]

/-- In combinations of one, the first of these outermost. -/
def wrap (node : QueryNode) (connectives : List Connective) : QueryNode :=
  connectives.foldr (fun connective inner => combine connective [inner]) node

theorem eval_wrap (node : QueryNode) (connectives : List Connective) :
    (node.wrap connectives).eval = node.eval := by
  induction connectives with
  | nil => rfl
  | cons connective connectives ih => exact (eval_singleton _ _).trans ih

end QueryNode

/-- A query with one place left open. -/
inductive Frame where
  | here
  | inside (connective : Connective) (before : List QueryNode) (frame : Frame)
      (after : List QueryNode)

namespace Frame

def fill (node : QueryNode) : Frame → QueryNode
  | .here => node
  | .inside connective before frame after =>
      .combine connective (before ++ frame.fill node :: after)

theorem eval_fill_congr {node other : QueryNode} (h : node.eval = other.eval)
    (frame : Frame) : (frame.fill node).eval = (frame.fill other).eval := by
  induction frame with
  | here => exact h
  | inside connective before frame after ih =>
      apply QueryNode.eval_combine_congr
      rw [List.map_append, List.map_append, List.map_cons, List.map_cons, ih]

end Frame

/-- Queries evaluate to the normal clauses and to no others, and a normal clause
that is read as a query evaluates to itself. So a query can be wrapped in
combinations of one, anywhere in another query, and that has the same clause as
before. -/
theorem Clause.evaluated_iff_isNormal (clause : Clause) :
    ((∃ node : QueryNode, node.eval = .ok clause) ↔ clause.IsNormal) ∧
    (clause.toNode.eval = .ok clause ↔ clause.IsNormal) ∧
    ∀ (frame : Frame) (node : QueryNode) (connectives : List Connective),
      (frame.fill (node.wrap connectives)).eval = (frame.fill node).eval := by
  refine ⟨⟨?_, ?_⟩, ⟨?_, ?_⟩, ?_⟩
  · rintro ⟨node, heval⟩
    exact QueryNode.isNormal_of_eval heval
  · exact fun h => ⟨clause.toNode, h.eval_toNode⟩
  · exact QueryNode.isNormal_of_eval
  · exact IsNormal.eval_toNode
  · intro frame node connectives
    exact frame.eval_fill_congr (node.eval_wrap connectives)

end TermSearch
