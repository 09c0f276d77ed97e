import Mathlib.Data.Set.Defs
import TermSearch.Proofs.Lists.Failure
import TermSearch.Query.Node

namespace TermSearch

/-! Which records a query matches. A record holds a set of texts in each field;
clauses are read as an engine reads them, and nodes as the clauses that they
evaluate to. -/

def Record : Type := String → Set String

def Connective.Joins (holds : α → Prop) : Connective → List α → Prop
  | .all, items => ∀ item ∈ items, holds item
  | .any, items => ∃ item ∈ items, holds item

namespace Connective

variable {holds : α → Prop}

theorem joins_nil {connective : Connective} :
    connective.Joins holds [] ↔ connective = .all := by
  cases connective <;> simp [Joins]

theorem joins_singleton {connective : Connective} {item : α} :
    connective.Joins holds [item] ↔ holds item := by
  cases connective <;> simp [Joins]

theorem joins_map {connective : Connective} {change : β → α} {items : List β} :
    connective.Joins holds (items.map change) ↔
      connective.Joins (fun item => holds (change item)) items := by
  cases connective <;> simp [Joins]

theorem joins_congr {connective : Connective} {other : α → Prop}
    {items : List α} (h : ∀ item ∈ items, (holds item ↔ other item)) :
    connective.Joins holds items ↔ connective.Joins other items := by
  cases connective with
  | all => exact forall₂_congr h
  | any => exact exists_congr fun item => and_congr_right (h item)

theorem joins_forall₂ {connective : Connective} {other : β → Prop}
    {items : List α} {others : List β}
    (h : List.Forall₂ (fun item another => holds item ↔ other another) items
      others) :
    connective.Joins holds items ↔ connective.Joins other others := by
  induction h with
  | nil => rw [joins_nil, joins_nil]
  | cons hitem _ ih =>
      cases connective with
      | all =>
          simp only [Joins, List.forall_mem_cons] at ih ⊢
          rw [hitem, ih]
      | any =>
          simp only [Joins, List.mem_cons, exists_eq_or_imp] at ih ⊢
          rw [hitem, ih]

end Connective

namespace Clause

/-- A term clause asks every one of its fields for one of the values given with
it. -/
def Matches (record : Record) : Clause → Prop
  | .terms fields =>
      ∀ entry ∈ fields.entries, ∃ value ∈ entry.2, value ∈ record entry.1
  | .bool .all clauses => ∀ clause ∈ clauses, clause.Matches record
  | .bool .any clauses =>
      ∃ clause, ∃ _ : clause ∈ clauses, clause.Matches record

variable {record : Record}

theorem matches_single {field : String} {values : List String} :
    (terms (.single field values)).Matches record ↔
      ∃ value ∈ values, value ∈ record field := by
  simp [Matches]

theorem matches_bool {connective : Connective} {clauses : List Clause} :
    (bool connective clauses).Matches record ↔
      connective.Joins (fun clause => clause.Matches record) clauses := by
  cases connective <;> simp [Matches, Connective.Joins]

end Clause

namespace QueryNode

@[elab_as_elim, induction_eliminator]
theorem induction {motive : QueryNode → Prop}
    (term : ∀ field values, motive (.term field values))
    (combine : ∀ connective clauses, (∀ node ∈ clauses, motive node) →
      motive (.combine connective clauses)) : ∀ node, motive node
  | .term field values => term field values
  | .combine connective clauses => combine connective clauses fun node _ =>
      induction term combine node

/-- The query holds of the texts of each field, and of a field that is still
open. -/
def Holds (texts : Option String → Set String) : QueryNode → Prop
  | .term field values => ∃ value ∈ values, value ∈ texts field
  | .combine .all clauses => ∀ node ∈ clauses, node.Holds texts
  | .combine .any clauses => ∃ node, ∃ _ : node ∈ clauses, node.Holds texts

/-- The texts of a record. There is none in a field that is still open. -/
def Matches (record : Record) (node : QueryNode) : Prop :=
  node.Holds fun field => field.elim ∅ record

variable {texts : Option String → Set String}

theorem holds_term {field : Option String} {values : List String} :
    (term field values).Holds texts ↔
      ∃ value ∈ values, value ∈ texts field := by
  rw [Holds]

theorem holds_combine {connective : Connective} {clauses : List QueryNode} :
    (combine connective clauses).Holds texts ↔
      connective.Joins (fun node => node.Holds texts) clauses := by
  cases connective <;> simp [Holds, Connective.Joins]

theorem matches_term {record : Record} {field : String} {values : List String} :
    (term (some field) values).Matches record ↔
      ∃ value ∈ values, value ∈ record field := by
  rw [Matches, holds_term]
  rfl

theorem matches_combine {record : Record} {connective : Connective}
    {clauses : List QueryNode} :
    (combine connective clauses).Matches record ↔
      connective.Joins (fun node => node.Matches record) clauses :=
  holds_combine

theorem holds_withField {field : String} {node : QueryNode} :
    (node.withField field).Holds texts ↔
      node.Holds fun _ => texts (some field) := by
  induction node with
  | term _ values => rw [withField, holds_term, holds_term]
  | combine connective clauses ih =>
      rw [withField, holds_combine, holds_combine, Connective.joins_map]
      exact Connective.joins_congr ih

/-! Evaluation keeps the meaning, whatever single clauses it takes out of their
combinations. -/

def IsSet : QueryNode → Prop
  | .term field _ => field ≠ none
  | .combine _ clauses => ∀ node ∈ clauses, node.IsSet

theorem isSet_withField (field : String) (node : QueryNode) :
    (node.withField field).IsSet := by
  induction node with
  | term _ values => simp [withField, IsSet]
  | combine connective clauses ih => simpa [withField, IsSet] using ih

theorem evalAll_eq_mapM (nodes : List QueryNode) :
    evalAll nodes = nodes.mapM eval := by
  induction nodes with
  | nil => rfl
  | cons node nodes ih =>
      rw [evalAll, List.mapM_cons, ih]
      cases node.eval with
      | error violation => rfl
      | ok clause => cases nodes.mapM eval <;> rfl

theorem eval_combine {connective : Connective} {clauses : List QueryNode}
    (h : ∀ only, clauses ≠ [only]) :
    (combine connective clauses).eval =
      (clauses.mapM eval).map (.bool connective) := by
  rw [eval, evalAll_eq_mapM]
  exact h

/-- What holds of a node and its clause is proved along the evaluation: of a
term match with a field, of the only clause of a combination, and of all clauses
of any other. -/
@[elab_as_elim]
theorem eval_induction
    {motive : (node : QueryNode) → (clause : Clause) →
      node.eval = .ok clause → Prop}
    (term : ∀ field values,
      motive (.term (some field) values) (.terms (.single field values))
        (by rw [eval]))
    (single : ∀ connective only clause (h : only.eval = .ok clause),
      motive only clause h →
      motive (.combine connective [only]) clause
        ((eval_singleton connective only).trans h))
    (combine : ∀ connective nodes clauses
      (h : (QueryNode.combine connective nodes).eval =
        .ok (.bool connective clauses)),
      nodes.length ≠ 1 →
      List.Forall₂ (fun node clause => ∃ h, motive node clause h) nodes
        clauses →
      motive (.combine connective nodes) (.bool connective clauses) h)
    {node : QueryNode} {clause : Clause} (h : node.eval = .ok clause) :
    motive node clause h := by
  induction node generalizing clause with
  | term field values =>
      cases field with
      | none =>
          rw [eval] at h
          cases h
      | some field =>
          have hclause := h
          rw [eval] at hclause
          cases hclause
          exact term field values
  | combine connective nodes ih =>
      by_cases hsingle : ∃ only, nodes = [only]
      · obtain ⟨only, rfl⟩ := hsingle
        have honly := (eval_singleton connective only).symm.trans h
        exact single connective only clause honly
          (ih only List.mem_cons_self honly)
      · obtain ⟨clauses, hnodes, rfl⟩ :=
          map_eq_ok_iff.mp ((eval_combine (not_exists.mp hsingle)).symm.trans h)
        refine combine connective nodes clauses h ?_ ?_
        · rwa [Ne, List.length_eq_one_iff]
        · have hall := (List.forall₂_and_left nodes clauses).mpr
            ⟨fun node hmem clause => @ih node hmem clause,
              mapM_eq_ok_iff.mp hnodes⟩
          exact hall.imp fun node clause hnode =>
            ⟨hnode.2, hnode.1 clause hnode.2⟩

theorem matches_of_eval {node : QueryNode} {clause : Clause}
    (h : node.eval = .ok clause) (record : Record) :
    clause.Matches record ↔ node.Matches record := by
  induction h using eval_induction with
  | term field values => rw [Clause.matches_single, matches_term]
  | single connective only clause _ ih =>
      rw [ih, matches_combine, Connective.joins_singleton]
  | combine connective nodes clauses _ _ hall =>
      rw [Clause.matches_bool, matches_combine]
      refine Connective.joins_forall₂
        (hall.flip.imp fun clause node hmatches => ?_)
      obtain ⟨-, hmatches⟩ := hmatches
      exact hmatches

theorem exists_eval_of_isSet {node : QueryNode} (h : node.IsSet) :
    ∃ clause, node.eval = .ok clause := by
  induction node with
  | term field values =>
      cases field with
      | none => simp [IsSet] at h
      | some field => exact ⟨.terms (.single field values), by rw [eval]⟩
  | combine connective nodes ih =>
      rw [IsSet] at h
      by_cases hsingle : ∃ only, nodes = [only]
      · obtain ⟨only, rfl⟩ := hsingle
        rw [eval_singleton]
        exact ih only List.mem_cons_self (h only List.mem_cons_self)
      · rw [eval_combine (not_exists.mp hsingle)]
        cases hnodes : nodes.mapM eval with
        | ok clauses => exact ⟨.bool connective clauses, rfl⟩
        | error violation =>
            obtain ⟨before, node, after, rfl, -, hfails⟩ :=
              mapM_eq_error_iff.mp hnodes
            have hmem : node ∈ before ++ node :: after :=
              List.mem_append_right before List.mem_cons_self
            obtain ⟨clause, heval⟩ := ih node hmem (h node hmem)
            cases heval.symm.trans hfails

theorem eval_of_isSet {node : QueryNode} (h : node.IsSet) :
    ∃ clause, node.eval = .ok clause ∧
      ∀ record, clause.Matches record ↔ node.Matches record := by
  obtain ⟨clause, heval⟩ := exists_eval_of_isSet h
  exact ⟨clause, heval, matches_of_eval heval⟩

theorem distribute_eq_ok {fields : List String} (h : fields ≠ [])
    (conditions : List QueryNode) :
    ∃ node, distribute fields conditions = .ok node ∧
      node.IsSet ∧
      ∀ texts, node.Holds texts ↔
        ∃ field ∈ fields,
          ∀ condition ∈ conditions,
            condition.Holds fun _ => texts (some field) := by
  refine ⟨_, if_neg (by simp [h]), ?_, ?_⟩
  · simp [IsSet, isSet_withField]
  · intro texts
    simp only [holds_combine, Connective.joins_map, holds_withField]
    rfl

end QueryNode

end TermSearch
