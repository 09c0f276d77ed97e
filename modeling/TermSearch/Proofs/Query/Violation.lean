import TermSearch.Proofs.Query.Translation

namespace TermSearch

/-! Which errors a translation can have. The parts of it promise each other
nodes that are not empty, fields that are set and fields to spread over.
Whatever is read keeps all of these promises but the last, which is broken by a
group without a prefix if there are no default fields. -/

namespace QueryGroup

variable {group : QueryGroup} {defaultFields : List String}

theorem IsFull.fieldNames_eq_nil_iff (h : group.IsFull) :
    group.fieldNames defaultFields = [] ↔
      defaultFields = [] ∧ group.fields = none := by
  unfold fieldNames
  cases hfields : group.fields with
  | none => simp
  | some list => simpa using h.fields list hfields

theorem IsFull.toNode_eq_error (h : group.IsFull)
    (hnames : group.fieldNames defaultFields = []) :
    group.toNode defaultFields = .error .noFields := by
  obtain ⟨conditions, heq, -⟩ := h.toNode_eq_distribute defaultFields
  rw [heq, QueryNode.distribute_eq_error_iff]
  exact hnames

end QueryGroup

theorem SyntaxTree.toQuery_eq_error {tree : SyntaxTree}
    {defaultFields : List String}
    (hfull : ∀ group ∈ tree.groups, group.IsFull)
    (hnames : ∃ group ∈ tree.groups, group.fieldNames defaultFields = []) :
    tree.toQuery defaultFields = .error .noFields := by
  have hgroups : ∀ group ∈ tree.groups,
      group.toNode defaultFields = .error .noFields ∨
        ∃ node, group.toNode defaultFields = .ok node := by
    intro group hmem
    by_cases hgroup : group.fieldNames defaultFields = []
    · exact .inl ((hfull group hmem).toNode_eq_error hgroup)
    · obtain ⟨node, hnode, -⟩ := (hfull group hmem).toNode hgroup
      exact .inr ⟨node, hnode⟩
  obtain ⟨group, hmem, hgroup⟩ := hnames
  have hfails := mapM_eq_error hgroups
    ⟨group, hmem, (hfull group hmem).toNode_eq_error hgroup⟩
  rw [toQuery, if_neg (by simp [List.ne_nil_of_mem hmem]), hfails]
  rfl

namespace Translator

variable {translator : Translator} {input : String}

theorem query_of_parse_error {error : SyntaxError}
    (h : SyntaxTree.parse input = .error error) :
    translator.query input = .error (.input error) := by
  unfold Translator.query
  generalize SyntaxTree.parse input = parsed at h
  subst h
  rfl

theorem query_of_toQuery_error {tree : SyntaxTree}
    {violation : ContractViolation} (h : SyntaxTree.parse input = .ok tree)
    (hquery : tree.toQuery translator.defaultFields = .error violation) :
    translator.query input = .error (.internal violation) := by
  unfold Translator.query
  generalize SyntaxTree.parse input = parsed at h
  subst h
  simp only [hquery]

/-- What a text comes to: the error of one that cannot be read, the one promise
that an accepted text can break, or a query with the meaning of its groups. -/
theorem query_cases (translator : Translator) (input : String) :
    (∃ error, SyntaxTree.parse input = .error error ∧
        translator.query input = .error (.input error)) ∨
      (∃ tree, SyntaxTree.parse input = .ok tree ∧
        (translator.defaultFields = [] ∧
          ∃ group ∈ tree.groups, group.fields = none) ∧
        translator.query input = .error (.internal .noFields)) ∨
      (∃ tree, SyntaxTree.parse input = .ok tree ∧
        ¬(translator.defaultFields = [] ∧
          ∃ group ∈ tree.groups, group.fields = none) ∧
        ∃ query, translator.query input = .ok query ∧
          query.root.IsSet ∧
          ∀ record, query.root.Matches record ↔
            ∀ group ∈ tree.groups,
              group.Matches translator.defaultFields record) := by
  cases hparse : SyntaxTree.parse input with
  | error error => exact .inl ⟨error, rfl, query_of_parse_error hparse⟩
  | ok tree =>
      obtain ⟨hgroups, hfull⟩ := isFull_of_parse hparse
      by_cases hnames :
          ∃ group ∈ tree.groups, group.fieldNames translator.defaultFields = []
      · obtain ⟨group, hmem, hgroup⟩ := hnames
        obtain ⟨hdefaults, hfields⟩ :=
          (hfull group hmem).fieldNames_eq_nil_iff.mp hgroup
        have hquery := SyntaxTree.toQuery_eq_error hfull ⟨group, hmem, hgroup⟩
        exact .inr (.inl ⟨tree, rfl, ⟨hdefaults, group, hmem, hfields⟩,
          query_of_toQuery_error hparse hquery⟩)
      · obtain ⟨query, hquery, hset, hmatches⟩ :=
          SyntaxTree.toQuery_of_fieldNames hgroups hfull
            fun group hmem hgroup => hnames ⟨group, hmem, hgroup⟩
        refine .inr (.inr ⟨tree, rfl, ?_, query.withPage translator.page,
          query_eq_of_parse hparse hquery, hset, hmatches⟩)
        rintro ⟨hdefaults, group, hmem, hfields⟩
        exact hnames ⟨group, hmem, (hfull group hmem).fieldNames_eq_nil_iff.mpr
          ⟨hdefaults, hfields⟩⟩

theorem query_of_parse {tree : SyntaxTree}
    (h : SyntaxTree.parse input = .ok tree)
    (hfields : translator.defaultFields ≠ [] ∨
      ∀ group ∈ tree.groups, group.fields ≠ none) :
    ∃ query, translator.query input = .ok query ∧
      ∀ record, query.root.Matches record ↔
        ∀ group ∈ tree.groups,
          group.Matches translator.defaultFields record := by
  rcases query_cases translator input with
    ⟨error, hparse, -⟩ | ⟨other, hparse, ⟨hdefaults, group, hmem, hgroup⟩, -⟩ |
      ⟨other, hparse, -, query, hquery, -, hmatches⟩
  · rw [h] at hparse
    contradiction
  · cases h.symm.trans hparse
    exact absurd hgroup
      (hfields.resolve_left (not_not_intro hdefaults) group hmem)
  · cases h.symm.trans hparse
    exact ⟨query, hquery, hmatches⟩

theorem isSet_of_query {query : SearchQuery}
    (h : translator.query input = .ok query) : query.root.IsSet := by
  rcases query_cases translator input with
    ⟨error, -, herror⟩ | ⟨tree, -, -, herror⟩ | ⟨tree, -, -, other,
      hother, hset, -⟩
  · rw [h] at herror
    contradiction
  · rw [h] at herror
    contradiction
  · rw [h] at hother
    cases hother
    exact hset

theorem translate_of_query_error {error : QueryError}
    (h : translator.query input = .error error) :
    translator.translate input = .error error := by
  unfold translate
  generalize translator.query input = result at h
  subst h
  rfl

theorem translate_of_query {query : SearchQuery}
    (h : translator.query input = .ok query) :
    ∃ document, translator.translate input = .ok document ∧
      ∀ record, document.query.Matches record ↔ query.root.Matches record := by
  obtain ⟨clause, heval, hmatches⟩ := QueryNode.eval_of_isSet (isSet_of_query h)
  refine ⟨⟨query.page, clause⟩, ?_, hmatches⟩
  rw [translate_eq_of_query h, SearchQuery.eval, heval]
  rfl

/-- The error of the reader is passed on, no promise but that of a field is ever
broken, and that one exactly by a group without a prefix in the absence of
default fields. -/
theorem translate_eq_error_iff (translator : Translator) (input : String) :
    (∀ error, translator.translate input = .error (.input error) ↔
        SyntaxTree.parse input = .error error) ∧
      (∀ violation, translator.translate input = .error (.internal violation) ↔
        violation = .noFields ∧
          translator.defaultFields = [] ∧
          ∃ tree, SyntaxTree.parse input = .ok tree ∧
            ∃ group ∈ tree.groups, group.fields = none) ∧
      ((∃ document, translator.translate input = .ok document) ↔
        ∃ tree, SyntaxTree.parse input = .ok tree ∧
          (translator.defaultFields ≠ [] ∨
            ∀ group ∈ tree.groups, group.fields ≠ none)) := by
  rcases query_cases translator input with
    ⟨error, hparse, hquery⟩ | ⟨tree, hparse, hopen, hquery⟩ |
      ⟨tree, hparse, hclosed, query, hquery, -⟩
  · simp [hparse, translate_of_query_error hquery]
  · simp only [hparse, translate_of_query_error hquery]
    grind
  · obtain ⟨document, htranslate, -⟩ := translate_of_query hquery
    simp only [hparse, htranslate]
    grind

end Translator

end TermSearch
