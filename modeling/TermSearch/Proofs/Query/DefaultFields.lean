import TermSearch.Proofs.Grammar.GroupStart
import TermSearch.Proofs.Grammar.Shift
import TermSearch.Proofs.Query.Shape

namespace TermSearch

/-! The default fields, written out. A group that names no field is searched in
the default fields, as if it named them; and naming them before the first group
changes nothing in how the rest of the text is read but the positions. -/

namespace Grammar

theorem isSolid_of_condition {start stop : Cursor} {value : Condition}
    (h : (condition start).result = some (value, stop)) :
    Written.IsSolid start.rest := by
  obtain ⟨hquoted | ⟨-, hraw⟩, -⟩ := condition_eq_some_iff.mp h
  · obtain ⟨quote, body, text, hquote, -, hreads, -⟩ :=
      quotedString_eq_some_iff.mp hquoted
    rw [hreads.rest]
    rcases hquote with rfl | rfl <;> simp [Written.IsSolid, isSpace]
  · obtain ⟨hrun, -⟩ := rawCondition_eq_some_iff.mp hraw
    rw [← start.run_append_afterRun isTermChar]
    refine Written.IsSolid.append (fun c hc => ?_) hrun _
    exact ((isTermChar_iff c).mp
      (start.all_run isTermChar c (List.mem_of_mem_head? hc))).1

end Grammar

open Grammar

/-- The group with so many bytes of field names before it, at the start of a
text. -/
def QueryGroup.withFields (offset : Nat) (list : FieldList)
    (group : QueryGroup) : QueryGroup :=
  ⟨some list, group.conditions.shift offset, ⟨0, offset + group.span.stop⟩⟩

/-- Fields before a text whose first group names none become the fields of that
group. -/
theorem parse_fields_append {input : String} {tree : SyntaxTree}
    (h : SyntaxTree.parse input = .ok tree)
    (hfirst : ∀ group ∈ tree.groups.head?, group.fields = none)
    (fields : Written.Fields) :
    let offset := byteSize fields.render
    ∃ first others list, tree.groups = first :: others ∧
      first.fields = none ∧
      list.content = fields.content ∧
      SyntaxTree.parse (String.ofList (fields.render ++ input.toList)) =
        .ok ⟨first.withFields offset list ::
          others.map (QueryGroup.shift offset),
          ⟨0, offset + tree.span.stop⟩⟩ := by
  intro offset
  obtain ⟨stop, hresult⟩ := parse_eq_ok_iff.mp h
  obtain ⟨next, hgroups, hspan, rfl, hend⟩ := andQueries_eq_some_iff.mp hresult
  obtain ⟨first, middle, others, hgroup, hothers, htree⟩ :=
    (Rule.separated_eq_some_iff takes_space_andQuery).mp hgroups
  have hplain : first.fields = none := hfirst first (by rw [htree]; rfl)
  obtain ⟨hfirstSpan, ⟨list, _, -, hlist, -⟩ | ⟨-, -, hconditions⟩⟩ :=
    andQuery_eq_some_iff.mp hgroup
  · cases hplain.symm.trans hlist
  have hsolid : Written.IsSolid input.toList := by
    obtain ⟨_, -, _, -, _, hcondition⟩ :=
      exists_first_of_andConditions hconditions
    exact isSolid_of_condition hcondition
  obtain ⟨list, hfield, hcontent⟩ := fields.readsAs hsolid 0
  rw [Nat.zero_add] at hfield
  refine ⟨first, others, list, htree, hplain, hcontent, parse_eq_ok_iff.mpr
    ⟨(next.afterRun isSpace).shift offset, andQueries_eq_some_iff.mpr
      ⟨next.shift offset, ?_, ?_, ?_, hend⟩⟩⟩
  · rw [Cursor.ofText, String.toList_ofList]
    have hmiddle := shifts_andConditions.eq_some hconditions offset
    have hnamed : (andQuery ⟨0, fields.render ++ input.toList⟩).result =
        some (first.withFields offset list, middle.shift offset) := by
      refine andQuery_eq_some_iff.mpr ⟨?_, .inl ⟨list, _, hfield, rfl, hmiddle⟩⟩
      rw [QueryGroup.withFields, hfirstSpan]
      rfl
    exact (Rule.separated_eq_some_iff takes_space_andQuery).mpr ⟨_, _, _,
      hnamed, hothers.further_shift shifts_andQuery shifts_space offset, rfl⟩
  · rw [hspan]
    rfl
  · exact (Cursor.afterRun_shift offset next isSpace).symm

/-! The query of a text does not show the positions. -/

theorem Condition.text_shift (offset : Nat) (condition : Condition) :
    (condition.shift offset).text = condition.text := by
  cases condition <;> rfl

namespace QueryGroup

variable (offset : Nat) (group : QueryGroup)

theorem fieldNames_shift (defaultFields : List String) :
    (group.shift offset).fieldNames defaultFields =
      group.fieldNames defaultFields := by
  unfold fieldNames shift
  cases group.fields with
  | none => rfl
  | some list =>
      change (list.fields.map (FieldName.shift offset)).map FieldName.name = _
      rw [List.map_map]
      rfl

/-- What counts are the fields of the group and the texts of its conditions. -/
theorem node_congr {group other : QueryGroup} {defaultFields : List String}
    (hfields : group.fieldNames defaultFields = other.fieldNames defaultFields)
    (hconditions : group.conditions = other.conditions.shift offset) :
    group.node defaultFields = other.node defaultFields := by
  have htexts (orGroup : OrGroup) :
      (orGroup.shift offset).conditions.map Condition.text =
        orGroup.conditions.map Condition.text := by
    rw [OrGroup.shift, List.map_map]
    exact List.map_congr_left fun condition _ => condition.text_shift offset
  unfold node
  rw [hfields, hconditions, Conditions.shift]
  simp only [List.map_map, Function.comp_def, htexts]

theorem node_shift (defaultFields : List String) :
    (group.shift offset).node defaultFields = group.node defaultFields :=
  node_congr offset (group.fieldNames_shift offset defaultFields) rfl

theorem node_withFields {group : QueryGroup} (h : group.fields = none)
    (list : FieldList) :
    (group.withFields offset list).node list.content =
      group.node list.content := by
  refine node_congr offset ?_ rfl
  rw [fieldNames, fieldNames, h]
  rfl

end QueryGroup

namespace Translator

variable {translator : Translator} {input : String}

theorem query_eq_node {tree : SyntaxTree}
    (hdefaults : translator.defaultFields ≠ [])
    (h : SyntaxTree.parse input = .ok tree) :
    translator.query input =
      .ok ⟨tree.node translator.defaultFields, translator.page⟩ := by
  obtain ⟨query, hquery, -⟩ := query_of_parse h (.inl hdefaults)
  obtain ⟨other, hother, rfl⟩ := exists_tree_of_query hquery
  cases h.symm.trans hother
  exact hquery

/-- If the first group of a query names no field, the default fields can be
named in front of the query, whatever groups follow. -/
theorem query_fields_append (hdefaults : translator.defaultFields ≠ [])
    (hnames : ∀ name ∈ translator.defaultFields, isIdentifier name = true)
    {tree : SyntaxTree} (h : SyntaxTree.parse input = .ok tree)
    (hfirst : ∀ group ∈ tree.groups.head?, group.fields = none) :
    ∃ query document, translator.query input = .ok query ∧
      translator.query
          (",".intercalate translator.defaultFields ++ ": " ++ input) =
        .ok query ∧
      translator.translate input = .ok document ∧
      translator.translate
          (",".intercalate translator.defaultFields ++ ": " ++ input) =
        .ok document := by
  obtain ⟨fields, hcontent, hrender, hgap⟩ :=
    Written.Fields.exists_of_names hdefaults hnames ⟨[' '], by simp [isSpace]⟩
  obtain ⟨first, others, list, htree, hplain, hlist, hnamed⟩ :=
    parse_fields_append h hfirst fields
  have htext : String.ofList (fields.render ++ input.toList) =
      ",".intercalate translator.defaultFields ++ ": " ++ input := by
    rw [Written.Fields.render, hrender, hgap]
    apply String.toList_injective
    simp
  rw [htext] at hnamed
  rw [hcontent] at hlist
  have hgroups : (first.withFields (byteSize fields.render) list ::
      others.map (QueryGroup.shift (byteSize fields.render))).map
        (QueryGroup.node translator.defaultFields) =
      tree.groups.map (QueryGroup.node translator.defaultFields) := by
    rw [htree, List.map_cons, List.map_cons, List.map_map, ← hlist,
      QueryGroup.node_withFields _ hplain]
    exact congrArg (List.cons _)
      (List.map_congr_left fun group _ => QueryGroup.node_shift _ group _)
  have hquery := query_eq_node hdefaults h
  have hnamedQuery := query_eq_node hdefaults hnamed
  rw [SyntaxTree.node, hgroups, ← SyntaxTree.node] at hnamedQuery
  obtain ⟨document, hdocument, -⟩ := translate_of_query hquery
  refine ⟨_, document, hquery, hnamedQuery, hdocument, ?_⟩
  rw [← hdocument, translate_eq_of_query hquery,
    translate_eq_of_query hnamedQuery]

/-- A quoted condition first, then a group with fields of its own, then a loose
`or`. -/
theorem query_fields_append_three_groups :
    let translator : Translator := ⟨["title", "meta.tag"], .standard⟩
    translator.defaultFields ≠ [] ∧
      (∀ name ∈ translator.defaultFields, isIdentifier name = true) ∧
      (∃ tree, SyntaxTree.parse "'a b' c and d x:e or " = .ok tree ∧
        tree.groups.length = 3 ∧
        ∀ group ∈ tree.groups.head?, group.fields = none) ∧
      ∃ query, translator.query "'a b' c and d x:e or " = .ok query ∧
        translator.query "title,meta.tag: 'a b' c and d x:e or " =
          .ok query := by
  intro translator
  have hdefaults : translator.defaultFields ≠ [] := by decide
  have hnames :
      ∀ name ∈ translator.defaultFields, isIdentifier name = true := by
    simp [translator, isIdentifier, isIdentifierChar]
  have hparse : SyntaxTree.parse "'a b' c and d x:e or " =
      .ok ⟨[⟨none,
        ⟨[⟨[.quoted "a b" '\'' ⟨0, 5⟩, .raw "c" ⟨6, 7⟩], ⟨0, 7⟩⟩,
          ⟨[.raw "d" ⟨12, 13⟩], ⟨12, 13⟩⟩], ⟨0, 13⟩⟩, ⟨0, 13⟩⟩,
        ⟨some ⟨[⟨"x", ⟨14, 15⟩⟩], ⟨14, 16⟩⟩,
          ⟨[⟨[.raw "e" ⟨16, 17⟩], ⟨16, 17⟩⟩], ⟨16, 17⟩⟩, ⟨14, 17⟩⟩,
        ⟨none, ⟨[⟨[.raw "or" ⟨18, 20⟩], ⟨18, 20⟩⟩], ⟨18, 20⟩⟩, ⟨18, 20⟩⟩],
        ⟨0, 20⟩⟩ := by
    decide +kernel
  obtain ⟨query, -, hquery, hnamed, -⟩ :=
    query_fields_append hdefaults hnames hparse (by simp)
  exact ⟨hdefaults, hnames, ⟨_, hparse, rfl, by simp⟩, query, hquery, hnamed⟩

end Translator

end TermSearch
