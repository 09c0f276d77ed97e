import TermSearch.Config.Basic
import TermSearch.Proofs.Grammar.ReadBack
import TermSearch.Proofs.Grammar.Lossless

namespace TermSearch

/-! Which names can be fields. A name can stand before a colon exactly if it is
an identifier, so a default field that is none could never be written in a
query. -/

def SyntaxTree.HasField (tree : SyntaxTree) (name : String) : Prop :=
  ∃ group ∈ tree.groups, ∃ list, group.fields = some list ∧
    ∃ field ∈ list.fields, field.name = name

theorem isIdentifier_of_hasField {input name : String} {tree : SyntaxTree}
    (h : SyntaxTree.parse input = .ok tree) (hfield : tree.HasField name) :
    isIdentifier name = true := by
  obtain ⟨group, hgroup, list, hlist, field, hmem, rfl⟩ := hfield
  obtain ⟨_, hresult⟩ := Grammar.parse_eq_ok_iff.mp h
  obtain ⟨-, -, hgroups, -⟩ :=
    Grammar.andQueries_lossless (Cursor.isIn_ofText input) hresult
  have hfilled := (hgroups group hgroup).filled.2
  rw [hlist] at hfilled
  obtain ⟨-, hlossless, -⟩ := hfilled
  exact (hlossless.fields field hmem).2

/-- The name before a colon and a term is a field of that query, even if it is a
word that joins conditions. -/
theorem exists_hasField {name : String} (h : isIdentifier name = true) :
    ∃ input tree, SyntaxTree.parse input = .ok tree ∧ tree.HasField name := by
  let gap : Written.Gap := ⟨[], by simp⟩
  obtain ⟨fields, hcontent, -⟩ :=
    Written.Fields.exists_of_names (List.cons_ne_nil name [])
      (by simpa using h) gap
  let term : Written.Token :=
    ⟨['x'], by simp, by simp [isTermChar, isSpace], by decide,
      by decide, by simp [IsQuote]⟩
  let query : Written.Query :=
    ⟨.prefixed ⟨fields, ⟨⟨.bare term, []⟩, []⟩⟩, [], gap⟩
  obtain ⟨tree, hresult, htree⟩ := query.readsAs 0
  rw [List.append_nil] at hresult
  refine ⟨query.render, tree, Grammar.parse_eq_ok_iff.mpr ⟨_, hresult⟩, ?_⟩
  obtain ⟨group, hgroup, hgroupContent⟩ := List.map_eq_singleton_iff.mp htree
  obtain ⟨list, hlist, hnames⟩ :=
    Option.map_eq_some_iff.mp (congrArg GroupContent.fields hgroupContent)
  obtain ⟨field, hfield, hname⟩ :=
    List.map_eq_singleton_iff.mp (hnames.trans hcontent)
  exact ⟨group, by simp [hgroup], list, hlist, field, by simp [hfield], hname⟩

namespace Config

theorem invalidFieldName_mem_fieldWarnings {before fields : List String}
    {name : String} :
    .invalidFieldName name ∈ fieldWarnings before fields ↔
      name ∈ fields ∧ isIdentifier name = false := by
  induction fields generalizing before with
  | nil => simp [fieldWarnings]
  | cons field fields ih =>
      have hinvalid : .invalidFieldName name ∈
          (if isIdentifier field then [] else
            [Warning.invalidFieldName field]) ↔
          name = field ∧ isIdentifier name = false := by
        split
        · simp_all
        · rw [List.mem_singleton, Warning.invalidFieldName.injEq]
          exact ⟨fun heq => ⟨heq, by simp_all⟩, And.left⟩
      have hrepeated : .invalidFieldName name ∉
          (if before.count field = 1 then [Warning.duplicateField field]
          else []) := by
        split <;> simp
      rw [fieldWarnings, isFieldName_eq_isIdentifier,
        List.mem_append, List.mem_append, hinvalid, ih, List.mem_cons,
        or_iff_left hrepeated, or_and_right]

/-- Of the default fields exactly those are reported as invalid that are a field
of no query. -/
theorem invalidFieldName_mem_warnings_iff (config : Config) (name : String) :
    .invalidFieldName name ∈ config.warnings ↔
      name ∈ config.defaultFields ∧
        ¬ ∃ input tree, SyntaxTree.parse input = .ok tree ∧
          tree.HasField name := by
  have hfields :
      (∃ input tree, SyntaxTree.parse input = .ok tree ∧ tree.HasField name) ↔
        isIdentifier name = true := by
    constructor
    · rintro ⟨input, tree, hparse, hfield⟩
      exact isIdentifier_of_hasField hparse hfield
    · exact exists_hasField
  have hwarnings : .invalidFieldName name ∈ config.warnings ↔
      .invalidFieldName name ∈ fieldWarnings [] config.defaultFields := by
    rw [warnings, List.mem_append, List.mem_append]
    split <;> split <;> simp
  rw [hwarnings, invalidFieldName_mem_fieldWarnings, hfields, Bool.not_eq_true]

end Config

end TermSearch
