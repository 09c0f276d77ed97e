import TermSearch.Proofs.Grammar.Production

namespace TermSearch

/-! What a query says, and the ways to write it. The content of a tree leaves
the spans out. A written query is a content in which every choice of space has
been made. -/

inductive Term where
  | raw (text : String)
  | quoted (text : String) (quote : Char)
  deriving DecidableEq, Repr

structure GroupContent where
  fields : Option (List String)
  conditions : List (List Term)
  deriving DecidableEq, Repr

def Condition.content : Condition → Term
  | .raw text _ => .raw text
  | .quoted text quote _ => .quoted text quote

def OrGroup.content (group : OrGroup) : List Term :=
  group.conditions.map Condition.content

def Conditions.content (conditions : Conditions) : List (List Term) :=
  conditions.groups.map OrGroup.content

def FieldList.content (list : FieldList) : List String :=
  list.fields.map FieldName.name

def QueryGroup.content (group : QueryGroup) : GroupContent :=
  ⟨group.fields.map FieldList.content, group.conditions.content⟩

def SyntaxTree.content (tree : SyntaxTree) : List GroupContent :=
  tree.groups.map QueryGroup.content

namespace Written

structure Blank where
  text : List Char
  isBlank : IsBlank text

structure Gap where
  text : List Char
  all_isSpace : ∀ c ∈ text, isSpace c = true

/-- A term that needs no quotes. Without the last three conditions the word
would join or-groups or conditions, or open a quoted string. -/
structure Token where
  text : List Char
  ne_nil : text ≠ []
  all_isTermChar : ∀ c ∈ text, isTermChar c = true
  ne_and : text ≠ reservedWord
  ne_or : text ≠ ['o', 'r']
  not_isQuote_head : ∀ c ∈ text.head?, ¬ IsQuote c

inductive Quote where
  | double
  | single

def Quote.char : Quote → Char
  | .double => '"'
  | .single => '\''

theorem Quote.isQuote_char (quote : Quote) : IsQuote quote.char := by
  cases quote
  · exact .inl rfl
  · exact .inr rfl

/-- A backslash before every quote and before every backslash. -/
def escape (quote : Char) (text : List Char) : List Char :=
  text.flatMap fun c => if c = quote ∨ c = '\\' then ['\\', c] else [c]

theorem escapedAs_escape (quote : Char) (text : List Char) :
    EscapedAs quote (escape quote text) text := by
  induction text with
  | nil => exact .nil
  | cons c text ih =>
      rw [escape, List.flatMap_cons]
      split
      · exact .escape c ih
      · rename_i hplain
        rw [not_or] at hplain
        exact .plain hplain.1 hplain.2 ih

example :
    escape '"' "say \"a\\b\"".toList = "say \\\"a\\\\b\\\"".toList := by decide

inductive Operand where
  | bare (token : Token)
  | quoted (quote : Quote) (text : String)

namespace Operand

def render : Operand → List Char
  | .bare token => token.text
  | .quoted quote text =>
      [quote.char] ++ (escape quote.char text.toList ++ [quote.char])

def content : Operand → Term
  | .bare token => .raw (String.ofList token.text)
  | .quoted quote text => .quoted text quote.char

end Operand

structure Row (σ α : Type) where
  first : α
  further : List (σ × α)

namespace Row

def items (row : Row σ α) : List α :=
  row.first :: row.further.map (·.2)

def renderFurther (separator : σ → List Char) (item : α → List Char) :
    List (σ × α) → List Char
  | [] => []
  | (between, value) :: further =>
      separator between ++ (item value ++ renderFurther separator item further)

def render (separator : σ → List Char) (item : α → List Char) (row : Row σ α) :
    List Char :=
  item row.first ++ renderFurther separator item row.further

end Row

/-- Space alone already means "or". -/
inductive OrSeparator where
  | blank (space : Blank)
  | word (before after : Blank)

def OrSeparator.render : OrSeparator → List Char
  | .blank space => space.text
  | .word before after => before.text ++ (['o', 'r'] ++ after.text)

structure AndSeparator where
  before : Blank
  after : Blank

def AndSeparator.render (separator : AndSeparator) : List Char :=
  separator.before.text ++ (reservedWord ++ separator.after.text)

abbrev Alternatives := Row OrSeparator Operand

namespace Alternatives

def render (row : Alternatives) : List Char :=
  Row.render OrSeparator.render Operand.render row

def content (row : Alternatives) : List Term :=
  row.items.map Operand.content

end Alternatives

abbrev Requirements := Row AndSeparator Alternatives

namespace Requirements

def render (row : Requirements) : List Char :=
  Row.render AndSeparator.render Alternatives.render row

def content (row : Requirements) : List (List Term) :=
  row.items.map Alternatives.content

end Requirements

structure Identifier where
  text : List Char
  ne_nil : text ≠ []
  all_isIdentifierChar : ∀ c ∈ text, isIdentifierChar c = true

def Identifier.name (identifier : Identifier) : String :=
  String.ofList identifier.text

def Identifier.ofName (name : String) (h : isIdentifier name = true) :
    Identifier where
  text := name.toList
  ne_nil := by
    simp only [isIdentifier, Bool.and_eq_true] at h
    simpa using h.1
  all_isIdentifierChar := by
    simp only [isIdentifier, Bool.and_eq_true] at h
    exact List.all_eq_true.mp h.2

@[simp] theorem Identifier.name_ofName (name : String)
    (h : isIdentifier name = true) : (ofName name h).name = name :=
  String.ofList_toList

structure Fields where
  names : Row Unit Identifier
  gap : Gap

namespace Fields

def renderNames (fields : Fields) : List Char :=
  Row.render (fun _ => [',']) Identifier.text fields.names

def render (fields : Fields) : List Char :=
  fields.renderNames ++ ([':'] ++ fields.gap.text)

def content (fields : Fields) : List String :=
  fields.names.items.map Identifier.name

end Fields

theorem Fields.exists_of_names {names : List String} (hne : names ≠ [])
    (hnames : ∀ name ∈ names, isIdentifier name = true) (gap : Gap) :
    ∃ fields : Fields, fields.content = names ∧
      fields.renderNames = (",".intercalate names).toList ∧
      fields.gap = gap := by
  obtain ⟨name, others, rfl⟩ := List.exists_cons_of_ne_nil hne
  clear hne
  suffices hrow : ∃ row : Row Unit Identifier,
      row.items.map Identifier.name = name :: others ∧
        Row.render (fun _ => [',']) Identifier.text row =
          (",".intercalate (name :: others)).toList by
    obtain ⟨row, hitems, hrender⟩ := hrow
    exact ⟨⟨row, gap⟩, hitems, hrender, rfl⟩
  induction others generalizing name with
  | nil =>
      let first := Identifier.ofName name (hnames name List.mem_cons_self)
      refine ⟨⟨first, []⟩, ?_, ?_⟩
      · simp [Row.items, first]
      · simp [Row.render, Row.renderFurther, first, Identifier.ofName]
  | cons other others ih =>
      obtain ⟨hname, hothers⟩ := List.forall_mem_cons.mp hnames
      obtain ⟨row, hitems, hrender⟩ := ih other hothers
      let first := Identifier.ofName name hname
      refine ⟨⟨first, ((), row.first) :: row.further⟩, ?_, ?_⟩
      · rw [← hitems]
        simp [Row.items, first]
      · rw [String.intercalate_cons_cons, String.toList_append, ← hrender]
        simp [Row.render, Row.renderFurther, first, Identifier.ofName]

structure PrefixedGroup where
  fields : Fields
  conditions : Requirements

namespace PrefixedGroup

def render (group : PrefixedGroup) : List Char :=
  group.fields.render ++ group.conditions.render

def content (group : PrefixedGroup) : GroupContent :=
  ⟨some group.fields.content, group.conditions.content⟩

end PrefixedGroup

/-- Only the first group can do without fields. -/
inductive FirstGroup where
  | plain (conditions : Requirements)
  | prefixed (group : PrefixedGroup)

namespace FirstGroup

def render : FirstGroup → List Char
  | .plain conditions => conditions.render
  | .prefixed group => group.render

def content : FirstGroup → GroupContent
  | .plain conditions => ⟨none, conditions.content⟩
  | .prefixed group => group.content

end FirstGroup

structure Query where
  first : FirstGroup
  further : List (Blank × PrefixedGroup)
  trailing : Gap

namespace Query

def render (query : Query) : String :=
  String.ofList
    (query.first.render ++
      (Row.renderFurther Blank.text PrefixedGroup.render query.further ++
        query.trailing.text))

def content (query : Query) : List GroupContent :=
  query.first.content :: query.further.map fun group => group.2.content

end Query

end Written

end TermSearch
