import Mathlib.Data.List.Chain
import TermSearch.Proofs.Grammar.Production

namespace TermSearch

/-! The tree of an accepted query accounts for every byte of the input: the
spans of neighbours leave room for a separator and for nothing else, and the
text of a leaf is what stands at its span. -/

def Between (input : List Char) (start stop : Nat)
    (form : List Char → Prop) : Prop :=
  ∃ text, textBetween? input start stop = some text ∧ form text

/-- Neighbours, with a separator between any two of them, from the start of a
span to its stop. -/
structure IsRow (input : List Char) (separator : List Char → Prop) (span : Span)
    (spans : List Span) : Prop where
  start_eq : spans.head?.map Span.start = some span.start
  stop_eq : spans.getLast?.map Span.stop = some span.stop
  separated : spans.IsChain fun left right =>
    Between input left.stop right.start separator

def Condition.Lossless (input : List Char) : Condition → Prop
  | .raw text span =>
      Between input span.start span.stop (· = text.toList) ∧ text.toList ≠ [] ∧
        (∀ c ∈ text.toList, isSpace c = false ∧ c ≠ ':') ∧
        text.toList ≠ reservedWord
  | .quoted text quote span =>
      IsQuote quote ∧ Between input span.start span.stop fun slice =>
        ∃ body, slice = [quote] ++ (body ++ [quote]) ∧
          EscapedAs quote body text.toList

structure OrGroup.Lossless (input : List Char) (group : OrGroup) : Prop where
  row :
    IsRow input IsOrSeparator group.span (group.conditions.map Condition.span)
  conditions : ∀ condition ∈ group.conditions, condition.Lossless input

structure Conditions.Lossless (input : List Char)
    (conditions : Conditions) : Prop where
  row : IsRow input IsAndSeparator conditions.span
    (conditions.groups.map OrGroup.span)
  groups : ∀ group ∈ conditions.groups, group.Lossless input

def FieldName.Lossless (input : List Char) (field : FieldName) : Prop :=
  Between input field.span.start field.span.stop (· = field.name.toList) ∧
    isIdentifier field.name = true

/-- The names end where the colon stands, and the colon ends the list. -/
structure FieldList.Lossless (input : List Char) (list : FieldList) : Prop where
  row : ∃ colon,
    IsRow input (· = [',']) ⟨list.span.start, colon⟩
        (list.fields.map FieldName.span) ∧
      Between input colon list.span.stop (· = [':'])
  fields : ∀ field ∈ list.fields, field.Lossless input

/-- The prefix of a group, if there is one, and its conditions fill the
group. -/
def QueryGroup.Filled (input : List Char) (group : QueryGroup) : Prop :=
  group.conditions.span.stop = group.span.stop ∧
    match group.fields with
    | none => group.conditions.span.start = group.span.start
    | some list =>
        list.span.start = group.span.start ∧ list.Lossless input ∧
          Between input list.span.stop group.conditions.span.start
            fun gap => ∀ c ∈ gap, isSpace c = true

structure QueryGroup.Lossless (input : List Char)
    (group : QueryGroup) : Prop where
  filled : group.Filled input
  conditions : group.conditions.Lossless input

structure SyntaxTree.Lossless (input : List Char)
    (tree : SyntaxTree) : Prop where
  start_eq : tree.span.start = 0
  after : Between input tree.span.stop (byteSize input) fun rest =>
    ∀ c ∈ rest, isSpace c = true
  row : IsRow input IsBlank tree.span (tree.groups.map QueryGroup.span)
  groups : ∀ group ∈ tree.groups, group.Lossless input

/-! Reading keeps to the places of the input, and the text between two of them
is what was read. -/

def Cursor.IsIn (cursor : Cursor) (input : List Char) : Prop :=
  ∃ before, input = before ++ cursor.rest ∧ cursor.position = byteSize before

theorem Cursor.isIn_ofText (input : String) :
    (Cursor.ofText input).IsIn input.toList :=
  ⟨[], rfl, rfl⟩

theorem Cursor.Reads.isIn {start stop : Cursor} {text input : List Char}
    (h : start.Reads text stop) (hstart : start.IsIn input) :
    stop.IsIn input := by
  obtain ⟨before, hinput, hposition⟩ := hstart
  refine ⟨before ++ text, ?_, ?_⟩
  · rw [hinput, h.rest, List.append_assoc]
  · rw [h.position, hposition, byteSize_append]

theorem Cursor.Reads.textBetween?_eq {start stop : Cursor}
    {text input : List Char} (h : start.Reads text stop)
    (hstart : start.IsIn input) :
    textBetween? input start.position stop.position = some text := by
  obtain ⟨before, hinput, hposition⟩ := hstart
  have hstop : stop.position = byteSize (before ++ text) := by
    rw [h.position, hposition, byteSize_append]
  have hall : input = before ++ text ++ stop.rest := by
    rw [hinput, h.rest, List.append_assoc]
  rw [textBetween?, hstop, hposition, hall, cutAt?_byteSize, Option.bind_some,
    cutAt?_byteSize]
  rfl

theorem Rule.Takes.between {rule : Rule α} {form : List Char → Prop}
    (htakes : rule.Takes form) {input : List Char} {start stop : Cursor}
    {value : α} (hstart : start.IsIn input)
    (h : (rule start).result = some (value, stop)) :
    Between input start.position stop.position form ∧ stop.IsIn input := by
  obtain ⟨text, htext, hreads⟩ := htakes h
  exact ⟨⟨text, hreads.textBetween?_eq hstart, htext⟩, hreads.isIn hstart⟩

/-- What the rule reads covers the bytes that it read, and keeps account of
them. -/
def Rule.Accounts (rule : Rule α) (span : α → Span)
    (lossless : List Char → α → Prop) : Prop :=
  ∀ ⦃input : List Char⦄ ⦃start stop : Cursor⦄ ⦃value : α⦄, start.IsIn input →
    (rule start).result = some (value, stop) →
    span value = ⟨start.position, stop.position⟩ ∧
      lossless input value ∧
      stop.IsIn input

section Rows

variable {input : List Char} {separator : List Char → Prop}

theorem isRow_singleton (span : Span) : IsRow input separator span [span] :=
  ⟨rfl, rfl, .singleton span⟩

theorem IsRow.cons {span first second : Span} {spans : List Span}
    (h : IsRow input separator span (second :: spans))
    (hbetween : Between input first.stop second.start separator) :
    IsRow input separator ⟨first.start, span.stop⟩
      (first :: second :: spans) := by
  constructor
  · rfl
  · rw [List.getLast?_cons_cons]
    exact h.stop_eq
  · exact .cons_cons hbetween h.separated

theorem IsRow.ne_nil {span : Span} {items : List α} {spanOf : α → Span}
    (h : IsRow input separator span (items.map spanOf)) : items ≠ [] := by
  intro hempty
  have hstart := h.start_eq
  rw [hempty] at hstart
  cases hstart

variable {item : Rule α} {between : Rule Unit} {span : α → Span}
  {lossless : List Char → α → Prop}

theorem Rule.Further.isRow (hitem : item.Accounts span lossless)
    (hseparator : between.Takes separator) {cursor stop : Cursor}
    {others : List α} (h : Further item between cursor others stop)
    {first : Span} (hfirst : first.stop = cursor.position)
    (hcursor : cursor.IsIn input) :
    IsRow input separator ⟨first.start, stop.position⟩
        (first :: others.map span) ∧
      (∀ value ∈ others, lossless input value) ∧
      stop.IsIn input := by
  induction h generalizing first with
  | done =>
      refine ⟨?_, by simp, hcursor⟩
      rw [← hfirst]
      exact isRow_singleton first
  | more hbetween hvalue hmore ih =>
      obtain ⟨hgap, hmiddle⟩ := hseparator.between hcursor hbetween
      obtain ⟨hspan, hlossless, hnext⟩ := hitem hmiddle hvalue
      obtain ⟨hrow, hothers, hstop⟩ := ih (congrArg Span.stop hspan) hnext
      refine ⟨hrow.cons ?_, ?_, hstop⟩
      · rw [hfirst, hspan]
        exact hgap
      · exact List.forall_mem_cons.mpr ⟨hlossless, hothers⟩

theorem Rule.Accounts.separated (hitem : item.Accounts span lossless)
    (hseparator : between.Takes separator)
    (htakes : (between >>= fun _ => item).Takes (· ≠ []))
    {start stop : Cursor} {values : List α} (hstart : start.IsIn input)
    (h : (Rule.separated item between start).result = some (values, stop)) :
    IsRow input separator ⟨start.position, stop.position⟩ (values.map span) ∧
      (∀ value ∈ values, lossless input value) ∧
      stop.IsIn input := by
  obtain ⟨value, next, others, hvalue, hfurther, rfl⟩ :=
    (Rule.separated_eq_some_iff htakes).mp h
  obtain ⟨hspan, hlossless, hnext⟩ := hitem hstart hvalue
  obtain ⟨hrow, hothers, hstop⟩ :=
    hfurther.isRow hitem hseparator (congrArg Span.stop hspan) hnext
  rw [hspan] at hrow
  refine ⟨?_, List.forall_mem_cons.mpr ⟨hlossless, hothers⟩, hstop⟩
  rw [List.map_cons, hspan]
  exact hrow

theorem Rule.IsRowOf.accounts {rule : Rule β} {make : List α → Span → β}
    (hrule : rule.IsRowOf make item between)
    (hitem : item.Accounts span lossless)
    (hseparator : between.Takes separator)
    (htakes : (between >>= fun _ => item).Takes (· ≠ [])) {covered : β → Span}
    {keeps : List Char → β → Prop}
    (hcovered : ∀ values whole, covered (make values whole) = whole)
    (hkeeps : ∀ input values whole,
      IsRow input separator whole (values.map span) →
      (∀ value ∈ values, lossless input value) →
      keeps input (make values whole)) :
    rule.Accounts covered keeps := by
  intro input start stop node hstart h
  rw [hrule start, Option.map_eq_some_iff] at h
  obtain ⟨⟨values, next⟩, hvalues, hpair⟩ := h
  cases hpair
  obtain ⟨hrow, hlossless, hstop⟩ :=
    hitem.separated hseparator htakes hstart hvalues
  exact ⟨hcovered values _, hkeeps input values _ hrow hlossless, hstop⟩

end Rows

namespace Grammar

theorem accounts_condition :
    condition.Accounts Condition.span fun input c => c.Lossless input := by
  intro input start stop value hstart h
  obtain ⟨hquoted | ⟨-, hraw⟩, -⟩ := condition_eq_some_iff.mp h
  · obtain ⟨quote, body, text, hquote, hbody, hreads, rfl⟩ :=
      quotedString_eq_some_iff.mp hquoted
    refine ⟨rfl, ⟨hquote, _, hreads.textBetween?_eq hstart, body, rfl, ?_⟩,
      hreads.isIn hstart⟩
    rw [String.toList_ofList]
    exact hbody
  · obtain ⟨hnil, hword, rfl, rfl⟩ := rawCondition_eq_some_iff.mp hraw
    have hreads := Cursor.Reads.afterRun start isTermChar
    refine ⟨rfl, ?_, hreads.isIn hstart⟩
    simp only [Condition.Lossless, String.toList_ofList]
    refine ⟨⟨_, hreads.textBetween?_eq hstart, rfl⟩, hnil, ?_, hword⟩
    intro c hc
    exact (isTermChar_iff c).mp (start.all_run isTermChar c hc)

theorem accounts_orConditions :
    orConditions.Accounts OrGroup.span fun input group =>
      group.Lossless input :=
  isRowOf_orConditions.accounts accounts_condition takes_orOp
    takes_orOp_condition (fun _ _ => rfl) fun _ _ _ hrow hlossless =>
      ⟨hrow, hlossless⟩

theorem accounts_andConditions :
    andConditions.Accounts Conditions.span fun input conditions =>
      conditions.Lossless input :=
  isRowOf_andConditions.accounts accounts_orConditions takes_andOp
    takes_andOp_orConditions (fun _ _ => rfl) fun _ _ _ hrow hlossless =>
      ⟨hrow, hlossless⟩

theorem accounts_identifier :
    identifier.Accounts FieldName.span fun input field =>
      field.Lossless input := by
  intro input start stop field hstart h
  obtain ⟨hnil, rfl, rfl⟩ := identifier_eq_some_iff.mp h
  have hreads := Cursor.Reads.afterRun start isIdentifierChar
  refine ⟨rfl, ⟨⟨_, hreads.textBetween?_eq hstart, ?_⟩, ?_⟩, hreads.isIn hstart⟩
  · rw [String.toList_ofList]
  · unfold isIdentifier
    simpa [hnil] using start.all_run isIdentifierChar

theorem field_lossless {input : List Char} {start stop : Cursor}
    {list : FieldList} (hstart : start.IsIn input)
    (h : (field start).result = some (list, stop)) :
    list.span.start = start.position ∧
      list.Lossless input ∧
      stop.IsIn input ∧
      Between input list.span.stop stop.position fun gap =>
        ∀ c ∈ gap, isSpace c = true := by
  obtain ⟨names, next, colon, hnames, hcolon, rfl, rfl⟩ :=
    field_eq_some_iff.mp h
  unfold multiField at hnames
  rw [Rule.result_named] at hnames
  obtain ⟨hrow, hfields, hnext⟩ := accounts_identifier.separated
    (Rule.Takes.literal _ _) takes_comma_identifier hstart hnames
  have hgap := Cursor.Reads.afterRun colon isSpace
  have hcolonIn := hcolon.isIn hnext
  refine ⟨rfl, ⟨⟨next.position, hrow, ?_⟩, hfields⟩, hgap.isIn hcolonIn, ?_⟩
  · exact ⟨_, hcolon.textBetween?_eq hnext, rfl⟩
  · exact ⟨_, hgap.textBetween?_eq hcolonIn, colon.all_run isSpace⟩

theorem accounts_andQuery :
    andQuery.Accounts QueryGroup.span fun input group =>
      group.Lossless input := by
  intro input start stop group hstart h
  obtain ⟨hspan,
    ⟨list, next, hfield, hfields, hconditions⟩ | ⟨-, hfields, hconditions⟩⟩ :=
    andQuery_eq_some_iff.mp h
  · obtain ⟨hlist, hlossless, hnext, hgap⟩ := field_lossless hstart hfield
    obtain ⟨hcovers, hinner, hstop⟩ := accounts_andConditions hnext hconditions
    refine ⟨hspan, ⟨⟨?_, ?_⟩, hinner⟩, hstop⟩
    · rw [hcovers, hspan]
    · rw [hfields, hcovers, hspan]
      exact ⟨hlist, hlossless, hgap⟩
  · obtain ⟨hcovers, hinner, hstop⟩ := accounts_andConditions hstart hconditions
    refine ⟨hspan, ⟨⟨?_, ?_⟩, hinner⟩, hstop⟩
    · rw [hcovers, hspan]
    · rw [hfields, hcovers, hspan]

theorem andQueries_lossless {input : List Char} {start stop : Cursor}
    {tree : SyntaxTree} (hstart : start.IsIn input)
    (h : (andQueries start).result = some (tree, stop)) :
    tree.span.start = start.position ∧
      IsRow input IsBlank tree.span (tree.groups.map QueryGroup.span) ∧
      (∀ group ∈ tree.groups, group.Lossless input) ∧
      Between input tree.span.stop (byteSize input) fun rest =>
        ∀ c ∈ rest, isSpace c = true := by
  obtain ⟨next, hgroups, hspan, rfl, hend⟩ := andQueries_eq_some_iff.mp h
  obtain ⟨hrow, hlossless, hnext⟩ :=
    accounts_andQuery.separated takes_space takes_space_andQuery hstart hgroups
  have htrailing := Cursor.Reads.afterRun next isSpace
  obtain ⟨before, hinput, hposition⟩ := htrailing.isIn hnext
  have hsize : (next.afterRun isSpace).position = byteSize input := by
    rw [hposition, hinput, hend, List.append_nil]
  refine ⟨by rw [hspan], hspan ▸ hrow, hlossless, _, ?_, next.all_run isSpace⟩
  rw [hspan, ← hsize]
  exact htrailing.textBetween?_eq hnext

end Grammar

theorem lossless_of_parse {input : String} {tree : SyntaxTree}
    (h : SyntaxTree.parse input = .ok tree) : tree.Lossless input.toList := by
  obtain ⟨stop, hresult⟩ := Grammar.parse_eq_ok_iff.mp h
  obtain ⟨hstart, hrow, hgroups, hafter⟩ :=
    Grammar.andQueries_lossless (Cursor.isIn_ofText input) hresult
  exact ⟨hstart, hafter, hrow, hgroups⟩

/-- Fields, an escape, a character of two bytes and a space at the end. -/
theorem lossless_of_parse_two_groups :
    ∃ tree, SyntaxTree.parse "a,b: \"é\\\"\" or c and d e:f " = .ok tree ∧
      tree.Lossless "a,b: \"é\\\"\" or c and d e:f ".toList := by
  have h : SyntaxTree.parse "a,b: \"é\\\"\" or c and d e:f " =
      .ok ⟨[⟨some ⟨[⟨"a", ⟨0, 1⟩⟩, ⟨"b", ⟨2, 3⟩⟩], ⟨0, 4⟩⟩,
        ⟨[⟨[.quoted "é\"" '"' ⟨5, 11⟩, .raw "c" ⟨15, 16⟩], ⟨5, 16⟩⟩,
          ⟨[.raw "d" ⟨21, 22⟩], ⟨21, 22⟩⟩], ⟨5, 22⟩⟩, ⟨0, 22⟩⟩,
        ⟨some ⟨[⟨"e", ⟨23, 24⟩⟩], ⟨23, 25⟩⟩,
          ⟨[⟨[.raw "f" ⟨25, 26⟩], ⟨25, 26⟩⟩], ⟨25, 26⟩⟩, ⟨23, 26⟩⟩],
        ⟨0, 26⟩⟩ := by
    decide +kernel
  exact ⟨_, h, lossless_of_parse h⟩

end TermSearch
