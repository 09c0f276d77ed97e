import TermSearch.Proofs.Grammar.ParsingExpression
import TermSearch.Proofs.Grammar.Production

namespace TermSearch

/-! The documented grammar as parsing expressions, and the tree that a
derivation from it builds. The rules of the grammar read exactly what the
expressions derive; what they note while they look for alternatives is no part
of a derivation. -/

inductive Nonterminal where
  | andQueries
  | query
  | field
  | multiField
  | andConditions
  | orConditions
  | condition
  | rawCondition
  | quotedString
  | identifier
  | andOp
  | orOp
  | space
  deriving DecidableEq, Repr

namespace Nonterminal

def quotedCharacter (quote : Char) : ParsingExpression Nonterminal :=
  .choice (.sequence (.word ['\\']) .any)
    (.sequence (.absent (.character (· == quote))) .any)

def quoted (quote : Char) : ParsingExpression Nonterminal :=
  .sequence (.character (· == quote))
    (.sequence (.many (quotedCharacter quote)) (.character (· == quote)))

def reserved : ParsingExpression Nonterminal :=
  .sequence (.word reservedWord) (.absent (.character isTermChar))

def spacedWord (word : List Char) : ParsingExpression Nonterminal :=
  .sequence (.rule .space) (.sequence (.word word) (.rule .space))

def documented : Nonterminal → ParsingExpression Nonterminal
  | .andQueries =>
      .sequence (.row (.rule .query) (.rule .space)) (.optional (.rule .space))
  | .query => .sequence (.optional (.rule .field)) (.rule .andConditions)
  | .field =>
      .sequence (.rule .multiField)
        (.sequence (.word [':']) (.optional (.rule .space)))
  | .multiField => .row (.rule .identifier) (.word [','])
  | .andConditions => .row (.rule .orConditions) (.rule .andOp)
  | .orConditions => .row (.rule .condition) (.rule .orOp)
  | .condition =>
      .sequence (.choice (.rule .quotedString) (.rule .rawCondition))
        (.absent (.word [':']))
  | .rawCondition =>
      .sequence (.absent reserved) (.oneOrMore (.character isTermChar))
  | .quotedString => .choice (quoted '"') (quoted '\'')
  | .identifier => .oneOrMore (.character isIdentifierChar)
  | .andOp => spacedWord reservedWord
  | .orOp => .choice (spacedWord ['o', 'r']) (.rule .space)
  | .space => .oneOrMore (.character isSpace)

end Nonterminal

def resolveEscapes : List Char → List Char
  | '\\' :: c :: text => c :: resolveEscapes text
  | c :: text => c :: resolveEscapes text
  | [] => []

theorem EscapedAs.resolveEscapes_eq {quote : Char} {body text : List Char}
    (h : EscapedAs quote body text) : resolveEscapes body = text := by
  induction h with
  | nil => rfl
  | escape c _ ih => rw [resolveEscapes, ih]
  | plain _ hescape _ ih =>
      rw [resolveEscapes.eq_2 _ _ (by simp [hescape]), ih]

/-! What a derivation builds. Separators build nothing. -/

namespace ParseTree

def term? : ParseTree Nonterminal → Option Condition
  | .node .rawCondition span parts =>
      some (.raw (String.ofList (text parts)) span)
  | .node .quotedString span parts =>
      match text parts with
      | [] => none
      | quote :: body =>
          some (.quoted (String.ofList (resolveEscapes body.dropLast)) quote
            span)
  | _ => none

def condition? : ParseTree Nonterminal → Option Condition
  | .node .condition _ [body] => body.term?
  | _ => none

def orGroup? : ParseTree Nonterminal → Option OrGroup
  | .node .orConditions span parts => some ⟨parts.filterMap condition?, span⟩
  | _ => none

def conditions? : ParseTree Nonterminal → Option Conditions
  | .node .andConditions span parts => some ⟨parts.filterMap orGroup?, span⟩
  | _ => none

def fieldName? : ParseTree Nonterminal → Option FieldName
  | .node .identifier span parts => some ⟨String.ofList (text parts), span⟩
  | _ => none

def fieldNames? : ParseTree Nonterminal → Option (List FieldName)
  | .node .multiField _ parts => some (parts.filterMap fieldName?)
  | _ => none

def fieldList? : ParseTree Nonterminal → Option FieldList
  | .node .field span (names :: .leaf _ colon :: _) =>
      names.fieldNames?.map fun fields => ⟨fields, ⟨span.start, colon.stop⟩⟩
  | _ => none

def queryGroup? : ParseTree Nonterminal → Option QueryGroup
  | .node .query span [body] =>
      body.conditions?.map fun conditions => ⟨none, conditions, span⟩
  | .node .query span [names, body] =>
      names.fieldList?.bind fun list =>
        body.conditions?.map fun conditions => ⟨some list, conditions, span⟩
  | _ => none

/-- The tree stops where its last group does. -/
def syntaxTree? : ParseTree Nonterminal → Option SyntaxTree
  | .node .andQueries span parts =>
      let groups := parts.filterMap queryGroup?
      groups.getLast?.map fun last => ⟨groups, ⟨span.start, last.span.stop⟩⟩
  | _ => none

end ParseTree

open Nonterminal

/-- A rule reads what the documented expression of its name derives, and its
value is what the derivation builds. -/
structure Rule.Implements (rule : Rule α) (called : Nonterminal)
    (view : ParseTree Nonterminal → Option α) : Prop where
  reads : ∀ {cursor stop : Cursor} {value : α},
    (rule cursor).result = some (value, stop) →
    ∃ parts,
      Derives documented (documented called) cursor (some (parts, stop)) ∧
        view (.node called ⟨cursor.position, stop.position⟩ parts) = some value
  fails : ∀ {cursor : Cursor}, (rule cursor).result = none →
    Derives documented (documented called) cursor none

structure Rule.Separates (rule : Rule Unit)
    (between : ParsingExpression Nonterminal)
    (view : ParseTree Nonterminal → Option α) : Prop where
  reads : ∀ {cursor stop : Cursor}, (rule cursor).result = some ((), stop) →
    ∃ parts, Derives documented between cursor (some (parts, stop)) ∧
      parts.filterMap view = []
  fails : ∀ {cursor : Cursor}, (rule cursor).result = none →
    Derives documented between cursor none

namespace Rule

theorem Implements.separates {rule : Rule Unit} {called : Nonterminal}
    {made : ParseTree Nonterminal → Option Unit}
    (h : rule.Implements called made)
    {view : ParseTree Nonterminal → Option α}
    (hview : ∀ span parts, view (.node called span parts) = none) :
    rule.Separates (.rule called) view := by
  constructor
  · intro cursor stop hresult
    obtain ⟨parts, hparts, -⟩ := h.reads hresult
    exact ⟨_, .rule hparts, by simp [hview]⟩
  · intro cursor hresult
    exact .rule_none (h.fails hresult)

theorem separates_literal (word : List Char) (expected : String)
    {view : ParseTree Nonterminal → Option α}
    (hview : ∀ c span, view (.leaf c span) = none) :
    (literal word expected).Separates (.word word) view := by
  constructor
  · intro cursor stop hresult
    rw [result_literal, Option.map_eq_some_iff] at hresult
    obtain ⟨next, hnext, hpair⟩ := hresult
    cases hpair
    exact ⟨_, .word (Cursor.after?_eq_some_iff.mp hnext),
      ParseTree.filterMap_leaves hview _ _⟩
  · intro cursor hresult
    rw [result_literal, Option.map_eq_none_iff] at hresult
    exact .word_none (Cursor.after?_eq_none_iff.mp hresult)

theorem implements_oneOrMore {rule : Rule α} {called : Nonterminal}
    {allowed : Char → Bool}
    (hcalled : documented called = .oneOrMore (.character allowed))
    {make : Cursor → α}
    (hresult : ∀ cursor, (rule cursor).result =
      if cursor.run allowed = [] then none
      else some (make cursor, cursor.afterRun allowed))
    {view : ParseTree Nonterminal → Option α}
    (hview : ∀ cursor,
      view
          (.node called ⟨cursor.position, (cursor.afterRun allowed).position⟩
            (ParseTree.leaves cursor.position (cursor.run allowed))) =
        some (make cursor)) :
    rule.Implements called view := by
  constructor
  · intro cursor stop value h
    rw [hresult] at h
    split at h
    · cases h
    · cases h
      rw [hcalled]
      exact ⟨_, .oneOrMore_character ‹_›, hview cursor⟩
  · intro cursor h
    rw [hresult] at h
    split at h
    · rw [hcalled]
      exact .oneOrMore_character_none ‹_›
    · cases h

section Separated

variable {item : Rule α} {separator : Rule Unit} {called : Nonterminal}
  {between : ParsingExpression Nonterminal}
  {view : ParseTree Nonterminal → Option α}

theorem Further.derives (hitem : item.Implements called view)
    (hseparator : separator.Separates between view) {cursor stop : Cursor}
    {values : List α} (h : Further item separator cursor values stop) :
    ∃ parts,
      Derives documented (.many (.sequence between (.rule called))) cursor
          (some (parts, stop)) ∧
        parts.filterMap view = values := by
  induction h with
  | done hnone =>
      rename_i cursor
      refine ⟨[], .many_done ?_, rfl⟩
      rw [result_bind] at hnone
      cases hbetween : (separator cursor).result with
      | none => exact .sequence_none_left (hseparator.fails hbetween)
      | some reading =>
          rw [hbetween, Option.bind_some] at hnone
          obtain ⟨parts, hparts, -⟩ := hseparator.reads hbetween
          exact .sequence_none_right hparts (.rule_none (hitem.fails hnone))
  | more hbetween hvalue _ ih =>
      obtain ⟨left, hleft, hnothing⟩ := hseparator.reads hbetween
      obtain ⟨parts, hparts, hview⟩ := hitem.reads hvalue
      obtain ⟨more, hmore, hvalues⟩ := ih
      refine ⟨_, .many_more (.sequence hleft (.rule hparts)) hmore, ?_⟩
      simp [hnothing, hview, hvalues]

theorem derives_separated (hitem : item.Implements called view)
    (hseparator : separator.Separates between view)
    (htakes : (separator >>= fun _ => item).Takes (· ≠ []))
    {cursor stop : Cursor} {values : List α}
    (h : (separated item separator cursor).result = some (values, stop)) :
    ∃ parts,
      Derives documented (.row (.rule called) between) cursor
          (some (parts, stop)) ∧
        parts.filterMap view = values := by
  obtain ⟨value, next, others, hvalue, hfurther, rfl⟩ :=
    (separated_eq_some_iff htakes).mp h
  obtain ⟨parts, hparts, hview⟩ := hitem.reads hvalue
  obtain ⟨more, hmore, hothers⟩ := hfurther.derives hitem hseparator
  exact ⟨_, .sequence (.rule hparts) hmore, by simp [hview, hothers]⟩

theorem derives_separated_none (hitem : item.Implements called view)
    {cursor : Cursor} (h : (separated item separator cursor).result = none) :
    Derives documented (.row (.rule called) between) cursor none :=
  .sequence_none_left (.rule_none (hitem.fails (separated_eq_none_iff.mp h)))

theorem IsRowOf.implements {rule : Rule β} {make : List α → Span → β}
    (hrule : rule.IsRowOf make item separator)
    (hitem : item.Implements called view)
    (hseparator : separator.Separates between view)
    (htakes : (separator >>= fun _ => item).Takes (· ≠ []))
    {row : Nonterminal} {rowView : ParseTree Nonterminal → Option β}
    (hrow : documented row = .row (.rule called) between)
    (hview : ∀ span parts, rowView (.node row span parts) =
      some (make (parts.filterMap view) span)) :
    rule.Implements row rowView := by
  constructor
  · intro cursor stop node h
    rw [hrule cursor, Option.map_eq_some_iff] at h
    obtain ⟨⟨values, next⟩, hvalues, hpair⟩ := h
    cases hpair
    obtain ⟨parts, hparts, hitems⟩ :=
      derives_separated hitem hseparator htakes hvalues
    exact ⟨parts, hrow ▸ hparts, by rw [hview, hitems]⟩
  · intro cursor h
    rw [hrule cursor, Option.map_eq_none_iff] at h
    rw [hrow]
    exact derives_separated_none hitem h

end Separated

end Rule

end TermSearch
