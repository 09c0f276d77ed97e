import TermSearch.Text.Lines
import TermSearch.Text.Quoted

namespace TermSearch

/-! The tree of a query as it was written. Every part knows the bytes of the
input that it covers. A query is a row of groups; a group may name fields and
then gives its conditions as or-groups that are joined by `and`. -/

/-- The bytes from `start` up to, and without, `stop`. -/
structure Span where
  start : Nat
  stop : Nat
  deriving DecidableEq, Repr

inductive Condition where
  | raw (text : String) (span : Span)
  /-- A quoted string with its escapes resolved; its span includes the
  quotes. -/
  | quoted (text : String) (quote : Char) (span : Span)
  deriving DecidableEq, Repr

/-- Conditions of which one suffices. -/
structure OrGroup where
  conditions : List Condition
  span : Span
  deriving DecidableEq, Repr

/-- Or-groups that all have to hold. -/
structure Conditions where
  groups : List OrGroup
  span : Span
  deriving DecidableEq, Repr

structure FieldName where
  name : String
  span : Span
  deriving DecidableEq, Repr

/-- The names before a colon; the span includes the colon. -/
structure FieldList where
  fields : List FieldName
  span : Span
  deriving DecidableEq, Repr

structure QueryGroup where
  fields : Option FieldList
  conditions : Conditions
  span : Span
  deriving DecidableEq, Repr

structure SyntaxTree where
  groups : List QueryGroup
  span : Span
  deriving DecidableEq, Repr

def Span.display (span : Span) : String :=
  toString span.start ++ ".." ++ toString span.stop

namespace Condition

def text : Condition → String
  | .raw text _ => text
  | .quoted text _ _ => text

def span : Condition → Span
  | .raw _ span => span
  | .quoted _ _ span => span

@[simp] theorem text_raw (text : String) (span : Span) :
    (raw text span).text = text := rfl

@[simp] theorem text_quoted (text : String) (quote : Char) (span : Span) :
    (quoted text quote span).text = text := rfl

def display : Condition → String
  | .raw text span => "condition " ++ Text.quoted text ++ " " ++ span.display
  | .quoted text quote span =>
      "condition str(" ++ String.singleton quote ++ ") " ++ Text.quoted text ++
        " " ++ span.display

end Condition

/-! The display of a tree has one line for each node, named as in the grammar
and two spaces further in than its parent. -/

def OrGroup.lines (group : OrGroup) : List String :=
  Text.indented 3 ("or_conditions " ++ group.span.display) ::
    group.conditions.map fun condition => Text.indented 4 condition.display

def Conditions.lines (conditions : Conditions) : List String :=
  Text.indented 2 ("and_conditions " ++ conditions.span.display) ::
    conditions.groups.flatMap OrGroup.lines

def FieldList.lines (list : FieldList) : List String :=
  Text.indented 2 ("field_list " ++ list.span.display) ::
    list.fields.map fun field =>
      Text.indented 3
        ("field " ++ Text.quoted field.name ++ " " ++ field.span.display)

def QueryGroup.lines (group : QueryGroup) : List String :=
  Text.indented 1 ("and_query " ++ group.span.display) ::
    (group.fields.elim [] FieldList.lines ++ group.conditions.lines)

def SyntaxTree.lines (tree : SyntaxTree) : List String :=
  ("and_queries " ++ tree.span.display) :: tree.groups.flatMap QueryGroup.lines

def SyntaxTree.display (tree : SyntaxTree) : String :=
  Text.unlines tree.lines

end TermSearch
