import TermSearch.Toml.Moment
import TermSearch.Toml.Number
import TermSearch.Toml.Scan

namespace TermSearch.Toml

/-! Reading TOML documents. A document is a row of statements: headers of
tables, and keys with their values. -/

def isAtomChar (c : Char) : Bool :=
  c.isAlphanum || c == '+' || c == '-' || c == '_' || c == '.' || c == ':'

/-- The characters of a number, date or word. A date and its time may be
separated by a space. -/
def Scan.atom : Scan (List Char) := do
  let first ← run isAtomChar
  match ← get with
  | ' ' :: c :: _ =>
      if isDate first ∧ c.isDigit then
        char ' '
        let time ← run isAtomChar
        pure (first ++ ' ' :: time)
      else
        pure first
  | _ => pure first

def atomValue? (text : List Char) : Option Value :=
  if text = ['t', 'r', 'u', 'e'] then some (.bool true)
  else if text = ['f', 'a', 'l', 's', 'e'] then some (.bool false)
  else if isMoment text then some (.moment (String.ofList text))
  else
    match integer? text with
    | some value => some (.integer value)
    | none => (float? text).map .float

namespace Scan

def unstructured : Scan Value := do
  match (← get).head? with
  | some '"' | some '\'' => return .string (String.ofList (← string))
  | _ =>
      let text ← atom
      fun rest => (atomValue? text).map fun value => (value, rest)

/-- What stands between two brackets, after the first of them. A comma may
follow the last item, and items may stand on lines of their own. -/
def bracketed (close : Char) (item : Scan α) (text : List Char) :
    Option (List α × List Char) :=
  match afterTrivia false text with
  | [] => none
  | c :: rest =>
      if c = close then some ([], rest)
      else
        match item (c :: rest) with
        | none => none
        | some (first, after) =>
            match afterTrivia false after with
            | [] => none
            | c :: after =>
                if c = close then some ([first], after)
                else if c = ',' ∧ after.length < text.length then
                  (bracketed close item after).map fun read =>
                    (first :: read.1, read.2)
                else
                  none
termination_by text.length

def assignment (gap : Scan Unit) (value : Scan Value) :
    Scan (List String × Value) := do
  let path ← key
  gap
  char '='
  gap
  return (path, ← value)

end Scan

def tableOf? (assignments : List (List String × Value)) : Option Value :=
  (assignments.foldlM
    (fun entries assignment =>
      Entries.assign assignment.2 assignment.1 true entries)
    []).map fun entries => .table (entryValues entries)

namespace Scan

def value : (levels : Nat) → Scan Value
  | 0 => unstructured
  | levels + 1 => do
      match (← get).head? with
      | some '[' =>
          char '['
          return .array (← bracketed ']' (value levels))
      | some '\x7b' =>
          char '\x7b'
          let assignments ← bracketed '\x7d' (assignment trivia (value levels))
          fun rest => (tableOf? assignments).map fun table => (table, rest)
      | _ => unstructured

end Scan

inductive Statement where
  | table (path : List String)
  | element (path : List String)
  | assignment (path : List String) (value : Value)

namespace Scan

def statement : Scan Statement := do
  match ← get with
  | '[' :: '[' :: rest =>
      set rest
      blanks
      let path ← key
      blanks
      char ']'
      char ']'
      pure (.element path)
  | '[' :: rest =>
      set rest
      blanks
      let path ← key
      blanks
      char ']'
      pure (.table path)
  | _ =>
      let (path, value) ← assignment blanks (value depthLimit)
      pure (.assignment path value)

end Scan

def statements (text : List Char) : Option (List Statement) :=
  match Scan.afterTrivia false text with
  | [] => some []
  | c :: rest =>
      match (do let s ← Scan.statement; Scan.lineRest; pure s : Scan Statement)
          (c :: rest) with
      | none => none
      | some (statement, after) =>
          if after.length < text.length then
            (statements after).map (statement :: ·)
          else
            none
termination_by text.length

/-- The path of the table that assignments go to, and all that was read. -/
structure Draft where
  current : List String
  entries : Entries

def Draft.add? (draft : Draft) : Statement → Option Draft
  | .assignment path value =>
      (Entries.within (Entries.assign value path true) draft.current
        draft.entries).map (⟨draft.current, ·⟩)
  | .table path =>
      path.getLast?.bind fun key =>
        (Entries.within (Entries.declareTable key) path.dropLast
          draft.entries).map (⟨path, ·⟩)
  | .element path =>
      path.getLast?.bind fun key =>
        (Entries.within (Entries.declareElement key) path.dropLast
          draft.entries).map (⟨path, ·⟩)

def withoutMark (text : List Char) : List Char :=
  match text with
  | '\ufeff' :: rest => rest
  | _ => text

def read? (text : String) : Option (List (String × Value)) := do
  let statements ← statements (withoutMark text.toList)
  let draft ← statements.foldlM Draft.add? ⟨[], []⟩
  pure (entryValues draft.entries)

end TermSearch.Toml
