import TermSearch.Decimal.Shortest
import TermSearch.Schema.Mismatch
import TermSearch.Toml.Value

namespace TermSearch.Toml.Value

/-! What a value holds, if it is of the kind that is wanted. -/

open Schema (Found Mismatch)

def found : Value → Found
  | .string text => .string text
  | .integer value => .integer value
  | .float value => .float (Decimal.positionalFormat.text value)
  | .bool value => .bool value
  | .array _ => .sequence
  | .moment _ | .table _ => .map

def refuse (value : Value) (expected : String) : Except Mismatch α :=
  .error (.invalidType value.found expected)

def toBool : Value → Except Mismatch Bool
  | .bool value => .ok value
  | value => value.refuse "a boolean"

def toNatural : Value → Except Mismatch UInt64
  | .integer value =>
      if 0 ≤ value then .ok value.toNat.toUInt64
      else .error (.invalidValue (.integer value) "usize")
  | value => value.refuse "usize"

def toText : Value → Except Mismatch String
  | .string text => .ok text
  | value => value.refuse "a string"

def toTexts : Value → Except Mismatch (List String)
  | .array items => items.mapM toText
  | value => value.refuse "a sequence"

/-- A single string counts as a list of one. -/
def toOneOrMany (value : Value) : Except Mismatch (List String) :=
  match value.toText, value.toTexts with
  | .ok text, _ => .ok [text]
  | .error _, .ok texts => .ok texts
  | .error one, .error many => .error (.oneOrMany one many)

/-- The key under which a date or time shows its text. -/
def momentKey : String := "$__toml_private_datetime"

/-- The entries of a table, or the items of an array under the names of their
positions; items without a name do not count. -/
def toEntries (names : List String) (expected : String) :
    Value → Except Mismatch (List (String × Value))
  | .table entries => .ok entries
  | .array items => .ok (names.zip items)
  | .moment text => .ok [(momentKey, .string text)]
  | value => value.refuse expected

end TermSearch.Toml.Value
