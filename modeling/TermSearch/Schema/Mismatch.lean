import TermSearch.Text.Lines
import TermSearch.Text.Quoted

namespace TermSearch.Schema

/-! Well-formed data that is not what is wanted. These faults are common to JSON
documents and TOML settings. -/

inductive Found where
  | null
  | bool (value : Bool)
  | integer (value : Int)
  | float (digits : String)
  | string (text : String)
  | sequence
  | map
  | unitVariant
  deriving DecidableEq, Repr

def Found.display : Found → String
  | .null => "null"
  | .bool value => "boolean `" ++ toString value ++ "`"
  | .integer value => "integer `" ++ toString value ++ "`"
  | .float text => "floating point `" ++ text ++ "`"
  | .string text => "string " ++ Text.quoted text
  | .sequence => "sequence"
  | .map => "map"
  | .unitVariant => "unit variant"

inductive Mismatch where
  | invalidType (found : Found) (expected : String)
  | invalidValue (found : Found) (expected : String)
  | invalidLength (length : Nat) (expected : String)
  | unknownVariant (name : String) (known : List String)
  | unknownField (name : String) (known : List String)
  | missingField (name : String)
  | duplicateField (name : String)
  | oneOrMany (one many : Mismatch)
  deriving DecidableEq, Repr

def named (name : String) : String := "`" ++ name ++ "`"

def oneOf (names : List String) : String :=
  match names with
  | [_] | [_, _] => Text.alternatives (names.map named)
  | _ => "one of " ++ ", ".intercalate (names.map named)

def Mismatch.message : Mismatch → String
  | .invalidType found expected =>
      "invalid type: " ++ found.display ++ ", expected " ++ expected
  | .invalidValue found expected =>
      "invalid value: " ++ found.display ++ ", expected " ++ expected
  | .invalidLength length expected =>
      "invalid length " ++ toString length ++ ", expected " ++ expected
  | .unknownVariant name known =>
      "unknown variant " ++ named name ++ ", expected " ++ oneOf known
  | .unknownField name known =>
      "unknown field " ++ named name ++ ", expected " ++ oneOf known
  | .missingField name => "missing field " ++ named name
  | .duplicateField name => "duplicate field " ++ named name
  | .oneOrMany one many =>
      "OneOrMany could not deserialize any variant:\n  One: " ++ one.message ++
        "\n\n  Many: " ++ many.message ++ "\n"

end TermSearch.Schema
