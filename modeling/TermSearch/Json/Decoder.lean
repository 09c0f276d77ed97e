import TermSearch.Json.Number
import TermSearch.Schema.Mismatch

namespace TermSearch.Json

/-! Reading values off a list of tokens. A decoder looks at one token at a time,
so the first fault in the text is the one that is reported, whether the text is
no JSON there or holds something else than wanted. -/

inductive ReadError where
  | malformed
  | mismatch (mismatch : Schema.Mismatch)
  deriving DecidableEq, Repr

abbrev Decoder (α : Type) := StateT (List Token) (Except ReadError) α

namespace Decoder

def malformed : Decoder α := throw .malformed

def mismatch (mismatch : Schema.Mismatch) : Decoder α :=
  throw (.mismatch mismatch)

def next : Decoder Token := fun tokens =>
  match tokens with
  | [] => .error .malformed
  | token :: rest => .ok (token, rest)

def expect (wanted : Token) : Decoder Unit := do
  if (← next) = wanted then pure () else malformed

/-- What a value that starts with that token is, for a report that it is not
wanted. -/
def found : Token → Decoder Schema.Found
  | .null => pure .null
  | .bool value => pure (.bool value)
  | .number numeral =>
      match numeral.value? with
      | none => malformed
      | some (.natural value) => pure (.integer value.toNat)
      | some (.negative magnitude) => pure (.integer (-magnitude))
      | some (.float value) => pure (.float (Decimal.compactFormat.text value))
  | .string (some text) => pure (.string (String.ofList text))
  | .opening .square => pure .sequence
  | .opening .curly => pure .map
  | _ => malformed

def refuse (token : Token) (expected : String) : Decoder α := do
  mismatch (.invalidType (← found token) expected)

def text : Decoder String := do
  match ← next with
  | .string (some text) => pure (String.ofList text)
  | token => refuse token "a string"

def natural : Decoder UInt64 := do
  match ← next with
  | .number numeral =>
      match numeral.value? with
      | some (.natural value) => pure value
      | some (.negative magnitude) =>
          mismatch (.invalidValue (.integer (-magnitude)) "usize")
      | _ => refuse (.number numeral) "usize"
  | token => refuse token "usize"

def within (levels : Nat)
    (inside : (inner : Nat) → inner < levels → Decoder α) : Decoder α :=
  match levels with
  | 0 => malformed
  | inner + 1 => inside inner (Nat.lt_succ_self inner)

def itemsRest (item : Decoder α) (tokens : List Token) :
    Except ReadError (List α × List Token) :=
  match tokens with
  | .closing .square :: rest => .ok ([], rest)
  | .comma :: rest =>
      match item rest with
      | .error error => .error error
      | .ok (value, after) =>
          if after.length ≤ rest.length then
            (itemsRest item after).map fun more => (value :: more.1, more.2)
          else
            .error .malformed
  | _ => .error .malformed
termination_by tokens.length

def items (item : Decoder α) : Decoder (List α) := fun tokens =>
  match tokens with
  | .closing .square :: rest => .ok ([], rest)
  | _ =>
      match item tokens with
      | .error error => .error error
      | .ok (value, after) =>
          (itemsRest item after).map fun more => (value :: more.1, more.2)

def membersRest (member : String → β → Decoder β) (state : β)
    (tokens : List Token) : Except ReadError (β × List Token) :=
  match tokens with
  | .closing .curly :: rest => .ok (state, rest)
  | .comma :: .string (some name) :: rest =>
      match member (String.ofList name) state rest with
      | .error error => .error error
      | .ok (state, after) =>
          if after.length ≤ rest.length then membersRest member state after
          else .error .malformed
  | _ => .error .malformed
termination_by tokens.length

/-- Members up to the closing curly bracket, with commas between them. Each is
read from its name on, together with what the members before it came to. -/
def members (member : String → β → Decoder β) (state : β) :
    Decoder β := fun tokens =>
  match tokens with
  | .closing .curly :: rest => .ok (state, rest)
  | .string (some name) :: rest =>
      match member (String.ofList name) state rest with
      | .error error => .error error
      | .ok (state, after) => membersRest member state after
  | _ => .error .malformed

def sequence (levels : Nat)
    (item : (inner : Nat) → inner < levels → Decoder α) : Decoder (List α) := do
  match ← next with
  | .opening .square => within levels fun inner h => items (item inner h)
  | token => refuse token "a sequence"

/-- One of several named alternatives: an object with that name as its only
member. The name is judged before anything after it, and as in any object only a
string can be a name. -/
def alternative (levels : Nat) (known : List String)
    (content : String → (inner : Nat) → inner < levels → Decoder α) :
    Decoder α := do
  let judge (name : List Char) : Decoder String :=
    if String.ofList name ∈ known then pure (String.ofList name)
    else mismatch (.unknownVariant (String.ofList name) known)
  match ← next with
  | .opening .curly =>
      within levels fun inner h => do
        match ← next with
        | .string (some name) =>
            let name ← judge name
            expect .colon
            let value ← content name inner h
            expect (.closing .curly)
            pure value
        | _ => malformed
  | .string (some name) =>
      let _ ← judge name
      mismatch (.invalidType .unitVariant "newtype variant")
  | _ => malformed

/-! A value that nobody asks for only has to be JSON. It may be nested to any
depth, and neither the size of its numbers nor the escapes of its strings
matter. -/

/-- What may come next while a value is skipped. -/
inductive Awaited where
  | value
  | first
  | name
  | colon
  | separator
  deriving DecidableEq, Repr

/-- What to await after a token, and the brackets that are then open, innermost
first. -/
def Awaited.after :
    Awaited → List Bracket → Token → Option (Awaited × List Bracket)
  | .first, bracket :: open', .closing closed =>
      if bracket = closed then some (.separator, open') else none
  | .separator, bracket :: open', .closing closed =>
      if bracket = closed then some (.separator, open') else none
  | .separator, .square :: open', .comma => some (.value, .square :: open')
  | .separator, .curly :: open', .comma => some (.name, .curly :: open')
  | .name, open', .string _ => some (.colon, open')
  | .first, .curly :: open', .string _ => some (.colon, .curly :: open')
  | .first, .curly :: _, _ => none
  | .colon, open', .colon => some (.value, open')
  | .separator, _, _ | .name, _, _ | .colon, _, _ => none
  | _, open', .opening bracket => some (.first, bracket :: open')
  | _, open', .null | _, open', .bool _ | _, open', .number _
  | _, open', .string _ => some (.separator, open')
  | _, _, _ => none

def skipFrom (awaited : Awaited) (brackets : List Bracket) :
    List Token → Except ReadError (Unit × List Token)
  | [] => .error .malformed
  | token :: rest =>
      match awaited.after brackets token with
      | none => .error .malformed
      | some (.separator, []) => .ok ((), rest)
      | some (awaited, brackets) => skipFrom awaited brackets rest

def skip : Decoder Unit := skipFrom .value []

end Decoder

end TermSearch.Json
