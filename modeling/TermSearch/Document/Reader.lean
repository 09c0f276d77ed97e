import TermSearch.Document.Printer
import TermSearch.Json.Decoder
import TermSearch.Json.Lexer

namespace TermSearch

/-! Reading documents from JSON. The root may be an object, with its members in
any order and further members between them, or an array of its three parts. -/

open Json (Decoder)

def nestingLimit : Nat := 127

namespace FieldValues

/-- A later entry replaces an earlier one of the same name. -/
def decode (levels : Nat) : Decoder FieldValues := do
  match ← Decoder.next with
  | .opening .curly =>
      Decoder.within levels fun inner _ =>
        Decoder.members (fun name fields => do
          Decoder.expect .colon
          let values ← Decoder.sequence inner fun _ _ => Decoder.text
          pure (fields.insert name values)) empty
  | token => Decoder.refuse token "a map"

end FieldValues

namespace Clause

def decode (levels : Nat) : Decoder Clause :=
  Decoder.alternative levels ["terms", "bool"] fun name inner _ =>
    if name = "terms" then
      .terms <$> FieldValues.decode inner
    else
      Decoder.alternative inner ["must", "should"] fun name inner _ =>
        .bool (if name = "must" then .all else .any) <$>
          Decoder.sequence inner fun inner _ => decode inner
termination_by levels

end Clause

namespace QueryDocument

structure Draft where
  offset : Option UInt64
  size : Option UInt64
  query : Option Clause

/-- A member of the root from its name on. That a name was there before is
noticed right after the name. -/
def decodeMember (levels : Nat) (name : String) (draft : Draft) :
    Decoder Draft :=
  let fresh (taken : Bool) : Decoder Unit :=
    if taken then Decoder.mismatch (.duplicateField name)
    else Decoder.expect .colon
  match name with
  | "from" => do
      fresh draft.offset.isSome
      pure { draft with offset := some (← Decoder.natural) }
  | "size" => do
      fresh draft.size.isSome
      pure { draft with size := some (← Decoder.natural) }
  | "query" => do
      fresh draft.query.isSome
      pure { draft with query := some (← Clause.decode levels) }
  | _ => do
      Decoder.expect .colon
      Decoder.skip
      pure draft

def Draft.finish (draft : Draft) : Decoder QueryDocument :=
  match draft.offset, draft.size, draft.query with
  | none, _, _ => Decoder.mismatch (.missingField "from")
  | _, none, _ => Decoder.mismatch (.missingField "size")
  | _, _, none => Decoder.mismatch (.missingField "query")
  | some offset, some size, some query => pure ⟨⟨offset, size⟩, query⟩

/-- A comma before the next part, unless the array ends after so many parts. -/
def decodeComma (length : Nat) : Decoder Unit := do
  match ← Decoder.next with
  | .comma => pure ()
  | .closing .square =>
      Decoder.mismatch
        (.invalidLength length "struct QueryDocument with 3 elements")
  | _ => Decoder.malformed

def decodeParts (levels : Nat) : Decoder QueryDocument := do
  if (← get).head? = some (.closing .square) then decodeComma 0
  let offset ← Decoder.natural
  decodeComma 1
  let size ← Decoder.natural
  decodeComma 2
  let query ← Clause.decode levels
  Decoder.expect (.closing .square)
  pure ⟨⟨offset, size⟩, query⟩

def decode : Decoder QueryDocument := do
  match ← Decoder.next with
  | .opening .curly =>
      Decoder.within nestingLimit fun inner _ => do
        (← Decoder.members (decodeMember inner) ⟨none, none, none⟩).finish
  | .opening .square =>
      Decoder.within nestingLimit fun inner _ => decodeParts inner
  | token => Decoder.refuse token "struct QueryDocument"

def read (json : String) : Except Json.ReadError QueryDocument :=
  match decode (Json.tokens json.toList) with
  | .error error => .error error
  | .ok (document, []) => .ok document
  | .ok (_, _ :: _) => .error .malformed

end QueryDocument

end TermSearch
