import TermSearch.Proofs.Json.Decoding
import TermSearch.Proofs.Json.Words

namespace TermSearch.Json

/-! JSON values as trees: their tokens, their texts, and what they are taken
for. Brackets that are looked into take a level each. -/

/-- The name of a member, unless its escapes denote half of a character. -/
abbrev Name := Option (List Char)

inductive Scalar where
  | null
  | bool (value : Bool)
  | number (numeral : Numeral)
  | string (text : Option (List Char))

def Scalar.token : Scalar → Token
  | .null => .null
  | .bool value => .bool value
  | .number numeral => .number numeral
  | .string text => .string text

inductive Value where
  | scalar (value : Scalar)
  | array (items : List Value)
  | object (members : List (Name × Value))

namespace Value

@[elab_as_elim, induction_eliminator]
theorem induction {motive : Value → Prop}
    (scalar : ∀ value, motive (scalar value))
    (array : ∀ items, (∀ item ∈ items, motive item) → motive (array items))
    (object : ∀ members, (∀ member ∈ members, motive member.2) →
      motive (object members)) : ∀ value, motive value
  | .scalar value => scalar value
  | .array items => array items fun item _ => induction scalar array object item
  | .object members =>
      object members fun member _ => induction scalar array object member.2
decreasing_by
  all_goals
    have hsmaller := List.sizeOf_lt_of_mem ‹_ ∈ _›
  · simp only [Value.array.sizeOf_spec]
    omega
  · cases member
    simp only [Value.object.sizeOf_spec, Prod.mk.sizeOf_spec] at hsmaller ⊢
    omega

mutual
def tokens : Value → List Token
  | .scalar value => [value.token]
  | .array items => .opening .square :: itemsTokens items
  | .object members => .opening .curly :: membersTokens members

def itemsTokens : List Value → List Token
  | [] => [.closing .square]
  | item :: items => item.tokens ++ moreItems items

def moreItems : List Value → List Token
  | [] => [.closing .square]
  | item :: items => .comma :: (item.tokens ++ moreItems items)

def membersTokens : List (Name × Value) → List Token
  | [] => [.closing .curly]
  | (name, value) :: members =>
      .string name :: .colon :: (value.tokens ++ moreMembers members)

def moreMembers : List (Name × Value) → List Token
  | [] => [.closing .curly]
  | (name, value) :: members =>
      .comma :: .string name :: .colon :: (value.tokens ++ moreMembers members)
end

/-! Numbers never stand side by side, as there is something after each item or
member. -/

theorem not_isNumber_of_moreItems (items : List Value) :
    ∀ token ∈ (moreItems items).head?, ¬ token.IsNumber := by
  cases items <;> rintro _ ⟨⟩ <;> exact not_false

theorem not_isNumber_of_moreMembers (members : List (Name × Value)) :
    ∀ token ∈ (moreMembers members).head?, ¬ token.IsNumber := by
  cases members <;> rintro _ ⟨⟩ <;> exact not_false

theorem numbersApart_moreItems {items : List Value}
    (h : ∀ item ∈ items, NumbersApart item.tokens) :
    NumbersApart (moreItems items) := by
  induction items with
  | nil => exact .singleton _
  | cons item items ih =>
      obtain ⟨hitem, hitems⟩ := List.forall_mem_cons.mp h
      exact .cons not_false
        (hitem.append (ih hitems) (not_isNumber_of_moreItems items))

theorem numbersApart_moreMembers {members : List (Name × Value)}
    (h : ∀ member ∈ members, NumbersApart member.2.tokens) :
    NumbersApart (moreMembers members) := by
  induction members with
  | nil => exact .singleton _
  | cons member members ih =>
      obtain ⟨hmember, hmembers⟩ := List.forall_mem_cons.mp h
      have hrest :=
        hmember.append (ih hmembers) (not_isNumber_of_moreMembers members)
      exact .cons not_false (.cons not_false (.cons not_false hrest))

theorem numbersApart_tokens (value : Value) : NumbersApart value.tokens := by
  induction value with
  | scalar value => exact .singleton _
  | array items ih =>
      cases items with
      | nil => exact .cons not_false (.singleton _)
      | cons item items =>
          exact .cons not_false
            (List.isChain_cons.mp (numbersApart_moreItems ih)).2
  | object members ih =>
      cases members with
      | nil => exact .cons not_false (.singleton _)
      | cons member members =>
          exact .cons not_false
            (List.isChain_cons.mp (numbersApart_moreMembers ih)).2

theorem startsItem_tokens (value : Value) :
    Decoder.StartsItem value.tokens := by
  cases value with
  | scalar value =>
      exact ⟨value.token, [], rfl, by cases value <;> exact Token.noConfusion⟩
  | array items => exact ⟨.opening .square, _, rfl, by decide⟩
  | object members => exact ⟨.opening .curly, _, rfl, by decide⟩

/-- The text spells the value, with blanks wherever blanks may be. -/
def IsText (value : Value) (text : String) : Prop :=
  IsSpread value.tokens text.toList

theorem tokens_of_isText {value : Value} {text : String}
    (h : value.IsText text) : Json.tokens text.toList = value.tokens :=
  h.tokens_eq value.numbersApart_tokens

section Reading

variable {α β : Type}

def text? : Value → Option String
  | .scalar (.string text) => text.map String.ofList
  | _ => none

def natural? : Value → Option UInt64
  | .scalar (.number numeral) =>
      match numeral.value? with
      | some (.natural value) => some value
      | _ => none
  | _ => none

def within? (levels : Nat)
    (inside : (inner : Nat) → inner < levels → Option α) : Option α :=
  match levels with
  | 0 => none
  | inner + 1 => inside inner (Nat.lt_succ_self inner)

theorem within?_congr {levels : Nat}
    {left right : (inner : Nat) → inner < levels → Option α}
    (h : ∀ inner hinner, left inner hinner = right inner hinner) :
    within? levels left = within? levels right := by
  cases levels with
  | zero => rfl
  | succ inner => exact h inner (Nat.lt_succ_self inner)

def sequence? (levels : Nat)
    (item : (inner : Nat) → inner < levels → Value → Option α) :
    Value → Option (List α)
  | .array items => within? levels fun inner h => items.mapM (item inner h)
  | _ => none

def passMember (member : String → β → Value → Option β) (state : β)
    (entry : Name × Value) : Option β :=
  entry.1.bind fun name => member (String.ofList name) state entry.2

def foldMembers (member : String → β → Value → Option β) (state : β)
    (members : List (Name × Value)) : Option β :=
  members.foldlM (passMember member) state

theorem foldMembers_cons (member : String → β → Value → Option β) (state : β)
    (entry : Name × Value) (members : List (Name × Value)) :
    foldMembers member state (entry :: members) =
      (passMember member state entry).bind fun next =>
        foldMembers member next members := rfl

theorem foldMembers_append (member : String → β → Value → Option β)
    (state : β) (left right : List (Name × Value)) :
    foldMembers member state (left ++ right) =
      (foldMembers member state left).bind fun next =>
        foldMembers member next right :=
  List.foldlM_append

def alternative? (levels : Nat) (known : List String)
    (content : String → (inner : Nat) → inner < levels → Value → Option α) :
    Value → Option α
  | .object [(some name, value)] =>
      if String.ofList name ∈ known then
        within? levels fun inner h => content (String.ofList name) inner h value
      else
        none
  | _ => none

theorem alternative?_of_length_ne {levels : Nat} {known : List String}
    {content : String → (inner : Nat) → inner < levels → Value → Option α}
    {members : List (Name × Value)} (h : members.length ≠ 1) :
    (object members).alternative? levels known content = none := by
  unfold alternative?
  split
  · rename_i heq
    cases heq
    exact absurd rfl h
  · rfl

theorem alternative?_zero {known : List String}
    {content : String → (inner : Nat) → inner < 0 → Value → Option α}
    (value : Value) : value.alternative? 0 known content = none := by
  unfold alternative?
  split
  · exact ite_self none
  · rfl

theorem alternative?_object_cons {inner : Nat} {known : List String}
    {content : String → (inner' : Nat) → inner' < inner + 1 → Value → Option α}
    (name : List Char) (value : Value) (members : List (Name × Value)) :
    (object ((some name, value) :: members)).alternative? (inner + 1) known
        content =
      if String.ofList name ∈ known then
        if members = [] then
          content (String.ofList name) inner (Nat.lt_succ_self inner) value
        else none
      else none := by
  cases members with
  | nil => rfl
  | cons => exact (ite_self none).symm

end Reading

end Value

end TermSearch.Json
