import TermSearch.Json.Decoder
import TermSearch.Json.Layout

namespace TermSearch.Json

/-! What decoders read from written tokens. A decoder that takes some tokens for
a value takes nothing of what follows, so the parts of a value can be read one
after another. -/

theorem le_ofDigitChars (value : Nat) (digits : List Char) :
    value ≤ Nat.ofDigitChars 10 digits value := by
  rw [Nat.ofDigitChars_eq_ofDigitChars_zero]
  exact Nat.le_add_right_of_le
    (Nat.le_mul_of_pos_left value (Nat.pow_pos (by decide)))

theorem withDigit?_eq_some {value : Nat} {digit : Char}
    (h : 10 * value + digitValue digit < UInt64.size) :
    withDigit? value digit = some (10 * value + digitValue digit) := by
  simp only [withDigit?, if_pos h]

-- comparing with the bound of 64 bits must not be tried on numbers that are not
-- given
attribute [local irreducible] withDigit? in
theorem absorb_cons (value : Nat) (digit : Char) (digits : List Char) :
    absorb value (digit :: digits) =
      match withDigit? value digit with
      | some longer => absorb longer digits
      | none => (value, digit :: digits) := by
  rfl

theorem absorb_eq {value : Nat} {digits : List Char}
    (h : Nat.ofDigitChars 10 digits value < UInt64.size) :
    absorb value digits = (Nat.ofDigitChars 10 digits value, []) := by
  induction digits generalizing value with
  | nil => rfl
  | cons digit digits ih =>
      rw [Nat.ofDigitChars_cons] at h ⊢
      have hlonger :=
        withDigit?_eq_some (Nat.lt_of_le_of_lt (le_ofDigitChars _ digits) h)
      rw [absorb_cons, hlonger]
      exact ih h

theorem Numeral.value?_ofNat {n : Nat} (h : n < UInt64.size) :
    (ofNat n).value? = some (.natural n.toUInt64) := by
  have hdigits : Nat.ofDigitChars 10 (Nat.toDigits 10 n) 0 = n :=
    Nat.ofDigitChars_ten_toDigits
  have habsorb : absorb 0 (ofNat n).whole = (n, []) := by
    rw [ofNat, absorb_eq (hdigits.symm ▸ h), hdigits]
  rw [value?, habsorb]
  rfl

namespace Decoder

/-- The decoder takes the tokens for the value, whatever comes after them. -/
def Reads (decoder : Decoder α) (tokens : List Token) (value : α) : Prop :=
  ∀ rest, decoder (tokens ++ rest) = .ok (value, rest)

namespace Reads

theorem pure (value : α) : Reads (Pure.pure value) [] value := fun _ => rfl

theorem bind {decoder : Decoder α} {continuation : α → Decoder β}
    {tokens more : List Token} {value : α} {result : β}
    (h : Reads decoder tokens value)
    (hmore : Reads (continuation value) more result) :
    Reads (decoder >>= continuation) (tokens ++ more) result := by
  intro rest
  rw [List.append_assoc]
  change Except.bind (decoder (tokens ++ (more ++ rest))) _ = _
  rw [h]
  exact hmore rest

theorem bind_nil {decoder : Decoder α} {continuation : α → Decoder β}
    {tokens : List Token} {value : α} {result : β}
    (h : Reads decoder tokens value)
    (hmore : Reads (continuation value) [] result) :
    Reads (decoder >>= continuation) tokens result :=
  List.append_nil tokens ▸ h.bind hmore

theorem map {decoder : Decoder α} {tokens : List Token} {value : α}
    (change : α → β) (h : Reads decoder tokens value) :
    Reads (change <$> decoder) tokens (change value) := by
  intro rest
  change Except.bind (decoder (tokens ++ rest)) _ = _
  rw [h]
  rfl

theorem next (token : Token) : Reads next [token] token := fun _ => rfl

theorem expect (token : Token) : Reads (expect token) [token] () := by
  refine (next token).bind_nil ?_
  rw [if_pos rfl]
  exact pure ()

theorem text (value : String) : Reads text [.text value] value := by
  intro rest
  change Except.ok (String.ofList value.toList, rest) = _
  rw [String.ofList_toList]

theorem natural (value : UInt64) : Reads natural [.nat value.toNat] value := by
  refine (next _).bind_nil ?_
  have hvalue := Numeral.value?_ofNat value.toNat_lt
  simp only [Token.nat, hvalue]
  rw [show value.toNat.toUInt64 = value from UInt64.ofNat_toNat]
  exact pure value

end Reads

/-! Sequences. -/

def StartsItem (tokens : List Token) : Prop :=
  ∃ token rest, tokens = token :: rest ∧ token ≠ .closing .square

theorem StartsItem.append {tokens : List Token} (h : StartsItem tokens)
    (more : List Token) : StartsItem (tokens ++ more) := by
  obtain ⟨token, rest, rfl, htoken⟩ := h
  exact ⟨token, rest ++ more, rfl, htoken⟩

section Sequences

variable {item : Decoder α} {tokens : α → List Token} {values : List α}

theorem itemsRest_eq (h : ∀ value ∈ values, Reads item (tokens value) value)
    (rest : List Token) :
    itemsRest item
        ((values.map tokens).flatMap (Token.comma :: ·) ++ .closing .square ::
          rest) =
      .ok (values, rest) := by
  induction values with
  | nil =>
      rw [List.map_nil, List.flatMap_nil, List.nil_append, itemsRest]
  | cons value values ih =>
      obtain ⟨hvalue, hvalues⟩ := List.forall_mem_cons.mp h
      rw [List.map_cons, List.flatMap_cons, List.append_assoc, List.cons_append,
        itemsRest, hvalue]
      simp only [List.length_append, Nat.le_add_left, if_true]
      rw [ih hvalues]
      rfl

theorem Reads.items (h : ∀ value ∈ values, Reads item (tokens value) value)
    (hstart : ∀ value ∈ values, StartsItem (tokens value)) :
    Reads (items item)
      ([Token.comma].intercalate (values.map tokens) ++ [.closing .square])
      values := by
  intro rest
  rw [List.append_assoc, List.singleton_append]
  cases values with
  | nil => rfl
  | cons value values =>
      obtain ⟨hvalue, hvalues⟩ := List.forall_mem_cons.mp h
      obtain ⟨token, more, htokens, htoken⟩ := hstart value List.mem_cons_self
      have hread := hvalue ((values.map tokens).flatMap (Token.comma :: ·) ++
        .closing .square :: rest)
      rw [List.map_cons, intercalate_comma_cons, List.append_assoc]
      rw [htokens, List.cons_append] at hread ⊢
      unfold Decoder.items
      split
      · -- the first item is not taken for the end
        rename_i heq
        exact absurd (List.cons.inj heq).1 htoken
      · rw [hread]
        simp only [itemsRest_eq hvalues]
        rfl

theorem Reads.sequence {inner : Nat}
    {item : (inner' : Nat) → inner' < inner + 1 → Decoder α}
    (h : ∀ value ∈ values,
      Reads (item inner (Nat.lt_succ_self inner)) (tokens value) value)
    (hstart : ∀ value ∈ values, StartsItem (tokens value)) :
    Reads (sequence (inner + 1) item) (array (values.map tokens)) values :=
  (next (.opening .square)).bind (items h hstart)

end Sequences

/-! Objects. -/

/-- The members take the state to a last one, each from the state that those
before it came to. -/
inductive ReadsMembers (member : String → β → Decoder β) :
    β → List (String × List Token) → β → Prop
  | nil (state : β) : ReadsMembers member state [] state
  | cons {state next last : β} {name : String} {tokens : List Token}
      {members : List (String × List Token)}
      (hmember : Reads (member name state) (.colon :: tokens) next)
      (hmembers : ReadsMembers member next members last) :
      ReadsMembers member state ((name, tokens) :: members) last

section Members

variable {member : String → β → Decoder β} {state last : β}
variable {members : List (String × List Token)}

theorem ReadsMembers.membersRest_eq
    (h : ReadsMembers member state members last) (rest : List Token) :
    membersRest member state
        ((members.map fun member =>
            .text member.1 :: .colon :: member.2).flatMap (Token.comma :: ·) ++
          .closing .curly :: rest) =
      .ok (last, rest) := by
  induction h with
  | nil state =>
      rw [List.map_nil, List.flatMap_nil, List.nil_append, membersRest]
  | cons hmember _ ih =>
      rw [List.map_cons, List.flatMap_cons,
        List.append_assoc, List.cons_append, List.cons_append,
        Token.text, membersRest, String.ofList_toList, hmember]
      simp only [List.length_append, List.length_cons]
      rw [if_pos (by omega), ih]

theorem ReadsMembers.reads (h : ReadsMembers member state members last) :
    Reads (Decoder.members member state)
      ([Token.comma].intercalate
          (members.map fun member => .text member.1 :: .colon :: member.2) ++
        [.closing .curly]) last := by
  intro rest
  rw [List.append_assoc, List.singleton_append]
  cases h with
  | nil => rfl
  | cons hmember hmembers =>
      rw [List.map_cons, intercalate_comma_cons,
        List.append_assoc, List.cons_append, Token.text,
        Decoder.members, String.ofList_toList, hmember]
      exact hmembers.membersRest_eq rest

end Members

theorem Reads.alternative {inner : Nat} {known : List String}
    {content : String → (inner' : Nat) → inner' < inner + 1 → Decoder α}
    {name : String} {tokens : List Token} {value : α} (hname : name ∈ known)
    (h : Reads (content name inner (Nat.lt_succ_self inner)) tokens value) :
    Reads (alternative (inner + 1) known content) (object [(name, tokens)])
      value := by
  have hinside : Reads (do
      Decoder.expect .colon
      let value ← content name inner (Nat.lt_succ_self inner)
      Decoder.expect (.closing .curly)
      Pure.pure value) (.colon :: (tokens ++ [.closing .curly])) value :=
    (expect .colon).bind <| h.bind <|
      (expect (.closing .curly)).bind (pure value)
  have htokens : object [(name, tokens)] =
      .opening .curly :: .text name :: .colon ::
        (tokens ++ [.closing .curly]) := by
    simp [object]
  rw [htokens]
  refine (next (.opening .curly)).bind <| (next (.text name)).bind ?_
  simp only [Token.text, String.ofList_toList, if_pos hname]
  exact (pure name).bind hinside

end Decoder

end TermSearch.Json
