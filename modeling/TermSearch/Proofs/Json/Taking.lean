import TermSearch.Proofs.Json.Value

namespace TermSearch.Json.Decoder

/-! What decoders make of the tokens of any value, whether they accept it or
not. -/

variable {α β : Type}

/-- Of a text that goes on with these tokens the decoder takes just them and
comes to the result, or it fails if there is none. -/
def Takes (decoder : Decoder α) (tokens : List Token)
    (result : Option α) : Prop :=
  ∀ rest, (decoder (tokens ++ rest)).toOption = result.map (·, rest)

theorem Reads.takes {decoder : Decoder α} {tokens : List Token} {value : α}
    (h : Reads decoder tokens value) : Takes decoder tokens (some value) := by
  intro rest
  rw [h]
  rfl

namespace Takes

variable {decoder : Decoder α} {continuation : α → Decoder β}
  {tokens more : List Token}

theorem reads {value : α} (h : Takes decoder tokens (some value)) :
    Reads decoder tokens value := by
  intro rest
  have hrest := h rest
  generalize decoder (tokens ++ rest) = result at hrest
  cases result with
  | error => cases hrest
  | ok taken =>
      cases hrest
      rfl

theorem exists_error (h : Takes decoder tokens none) (rest : List Token) :
    ∃ error, decoder (tokens ++ rest) = .error error := by
  have hrest := h rest
  generalize decoder (tokens ++ rest) = result at hrest
  cases result with
  | error error => exact ⟨error, rfl⟩
  | ok => cases hrest

theorem bind_of_none (h : Takes decoder tokens none)
    (continuation : α → Decoder β) (more : List Token) :
    Takes (decoder >>= continuation) (tokens ++ more) none := by
  intro rest
  rw [List.append_assoc]
  change (Except.bind (decoder (tokens ++ (more ++ rest))) _).toOption = _
  obtain ⟨error, herror⟩ := h.exists_error (more ++ rest)
  rw [herror]
  rfl

theorem length_le {result : Option α} (h : Takes decoder tokens result)
    {rest after : List Token} {value : α}
    (hread : decoder (tokens ++ rest) = .ok (value, after)) :
    after.length ≤ (tokens ++ rest).length := by
  have htaken := h rest
  rw [hread] at htaken
  cases result with
  | none => cases htaken
  | some =>
      cases htaken
      rw [List.length_append]
      exact Nat.le_add_left _ _

theorem bind {result : Option α} {last : α → Option β}
    (h : Takes decoder tokens result)
    (hmore : ∀ value, Takes (continuation value) more (last value)) :
    Takes (decoder >>= continuation) (tokens ++ more) (result.bind last) := by
  cases result with
  | none => exact h.bind_of_none continuation more
  | some value =>
      intro rest
      rw [List.append_assoc]
      change (Except.bind (decoder (tokens ++ (more ++ rest))) _).toOption = _
      rw [h.reads]
      exact hmore value rest

theorem bind_none {result : Option α} (h : Takes decoder tokens result)
    (hmore : ∀ value, Takes (continuation value) more none) :
    Takes (decoder >>= continuation) (tokens ++ more) none := by
  have hall := h.bind hmore
  rwa [Option.bind_fun_none] at hall

theorem map {result : Option α} (h : Takes decoder tokens result)
    (change : α → β) :
    Takes (change <$> decoder) tokens (result.map change) := by
  cases result with
  | none =>
      intro rest
      change (Except.bind (decoder (tokens ++ rest)) _).toOption = _
      obtain ⟨error, herror⟩ := h.exists_error rest
      rw [herror]
      rfl
  | some value => exact (h.reads.map change).takes

theorem bind_pure {result : Option α} (h : Takes decoder tokens result)
    (change : α → β) :
    Takes (decoder >>= fun value => pure (change value)) tokens
      (result.map change) :=
  h.map change

end Takes

theorem Reads.bind_takes {decoder : Decoder α} {continuation : α → Decoder β}
    {tokens more : List Token} {value : α} {last : Option β}
    (h : Reads decoder tokens value)
    (hmore : Takes (continuation value) more last) :
    Takes (decoder >>= continuation) (tokens ++ more) last := by
  intro rest
  rw [List.append_assoc]
  change (Except.bind (decoder (tokens ++ (more ++ rest))) _).toOption = _
  rw [h]
  exact hmore rest

/-! Failures. -/

def Fails (decoder : Decoder α) : Prop :=
  ∀ tokens, (decoder tokens).toOption = none

theorem Fails.takes {decoder : Decoder α} (h : Fails decoder)
    (tokens : List Token) : Takes decoder tokens none :=
  fun _ => h _

theorem fails_malformed : Fails (malformed : Decoder α) := fun _ => rfl

theorem fails_mismatch (fault : Schema.Mismatch) :
    Fails (mismatch fault : Decoder α) :=
  fun _ => rfl

theorem Fails.bind {decoder : Decoder α} (h : Fails decoder)
    (continuation : α → Decoder β) : Fails (decoder >>= continuation) := by
  intro tokens
  change (Except.bind (decoder tokens) _).toOption = none
  have hfails := h tokens
  generalize decoder tokens = taken at hfails ⊢
  cases taken with
  | error => rfl
  | ok => cases hfails

theorem Fails.of_bind {decoder : Decoder α} {continuation : α → Decoder β}
    (h : ∀ value, Fails (continuation value)) :
    Fails (decoder >>= continuation) := by
  intro tokens
  change (Except.bind (decoder tokens) _).toOption = none
  cases decoder tokens with
  | error => rfl
  | ok taken => exact h taken.1 taken.2

theorem fails_refuse (token : Token) (expected : String) :
    Fails (refuse token expected : Decoder α) :=
  .of_bind fun _ => fails_mismatch _

theorem takes_expect_of_ne {token wanted : Token} (h : token ≠ wanted) :
    Takes (expect wanted) [token] none := by
  have hrest :
      Takes (if token = wanted then pure () else malformed) [] none := by
    rw [if_neg h]
    exact fails_malformed.takes []
  exact (Reads.next token).bind_takes hrest

theorem takes_of_refuse {continuation : Token → Decoder α} {token : Token}
    {expected : String} (h : continuation token = refuse token expected)
    (more : List Token) :
    Takes (next >>= continuation) (token :: more) none := by
  refine (Reads.next token).bind_takes ?_
  rw [h]
  exact (fails_refuse token expected).takes more

/-! Scalars. -/

theorem takes_text (value : Value) : Takes text value.tokens value.text? := by
  cases value with
  | scalar scalar =>
      rcases scalar with _ | _ | _ | (_ | text)
      · exact takes_of_refuse rfl _
      · exact takes_of_refuse rfl _
      · exact takes_of_refuse rfl _
      · exact takes_of_refuse rfl _
      · exact fun _ => rfl
  | array => exact takes_of_refuse rfl _
  | object => exact takes_of_refuse rfl _

theorem takes_natural (value : Value) :
    Takes natural value.tokens value.natural? := by
  cases value with
  | scalar scalar =>
      cases scalar with
      | number numeral =>
          refine (Reads.next (.number numeral)).bind_takes ?_
          simp only [Value.natural?]
          rcases numeral.value? with _ | (_ | _ | _)
          · exact (fails_refuse _ _).takes _
          · exact (Reads.pure _).takes
          · exact (fails_mismatch _).takes _
          · exact (fails_refuse _ _).takes _
      | null => exact takes_of_refuse rfl _
      | bool => exact takes_of_refuse rfl _
      | string => exact takes_of_refuse rfl _
  | array => exact takes_of_refuse rfl _
  | object => exact takes_of_refuse rfl _

/-! Sequences. -/

section Sequences

variable {item : Decoder α} {reading : Value → Option α}

theorem takes_itemsRest (h : ∀ value, Takes item value.tokens (reading value))
    (values : List Value) :
    Takes (itemsRest item) (Value.moreItems values) (values.mapM reading) := by
  intro rest
  induction values with
  | nil =>
      rw [Value.moreItems, List.singleton_append, itemsRest]
      rfl
  | cons value values ih =>
      have hvalue := h value
      rw [Value.moreItems, List.cons_append, List.append_assoc, itemsRest,
        List.mapM_cons]
      cases hreading : reading value with
      | none =>
          rw [hreading] at hvalue
          obtain ⟨error, herror⟩ := hvalue.exists_error _
          rw [herror]
          rfl
      | some first =>
          rw [hreading] at hvalue
          rw [hvalue.reads]
          simp only [List.length_append, Nat.le_add_left, if_true]
          generalize itemsRest item _ = taken at ih ⊢
          generalize values.mapM reading = more at ih ⊢
          cases taken <;> cases more <;> cases ih <;> rfl

theorem items_eq_itemsRest {tokens : List Token} (hstart : StartsItem tokens)
    (hshorter : ∀ value after, item tokens = .ok (value, after) →
      after.length ≤ tokens.length) :
    items item tokens = itemsRest item (.comma :: tokens) := by
  obtain ⟨token, more, rfl, htoken⟩ := hstart
  unfold items
  split
  · rename_i heq
    exact absurd (List.cons.inj heq).1 htoken
  · rw [itemsRest]
    cases hread : item (token :: more) with
    | error => rfl
    | ok taken =>
        simp only [if_pos (hshorter _ _ hread)]

theorem takes_items (h : ∀ value, Takes item value.tokens (reading value))
    (values : List Value) :
    Takes (items item) (Value.itemsTokens values) (values.mapM reading) := by
  intro rest
  cases values with
  | nil => rfl
  | cons value values =>
      have hall := takes_itemsRest h (value :: values) rest
      have hstart :=
        value.startsItem_tokens.append (Value.moreItems values ++ rest)
      rw [Value.moreItems, List.cons_append, List.append_assoc,
        ← items_eq_itemsRest hstart fun _ _ => (h value).length_le] at hall
      rwa [Value.itemsTokens, List.append_assoc]

theorem takes_sequence {levels : Nat}
    {item : (inner : Nat) → inner < levels → Decoder α}
    {reading : (inner : Nat) → inner < levels → Value → Option α}
    (h : ∀ inner hinner value,
      Takes (item inner hinner) value.tokens (reading inner hinner value))
    (value : Value) :
    Takes (sequence levels item) value.tokens
      (value.sequence? levels reading) := by
  cases value with
  | scalar scalar => cases scalar <;> exact takes_of_refuse rfl _
  | object => exact takes_of_refuse rfl _
  | array items =>
      refine (Reads.next (.opening .square)).bind_takes ?_
      cases levels with
      | zero => exact fails_malformed.takes _
      | succ inner => exact takes_items (h inner (Nat.lt_succ_self inner)) items

end Sequences

/-! Objects. -/

section Objects

variable {member : String → β → Decoder β}
  {reading : String → β → Value → Option β}

theorem takes_membersRest
    (h : ∀ name state value,
      Takes (member name state) (.colon :: value.tokens)
        (reading name state value))
    (entries : List (Name × Value)) (state : β) :
    Takes (membersRest member state) (Value.moreMembers entries)
      (Value.foldMembers reading state entries) := by
  intro rest
  induction entries generalizing state with
  | nil =>
      rw [Value.moreMembers, List.singleton_append, membersRest]
      rfl
  | cons entry entries ih =>
      obtain ⟨_ | name, value⟩ := entry
      · rw [Value.moreMembers, List.cons_append, membersRest]
        · rfl
        all_goals simp
      have hvalue := h (String.ofList name) state value
      rw [Value.moreMembers, List.cons_append, List.cons_append,
        List.cons_append, List.append_assoc, ← List.cons_append, membersRest]
      change _ = ((reading (String.ofList name) state value).bind fun next =>
        Value.foldMembers reading next entries).map (·, rest)
      cases hreading : reading (String.ofList name) state value with
      | none =>
          rw [hreading] at hvalue
          obtain ⟨error, herror⟩ := hvalue.exists_error _
          rw [herror]
          rfl
      | some next =>
          rw [hreading] at hvalue
          rw [hvalue.reads]
          simp only [List.length_append, Nat.le_add_left, if_true]
          exact ih next

theorem members_eq_membersRest {name : List Char} {state : β}
    {tokens : List Token}
    (hshorter : ∀ next after,
      member (String.ofList name) state tokens = .ok (next, after) →
      after.length ≤ tokens.length) :
    members member state (.string (some name) :: tokens) =
      membersRest member state (.comma :: .string (some name) :: tokens) := by
  rw [members, membersRest]
  cases hread : member (String.ofList name) state tokens with
  | error => rfl
  | ok taken => simp only [if_pos (hshorter _ _ hread)]

theorem takes_members
    (h : ∀ name state value,
      Takes (member name state) (.colon :: value.tokens)
        (reading name state value))
    (entries : List (Name × Value)) (state : β) :
    Takes (members member state) (Value.membersTokens entries)
      (Value.foldMembers reading state entries) := by
  intro rest
  cases entries with
  | nil => rfl
  | cons entry entries =>
      have hall := takes_membersRest h (entry :: entries) state rest
      obtain ⟨_ | name, value⟩ := entry
      · rfl
      · rw [Value.moreMembers, List.cons_append, List.cons_append,
          List.cons_append, List.append_assoc, ← List.cons_append,
          ← members_eq_membersRest fun _ _ => (h _ state value).length_le]
          at hall
        rwa [Value.membersTokens, List.cons_append, List.cons_append,
          List.append_assoc]

theorem takes_content {content : Decoder α} {result : Option α} {value : Value}
    (h : Takes content value.tokens result) (entries : List (Name × Value)) :
    Takes
      (do
        expect .colon
        let read ← content
        expect (.closing .curly)
        pure read)
      (.colon :: (value.tokens ++ Value.moreMembers entries))
      (if entries = [] then result else none) := by
  refine (Reads.expect .colon).bind_takes ?_
  cases entries with
  | nil =>
      have hend : ∀ read : α,
          Takes (do expect (.closing .curly); pure read) [.closing .curly]
            (some read) :=
        fun read =>
          ((Reads.expect (.closing .curly)).bind_nil (.pure read)).takes
      have hall := h.bind hend
      rwa [Option.bind_fun_some] at hall
  | cons entry entries =>
      have hcomma : Takes (expect (.closing .curly)) [.comma] none :=
        takes_expect_of_ne (by decide)
      rw [if_neg (List.cons_ne_nil _ _)]
      exact h.bind_none fun read => hcomma.bind_of_none (fun _ => pure read) _

theorem takes_alternative {levels : Nat} {known : List String}
    {content : String → (inner : Nat) → inner < levels → Decoder α}
    {reading : String → (inner : Nat) → inner < levels → Value → Option α}
    (h : ∀ name inner hinner value,
      Takes (content name inner hinner) value.tokens
        (reading name inner hinner value))
    (value : Value) :
    Takes (alternative levels known content) value.tokens
      (value.alternative? levels known reading) := by
  cases value with
  | scalar scalar =>
      rcases scalar with _ | _ | _ | (_ | name)
      · exact (Reads.next .null).bind_takes (fails_malformed.takes _)
      · exact (Reads.next (.bool _)).bind_takes (fails_malformed.takes _)
      · exact (Reads.next (.number _)).bind_takes (fails_malformed.takes _)
      · exact (Reads.next (.string none)).bind_takes (fails_malformed.takes _)
      · refine (Reads.next (.string (some name))).bind_takes ?_
        exact Fails.takes (.of_bind fun _ => fails_mismatch _) _
  | array =>
      exact (Reads.next (.opening .square)).bind_takes (fails_malformed.takes _)
  | object entries =>
      refine (Reads.next (.opening .curly)).bind_takes ?_
      cases levels with
      | zero =>
          rw [Value.alternative?_zero]
          exact fails_malformed.takes _
      | succ inner =>
          rcases entries with _ | ⟨⟨_ | name, value⟩, entries⟩
          · exact (Reads.next (.closing .curly)).bind_takes
              (fails_malformed.takes _)
          · exact (Reads.next (.string none)).bind_takes
              (fails_malformed.takes _)
          · have hcontent :=
              takes_content (h (String.ofList name) inner
                (Nat.lt_succ_self inner) value) entries
            rw [Value.alternative?_object_cons]
            refine (Reads.next (.string (some name))).bind_takes ?_
            by_cases hname : String.ofList name ∈ known
            · simp only [if_pos hname]
              exact (Reads.pure _).bind_takes hcontent
            · simp only [if_neg hname]
              exact ((fails_mismatch _).bind _).takes _

end Objects

end TermSearch.Json.Decoder
