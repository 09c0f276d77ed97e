import TermSearch.Document.Reader
import TermSearch.Proofs.Json.Accepting
import TermSearch.Proofs.Json.Cutting

namespace TermSearch

/-! What documents are read from, as trees: the value that a text spells decides
whether it is read, and as which document. -/

open Json
open Json.Decoder (AcceptsValues Reads Takes fails_malformed takes_of_refuse)

namespace FieldValues

/-- An entry for each member, where a later one replaces an earlier one of the
same name. -/
def ofValue? (levels : Nat) : Value → Option FieldValues
  | .object members =>
      Value.within? levels fun inner _ =>
        Value.foldMembers (fun name fields value =>
          (value.sequence? inner fun _ _ => Value.text?).map
            (fields.insert name)) empty members
  | _ => none

theorem takes_member (levels : Nat) (name : String) (fields : FieldValues)
    (value : Value) :
    Takes
      (do
        Decoder.expect .colon
        let values ← Decoder.sequence levels fun _ _ => Decoder.text
        pure (fields.insert name values))
      (.colon :: value.tokens)
      ((value.sequence? levels fun _ _ => Value.text?).map
        (fields.insert name)) :=
  (Reads.expect .colon).bind_takes <|
    (Decoder.takes_sequence (fun _ _ => Decoder.takes_text) value).bind_pure _

theorem takes_decode (levels : Nat) (value : Value) :
    Takes (decode levels) value.tokens (ofValue? levels value) := by
  cases value with
  | scalar scalar => cases scalar <;> exact takes_of_refuse rfl _
  | array => exact takes_of_refuse rfl _
  | object members =>
      refine (Reads.next (.opening .curly)).bind_takes ?_
      cases levels with
      | zero => exact fails_malformed.takes _
      | succ inner =>
          exact Decoder.takes_members (takes_member inner) members empty

theorem acceptsMembers_member (levels : Nat) :
    Decoder.AcceptsMembers
      (fun name (fields : FieldValues) => (do
        Decoder.expect .colon
        let values ← Decoder.sequence levels fun _ _ => Decoder.text
        pure (fields.insert name values))) := by
  intro name fields tokens rest next h
  have hvalues :
      AcceptsValues (Decoder.sequence levels fun _ _ => Decoder.text) :=
    .sequence fun _ _ => Decoder.acceptsValues_text
  exact Decoder.exists_of_member hvalues h

theorem acceptsValues_decode (levels : Nat) :
    AcceptsValues (decode levels) := by
  intro tokens rest fields h
  obtain ⟨token, more, rfl, hmore⟩ := Decoder.exists_of_next h
  split at hmore
  · cases levels with
    | zero => cases hmore
    | succ inner =>
        obtain ⟨entries, rfl⟩ :=
          Decoder.exists_of_members (acceptsMembers_member inner) hmore
        exact ⟨.object entries, rfl⟩
  · exact absurd hmore ((Decoder.fails_refuse _ _).ne_ok _)

end FieldValues

namespace Clause

def ofValue? (levels : Nat) : Value → Option Clause :=
  Value.alternative? levels ["terms", "bool"] fun name inner _ =>
    if name = "terms" then
      fun value => (FieldValues.ofValue? inner value).map .terms
    else
      Value.alternative? inner ["must", "should"] fun name inner _ value =>
        (value.sequence? inner fun inner _ => ofValue? inner).map
          (.bool (if name = "must" then .all else .any))
termination_by levels

theorem takes_decode (levels : Nat) (value : Value) :
    Takes (decode levels) value.tokens (ofValue? levels value) := by
  induction levels using Nat.strongRecOn generalizing value with
  | ind levels ih =>
      rw [decode, ofValue?]
      refine Decoder.takes_alternative (fun name inner hinner value => ?_) value
      by_cases hname : name = "terms"
      · rw [if_pos hname, if_pos hname]
        exact (FieldValues.takes_decode inner value).map terms
      · rw [if_neg hname, if_neg hname]
        refine Decoder.takes_alternative
          (fun name inner' hinner' value => ?_) value
        refine (Decoder.takes_sequence (fun inner'' hinner'' value => ?_)
          value).map _
        exact ih inner'' (hinner''.trans (hinner'.trans hinner)) value

theorem acceptsValues_decode (levels : Nat) :
    AcceptsValues (decode levels) := by
  induction levels using Nat.strongRecOn with
  | ind levels ih =>
      rw [decode]
      refine AcceptsValues.alternative fun name inner hinner => ?_
      split
      · exact (FieldValues.acceptsValues_decode inner).map terms
      · refine AcceptsValues.alternative fun name inner' hinner' => ?_
        refine AcceptsValues.map
          (AcceptsValues.sequence fun inner'' hinner'' => ?_) _
        exact ih inner'' (hinner''.trans (hinner'.trans hinner))

end Clause

namespace QueryDocument

namespace Draft

def fill {α : Type} (part : Draft → Option α) (put : Draft → α → Draft)
    (read : Option α) (draft : Draft) : Option Draft :=
  if (part draft).isSome then none else read.map (put draft)

/-- The draft with one more member, whose name must not be there twice. Members
of other names are passed over. -/
def withMember? (levels : Nat) (name : String) (draft : Draft) (value : Value) :
    Option Draft :=
  match name with
  | "from" => draft.fill offset
      (fun draft read => { draft with offset := read }) value.natural?
  | "size" => draft.fill size
      (fun draft read => { draft with size := read }) value.natural?
  | "query" =>
      draft.fill query (fun draft read => { draft with query := read })
        (Clause.ofValue? levels value)
  | _ => some draft

def names : List String := ["from", "size", "query"]

theorem withMember?_of_not_mem {name : String} (h : name ∉ names)
    (levels : Nat) (draft : Draft) (value : Value) :
    draft.withMember? levels name value = some draft := by
  unfold withMember?
  split
  · exact absurd (by simp [names]) h
  · exact absurd (by simp [names]) h
  · exact absurd (by simp [names]) h
  · rfl

def finish? (draft : Draft) : Option QueryDocument :=
  match draft.offset, draft.size, draft.query with
  | some offset, some size, some query => some ⟨⟨offset, size⟩, query⟩
  | _, _, _ => none

end Draft

theorem takes_part {α : Type} {decoder : Decoder α} {value : Value}
    {read : Option α} (h : Takes decoder value.tokens read) (taken : Bool)
    (name : String) (put : α → Draft) :
    Takes
      (do
        (if taken then Decoder.mismatch (.duplicateField name)
        else Decoder.expect .colon)
        pure (put (← decoder)))
      (.colon :: value.tokens)
      (if taken then none else read.map put) := by
  cases taken with
  | true => exact Decoder.Fails.takes ((Decoder.fails_mismatch _).bind _) _
  | false => exact (Reads.expect .colon).bind_takes <| h.bind_pure put

theorem takes_decodeMember (levels : Nat) (name : String) (draft : Draft)
    (value : Value) :
    Takes (decodeMember levels name draft) (.colon :: value.tokens)
      (draft.withMember? levels name value) := by
  unfold decodeMember
  split
  · exact takes_part (Decoder.takes_natural value) _ _ _
  · exact takes_part (Decoder.takes_natural value) _ _ _
  · exact takes_part (Clause.takes_decode levels value) _ _ _
  · rename_i hoffset hsize hquery
    have hname : name ∉ Draft.names := by
      simp only [Draft.names, List.mem_cons, List.not_mem_nil, or_false, not_or]
      exact ⟨hoffset, hsize, hquery⟩
    rw [Draft.withMember?_of_not_mem hname]
    exact ((Reads.expect .colon).bind <|
      (Decoder.reads_skip value).bind_nil (.pure draft)).takes

theorem takes_finish (draft : Draft) : Takes draft.finish [] draft.finish? := by
  obtain ⟨_ | offset, size, query⟩ := draft
  · exact (Decoder.fails_mismatch _).takes []
  rcases size with _ | size
  · exact (Decoder.fails_mismatch _).takes []
  rcases query with _ | query
  · exact (Decoder.fails_mismatch _).takes []
  · exact (Reads.pure _).takes

theorem takes_decodeComma_closing (length : Nat) :
    Takes (decodeComma length) [.closing .square] none := by
  refine (Reads.next (.closing .square)).bind_takes (?_ : Takes _ [] none)
  exact (Decoder.fails_mismatch _).takes []

theorem reads_decodeComma (length : Nat) :
    Reads (decodeComma length) [.comma] () :=
  (Reads.next .comma).bind_nil (.pure ())

def ofParts? (levels : Nat) : List Value → Option QueryDocument
  | [offset, size, query] => do
      let offset ← offset.natural?
      let size ← size.natural?
      let query ← Clause.ofValue? levels query
      pure ⟨⟨offset, size⟩, query⟩
  | _ => none

theorem takes_parts (levels : Nat) (offset : Value) (items : List Value) :
    Takes
      (do
        let offset ← Decoder.natural
        decodeComma 1
        let size ← Decoder.natural
        decodeComma 2
        let query ← Clause.decode levels
        Decoder.expect (.closing .square)
        pure ⟨⟨offset, size⟩, query⟩)
      (offset.tokens ++ Value.moreItems items)
      (ofParts? levels (offset :: items)) := by
  have hoffset := Decoder.takes_natural offset
  rcases items with _ | ⟨size, items⟩
  · exact hoffset.bind_none fun _ =>
      (takes_decodeComma_closing 1).bind_of_none _ []
  have hsize := Decoder.takes_natural size
  rcases items with _ | ⟨query, items⟩
  · refine hoffset.bind_none fun _ => (reads_decodeComma 1).bind_takes <|
      hsize.bind_none fun _ => ?_
    exact (takes_decodeComma_closing 2).bind_of_none _ []
  have hquery := Clause.takes_decode levels query
  rcases items with _ | ⟨more, items⟩
  · refine hoffset.bind fun _ => (reads_decodeComma 1).bind_takes <|
      hsize.bind fun _ => (reads_decodeComma 2).bind_takes <|
        hquery.bind fun query => ?_
    have hend := Reads.expect (.closing .square)
    exact (hend.bind_nil (.pure (⟨⟨_, _⟩, query⟩ : QueryDocument))).takes
  · refine hoffset.bind_none fun _ => (reads_decodeComma 1).bind_takes <|
      hsize.bind_none fun _ => (reads_decodeComma 2).bind_takes <|
        hquery.bind_none fun _ => ?_
    have hcomma : Takes (Decoder.expect (.closing .square)) [.comma] none :=
      Decoder.takes_expect_of_ne (by decide)
    exact hcomma.bind_of_none _ _

theorem takes_decodeParts (levels : Nat) (items : List Value) :
    Takes (decodeParts levels) (Value.itemsTokens items)
      (ofParts? levels items) := by
  cases items with
  | nil => exact fun _ => rfl
  | cons offset items =>
      rw [Value.itemsTokens]
      have hparts := takes_parts levels offset items
      obtain ⟨token, more, htokens, htoken⟩ := offset.startsItem_tokens
      rw [htokens] at hparts ⊢
      have hhead : ¬ some token = some (.closing .square) := fun heq =>
        htoken (Option.some.inj heq)
      intro rest
      refine Eq.trans (congrArg Except.toOption ?_) (hparts rest)
      exact congrFun (if_neg hhead) _

def ofMembers? (levels : Nat) (members : List (Name × Value)) :
    Option QueryDocument :=
  (Value.foldMembers (Draft.withMember? levels) ⟨none, none, none⟩ members).bind
    Draft.finish?

/-- A document is an object or an array of its parts, and takes the first level
itself. -/
def ofValue? : Value → Option QueryDocument
  | .object members => ofMembers? (nestingLimit - 1) members
  | .array items => ofParts? (nestingLimit - 1) items
  | _ => none

theorem takes_decode (value : Value) :
    Takes decode value.tokens (ofValue? value) := by
  cases value with
  | scalar scalar => cases scalar <;> exact takes_of_refuse rfl _
  | array items =>
      exact (Reads.next (.opening .square)).bind_takes
        (takes_decodeParts _ items)
  | object members =>
      refine (Reads.next (.opening .curly)).bind_takes ?_
      have hmembers :=
        Decoder.takes_members (takes_decodeMember (nestingLimit - 1)) members
          ⟨none, none, none⟩
      have hdraft := hmembers.bind takes_finish
      rwa [List.append_nil] at hdraft

theorem exists_of_part {α : Type} {decoder : Decoder α}
    (h : AcceptsValues decoder) {taken : Bool} {name : String} {put : α → Draft}
    {tokens rest : List Token} {next : Draft}
    (hpart :
      (do
        (if taken then Decoder.mismatch (.duplicateField name)
        else Decoder.expect .colon)
        pure (put (← decoder)) : Decoder Draft) tokens = .ok (next, rest)) :
    ∃ value : Value, tokens = .colon :: (value.tokens ++ rest) := by
  cases taken with
  | true => exact absurd hpart (((Decoder.fails_mismatch _).bind _).ne_ok _)
  | false => exact Decoder.exists_of_member h hpart

theorem acceptsMembers_decodeMember (levels : Nat) :
    Decoder.AcceptsMembers (decodeMember levels) := by
  intro name draft tokens rest next h
  unfold decodeMember at h
  split at h
  · exact exists_of_part Decoder.acceptsValues_natural h
  · exact exists_of_part Decoder.acceptsValues_natural h
  · exact exists_of_part (Clause.acceptsValues_decode levels) h
  · exact Decoder.exists_of_member Decoder.acceptsValues_skip h

theorem eq_of_finish {draft : Draft} {tokens rest : List Token}
    {document : QueryDocument}
    (h : draft.finish tokens = .ok (document, rest)) : tokens = rest := by
  obtain ⟨_ | offset, size, query⟩ := draft
  · cases h
  rcases size with _ | size
  · cases h
  rcases query with _ | query
  · cases h
  · cases h
    rfl

theorem eq_of_decodeComma {length : Nat} {tokens rest : List Token}
    (h : decodeComma length tokens = .ok ((), rest)) :
    tokens = .comma :: rest := by
  obtain ⟨token, more, rfl, hmore⟩ := Decoder.exists_of_next h
  split at hmore <;> cases hmore
  rfl

theorem exists_of_decodeParts {levels : Nat} {tokens rest : List Token}
    {document : QueryDocument}
    (h : decodeParts levels tokens = .ok (document, rest)) :
    ∃ items, tokens = Value.itemsTokens items ++ rest := by
  obtain ⟨_, _, hget, h⟩ := Decoder.exists_of_bind h
  cases hget
  by_cases hhead : tokens.head? = some (.closing .square)
  · -- there is no comma where the array ends
    simp only [if_pos hhead] at h
    obtain ⟨_, _, hcomma, -⟩ := Decoder.exists_of_bind h
    rw [eq_of_decodeComma hcomma] at hhead
    cases hhead
  · simp only [if_neg hhead] at h
    obtain ⟨_, _, hoffset, h⟩ := Decoder.exists_of_bind h
    obtain ⟨_, _, hcomma, h⟩ := Decoder.exists_of_bind h
    obtain ⟨_, _, hsize, h⟩ := Decoder.exists_of_bind h
    obtain ⟨_, _, hcomma', h⟩ := Decoder.exists_of_bind h
    obtain ⟨_, _, hquery, h⟩ := Decoder.exists_of_bind h
    obtain ⟨_, _, hclosing, h⟩ := Decoder.exists_of_bind h
    cases h
    obtain ⟨offset, rfl⟩ := Decoder.acceptsValues_natural hoffset
    cases eq_of_decodeComma hcomma
    obtain ⟨size, rfl⟩ := Decoder.acceptsValues_natural hsize
    cases eq_of_decodeComma hcomma'
    obtain ⟨query, rfl⟩ := Clause.acceptsValues_decode levels hquery
    cases Decoder.eq_of_expect hclosing
    exact ⟨[offset, size, query], by simp [Value.itemsTokens, Value.moreItems]⟩

theorem acceptsValues_decode : AcceptsValues decode := by
  intro tokens rest document h
  obtain ⟨token, more, rfl, hmore⟩ := Decoder.exists_of_next h
  split at hmore
  · obtain ⟨draft, after, hdraft, hfinish⟩ := Decoder.exists_of_bind hmore
    obtain ⟨entries, rfl⟩ :=
      Decoder.exists_of_members (acceptsMembers_decodeMember _) hdraft
    cases eq_of_finish hfinish
    exact ⟨.object entries, rfl⟩
  · obtain ⟨items, rfl⟩ := exists_of_decodeParts hmore
    exact ⟨.array items, rfl⟩
  · exact absurd hmore ((Decoder.fails_refuse _ _).ne_ok _)

theorem toOption_read {value : Value} {json : String} (h : value.IsText json) :
    (read json).toOption = ofValue? value := by
  have hdecode := takes_decode value []
  rw [List.append_nil, ← Value.tokens_of_isText h] at hdecode
  unfold read
  generalize decode (Json.tokens json.toList) = result at hdecode ⊢
  generalize ofValue? value = document at hdecode ⊢
  rcases result with _ | ⟨read, rest⟩ <;> cases document <;>
    cases hdecode <;> rfl

/-- Which document is read depends on the value alone. -/
theorem read_eq_ok_iff {value : Value} {json : String} (h : value.IsText json)
    {document : QueryDocument} :
    read json = .ok document ↔ ofValue? value = some document := by
  rw [← toOption_read h]
  cases read json <;> simp [Except.toOption]

/-- Only JSON is read. -/
theorem exists_isText_of_read {json : String} {document : QueryDocument}
    (h : read json = .ok document) : ∃ value : Value, value.IsText json := by
  unfold read at h
  split at h
  · cases h
  · rename_i hdecode
    obtain ⟨value, htokens⟩ := acceptsValues_decode hdecode
    rw [List.append_nil] at htokens
    exact ⟨value, Value.isText_of_tokens_eq htokens⟩
  · cases h

end QueryDocument

end TermSearch
