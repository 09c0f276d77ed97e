import TermSearch.Proofs.Json.Skipping
import TermSearch.Proofs.Json.Taking

namespace TermSearch.Json.Decoder

/-! Decoders accept nothing but the tokens of values. -/

variable {α β : Type} {tokens rest : List Token}

/-- What the decoder takes if it does not fail is a value. -/
def AcceptsValues (decoder : Decoder α) : Prop :=
  ∀ ⦃tokens rest result⦄, decoder tokens = .ok (result, rest) →
    ∃ value : Value, tokens = value.tokens ++ rest

theorem exists_of_bind {decoder : Decoder α} {continuation : α → Decoder β}
    {result : β} (h : (decoder >>= continuation) tokens = .ok (result, rest)) :
    ∃ value middle, decoder tokens = .ok (value, middle) ∧
      continuation value middle = .ok (result, rest) := by
  change Except.bind (decoder tokens) _ = _ at h
  cases hread : decoder tokens with
  | error =>
      rw [hread] at h
      cases h
  | ok taken =>
      rw [hread] at h
      exact ⟨taken.1, taken.2, rfl, h⟩

theorem Fails.ne_ok {decoder : Decoder α} (h : Fails decoder)
    (result : α × List Token) : decoder tokens ≠ .ok result := by
  intro hread
  have hfails := h tokens
  rw [hread] at hfails
  cases hfails

theorem exists_of_next {continuation : Token → Decoder α} {result : α}
    (h : (next >>= continuation) tokens = .ok (result, rest)) :
    ∃ token more, tokens = token :: more ∧
      continuation token more = .ok (result, rest) := by
  obtain ⟨token, more, hnext, hmore⟩ := exists_of_bind h
  cases tokens with
  | nil => cases hnext
  | cons =>
      cases hnext
      exact ⟨_, _, rfl, hmore⟩

theorem eq_of_expect {wanted : Token}
    (h : expect wanted tokens = .ok ((), rest)) : tokens = wanted :: rest := by
  obtain ⟨token, more, rfl, hmore⟩ := exists_of_next h
  split at hmore
  · rename_i heq
    cases hmore
    rw [heq]
  · cases hmore

theorem acceptsValues_skip : AcceptsValues skip := by
  intro tokens rest result h
  obtain ⟨value, after, rfl, hafter⟩ := (skipsValues tokens rest).value h
  cases hafter
  exact ⟨value, rfl⟩

theorem acceptsValues_text : AcceptsValues text := by
  intro tokens rest result h
  obtain ⟨token, more, rfl, hmore⟩ := exists_of_next h
  split at hmore
  · cases hmore
    exact ⟨.scalar (.string _), rfl⟩
  · exact absurd hmore ((fails_refuse _ _).ne_ok _)

theorem acceptsValues_natural : AcceptsValues natural := by
  intro tokens rest result h
  obtain ⟨token, more, rfl, hmore⟩ := exists_of_next h
  split at hmore
  · rename_i numeral
    generalize numeral.value? = value at hmore
    rcases value with _ | (_ | _ | _)
    · exact absurd hmore ((fails_refuse _ _).ne_ok _)
    · cases hmore
      exact ⟨.scalar (.number numeral), rfl⟩
    · cases hmore
    · exact absurd hmore ((fails_refuse _ _).ne_ok _)
  · exact absurd hmore ((fails_refuse _ _).ne_ok _)

theorem exists_of_map {γ : Type} {read : Except ReadError α} {change : α → γ}
    {result : γ} (h : read.map change = .ok result) :
    ∃ value, read = .ok value ∧ change value = result := by
  cases read with
  | error => cases h
  | ok value => exact ⟨value, rfl, Except.ok.inj h⟩

theorem AcceptsValues.map {decoder : Decoder α} (h : AcceptsValues decoder)
    (change : α → β) : AcceptsValues (change <$> decoder) := by
  intro tokens rest result hmap
  have hbind : (decoder >>= fun value => pure (change value)) tokens =
      .ok (result, rest) := hmap
  obtain ⟨value, middle, hread, hchange⟩ := exists_of_bind hbind
  cases hchange
  exact h hread

/-! Sequences. -/

theorem exists_of_itemsRest {item : Decoder α} (h : AcceptsValues item)
    {result : List α} (hitems : itemsRest item tokens = .ok (result, rest)) :
    ∃ values, tokens = Value.moreItems values ++ rest := by
  fun_induction itemsRest item tokens generalizing result with
  | case1 =>
      cases hitems
      exact ⟨[], rfl⟩
  | case2 | case4 | case5 => cases hitems
  | case3 first value after hread hshorter ih =>
      obtain ⟨more, hmore, heq⟩ := exists_of_map hitems
      cases heq
      obtain ⟨spelled, rfl⟩ := h hread
      obtain ⟨values, rfl⟩ := ih hmore
      exact ⟨spelled :: values, by simp [Value.moreItems]⟩

theorem exists_of_items {item : Decoder α} (h : AcceptsValues item)
    {result : List α} (hitems : items item tokens = .ok (result, rest)) :
    ∃ values, tokens = Value.itemsTokens values ++ rest := by
  unfold items at hitems
  split at hitems
  · cases hitems
    exact ⟨[], rfl⟩
  · split at hitems
    · cases hitems
    · rename_i value after hread
      obtain ⟨more, hmore, heq⟩ := exists_of_map hitems
      cases heq
      obtain ⟨spelled, rfl⟩ := h hread
      obtain ⟨values, rfl⟩ := exists_of_itemsRest h hmore
      exact ⟨spelled :: values, by simp [Value.itemsTokens]⟩

theorem AcceptsValues.sequence {levels : Nat}
    {item : (inner : Nat) → inner < levels → Decoder α}
    (h : ∀ inner hinner, AcceptsValues (item inner hinner)) :
    AcceptsValues (sequence levels item) := by
  intro tokens rest result hsequence
  obtain ⟨token, more, rfl, hmore⟩ := exists_of_next hsequence
  split at hmore
  · cases levels with
    | zero => cases hmore
    | succ inner =>
        obtain ⟨values, rfl⟩ :=
          exists_of_items (h inner (Nat.lt_succ_self inner)) hmore
        exact ⟨.array values, rfl⟩
  · exact absurd hmore ((fails_refuse _ _).ne_ok _)

/-! Objects. -/

def AcceptsMembers (member : String → β → Decoder β) : Prop :=
  ∀ ⦃name state tokens rest next⦄, member name state tokens = .ok (next, rest) →
    ∃ value : Value, tokens = .colon :: (value.tokens ++ rest)

theorem exists_of_member {decoder : Decoder α} (h : AcceptsValues decoder)
    {change : α → β} {result : β}
    (hmember :
      (do
        expect .colon
        let read ← decoder
        Pure.pure (change read) : Decoder β) tokens = .ok (result, rest)) :
    ∃ value : Value, tokens = .colon :: (value.tokens ++ rest) := by
  obtain ⟨_, inside, hcolon, hinside⟩ := exists_of_bind hmember
  cases eq_of_expect hcolon
  obtain ⟨read, after, hread, hpure⟩ := exists_of_bind hinside
  cases hpure
  obtain ⟨value, rfl⟩ := h hread
  exact ⟨value, rfl⟩

theorem exists_of_membersRest {member : String → β → Decoder β}
    (h : AcceptsMembers member) {state last : β}
    (hmembers : membersRest member state tokens = .ok (last, rest)) :
    ∃ entries, tokens = Value.moreMembers entries ++ rest := by
  fun_induction membersRest member state tokens with
  | case1 =>
      cases hmembers
      exact ⟨[], rfl⟩
  | case2 | case4 | case5 => cases hmembers
  | case3 state name first next after hread hshorter ih =>
      obtain ⟨value, rfl⟩ := h hread
      obtain ⟨entries, rfl⟩ := ih hmembers
      exact ⟨(some name, value) :: entries, by simp [Value.moreMembers]⟩

theorem exists_of_members {member : String → β → Decoder β}
    (h : AcceptsMembers member) {state last : β}
    (hmembers : members member state tokens = .ok (last, rest)) :
    ∃ entries, tokens = Value.membersTokens entries ++ rest := by
  unfold members at hmembers
  split at hmembers
  · cases hmembers
    exact ⟨[], rfl⟩
  · rename_i name first
    split at hmembers
    · cases hmembers
    · rename_i next after hread
      obtain ⟨value, rfl⟩ := h hread
      obtain ⟨entries, rfl⟩ := exists_of_membersRest h hmembers
      exact ⟨(some name, value) :: entries, by simp [Value.membersTokens]⟩
  · cases hmembers

theorem exists_of_content {content : Decoder α} (h : AcceptsValues content)
    {result : α}
    (hcontent :
      (do
        expect .colon
        let read ← content
        expect (.closing .curly)
        pure read : Decoder α) tokens = .ok (result, rest)) :
    ∃ value : Value,
      tokens = .colon :: (value.tokens ++ .closing .curly :: rest) := by
  obtain ⟨_, inside, hcolon, hinside⟩ := exists_of_bind hcontent
  cases eq_of_expect hcolon
  obtain ⟨_, closed, hread, hclosed⟩ := exists_of_bind hinside
  obtain ⟨value, rfl⟩ := h hread
  obtain ⟨_, after, hclosing, hpure⟩ := exists_of_bind hclosed
  cases eq_of_expect hclosing
  cases hpure
  exact ⟨value, rfl⟩

theorem AcceptsValues.alternative {levels : Nat} {known : List String}
    {content : String → (inner : Nat) → inner < levels → Decoder α}
    (h : ∀ name inner hinner, AcceptsValues (content name inner hinner)) :
    AcceptsValues (alternative levels known content) := by
  intro tokens rest result halternative
  obtain ⟨token, more, rfl, hmore⟩ := exists_of_next halternative
  split at hmore
  · cases levels with
    | zero => cases hmore
    | succ inner =>
        obtain ⟨token, named, rfl, hnamed⟩ := exists_of_next hmore
        split at hnamed
        · rename_i name
          obtain ⟨_, middle, hjudge, hcontent⟩ := exists_of_bind hnamed
          have hsame : named = middle := by
            beta_reduce at hjudge
            split at hjudge
            · cases hjudge
              rfl
            · cases hjudge
          subst hsame
          obtain ⟨value, rfl⟩ := exists_of_content (h _ _ _) hcontent
          exact ⟨.object [(some name, value)],
            by simp [Value.tokens, Value.membersTokens, Value.moreMembers]⟩
        · cases hnamed
  · obtain ⟨_, _, -, hmismatch⟩ := exists_of_bind hmore
    cases hmismatch
  · cases hmore

end TermSearch.Json.Decoder
