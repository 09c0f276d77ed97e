import TermSearch.Proofs.Json.Value

namespace TermSearch.Json.Decoder

/-! Any value can be skipped, however deep it is. The brackets that are open
around it are still open after it. -/

def skipAfter : List Bracket → List Token → Except ReadError (Unit × List Token)
  | [], tokens => .ok ((), tokens)
  | brackets, tokens => skipFrom .separator brackets tokens

section Steps

variable {awaited next : Awaited} {brackets open' : List Bracket}
  {token : Token}

theorem skipFrom_eq_skipAfter
    (h : awaited.after brackets token = some (.separator, open'))
    (rest : List Token) :
    skipFrom awaited brackets (token :: rest) = skipAfter open' rest := by
  rw [skipFrom, h]
  cases open' <;> rfl

theorem skipFrom_eq_skipFrom
    (h : awaited.after brackets token = some (next, open'))
    (hnext : next ≠ .separator) (rest : List Token) :
    skipFrom awaited brackets (token :: rest) = skipFrom next open' rest := by
  rw [skipFrom, h]
  cases next with
  | separator => exact absurd rfl hnext
  | _ => rfl

theorem skipFrom_closing (h : awaited = .first ∨ awaited = .separator)
    (bracket : Bracket) (brackets : List Bracket) (rest : List Token) :
    skipFrom awaited (bracket :: brackets) (.closing bracket :: rest) =
      skipAfter brackets rest := by
  have hafter : awaited.after (bracket :: brackets) (.closing bracket) =
      some (.separator, brackets) := by
    rcases h with rfl | rfl <;> exact if_pos rfl
  exact skipFrom_eq_skipAfter hafter rest

/-- Where a bracket may be closed instead, a value may come as well. -/
theorem skipFrom_first {tokens : List Token} (h : StartsItem tokens)
    (brackets : List Bracket) :
    skipFrom .first (.square :: brackets) tokens =
      skipFrom .value (.square :: brackets) tokens := by
  obtain ⟨token, rest, rfl, htoken⟩ := h
  have hafter : Awaited.first.after (.square :: brackets) token =
      Awaited.value.after (.square :: brackets) token := by
    rcases token with _ | (_ | _) | _ | _ | _ | _ | _ | _ | _
    · rfl
    · exact absurd rfl htoken
    all_goals rfl
  rw [skipFrom, skipFrom, hafter]

end Steps

def Skips (value : Value) : Prop :=
  ∀ brackets rest, skipFrom .value brackets (value.tokens ++ rest) =
    skipAfter brackets rest

theorem skipFrom_moreItems {items : List Value} (h : ∀ item ∈ items, Skips item)
    (brackets : List Bracket) (rest : List Token) :
    skipFrom .separator (.square :: brackets) (Value.moreItems items ++ rest) =
      skipAfter brackets rest := by
  induction items with
  | nil => exact skipFrom_closing (.inr rfl) .square brackets rest
  | cons item items ih =>
      obtain ⟨hitem, hitems⟩ := List.forall_mem_cons.mp h
      rw [Value.moreItems, List.cons_append,
        skipFrom_eq_skipFrom rfl (by decide), List.append_assoc, hitem]
      exact ih hitems

theorem skipFrom_member {name : Name} {value : Value} (h : Skips value)
    {awaited : Awaited} (hawaited : awaited = .first ∨ awaited = .name)
    (brackets : List Bracket) (rest : List Token) :
    skipFrom awaited (.curly :: brackets)
        (.string name :: .colon :: (value.tokens ++ rest)) =
      skipFrom .separator (.curly :: brackets) rest := by
  have hname : awaited.after (.curly :: brackets) (.string name) =
      some (.colon, .curly :: brackets) := by
    rcases hawaited with rfl | rfl <;> rfl
  rw [skipFrom_eq_skipFrom hname (by decide),
    skipFrom_eq_skipFrom rfl (by decide), h]
  rfl

theorem skipFrom_moreMembers {members : List (Name × Value)}
    (h : ∀ member ∈ members, Skips member.2) (brackets : List Bracket)
    (rest : List Token) :
    skipFrom .separator (.curly :: brackets)
        (Value.moreMembers members ++ rest) =
      skipAfter brackets rest := by
  induction members with
  | nil => exact skipFrom_closing (.inr rfl) .curly brackets rest
  | cons member members ih =>
      obtain ⟨hmember, hmembers⟩ := List.forall_mem_cons.mp h
      rw [Value.moreMembers, List.cons_append,
        skipFrom_eq_skipFrom rfl (by decide), List.cons_append,
        List.cons_append, List.append_assoc, skipFrom_member hmember (.inr rfl)]
      exact ih hmembers

theorem skips (value : Value) : Skips value := by
  intro brackets rest
  induction value generalizing brackets rest with
  | scalar value => cases value <;> exact skipFrom_eq_skipAfter rfl rest
  | array items ih =>
      rw [Value.tokens, List.cons_append, skipFrom_eq_skipFrom rfl (by decide)]
      cases items with
      | nil => exact skipFrom_closing (.inl rfl) .square brackets rest
      | cons item items =>
          obtain ⟨hitem, hitems⟩ := List.forall_mem_cons.mp ih
          rw [Value.itemsTokens, List.append_assoc,
            skipFrom_first (item.startsItem_tokens.append _), hitem]
          exact skipFrom_moreItems hitems brackets rest
  | object members ih =>
      rw [Value.tokens, List.cons_append, skipFrom_eq_skipFrom rfl (by decide)]
      cases members with
      | nil => exact skipFrom_closing (.inl rfl) .curly brackets rest
      | cons member members =>
          obtain ⟨hmember, hmembers⟩ := List.forall_mem_cons.mp ih
          rw [Value.membersTokens, List.cons_append, List.cons_append,
            List.append_assoc, skipFrom_member hmember (.inl rfl)]
          exact skipFrom_moreMembers hmembers brackets rest

theorem reads_skip (value : Value) : Reads skip value.tokens () :=
  skips value []

/-! Nothing else can be skipped. First, which steps there are. -/

theorem after_value {brackets open' : List Bracket} {token : Token}
    {next : Awaited}
    (h : Awaited.value.after brackets token = some (next, open')) :
    (∃ bracket, token = .opening bracket ∧
        next = .first ∧
        open' = bracket :: brackets) ∨
      ∃ scalar : Scalar, token = scalar.token ∧
        next = .separator ∧
        open' = brackets := by
  cases token with
  | opening bracket =>
      cases h
      exact .inl ⟨bracket, rfl, rfl, rfl⟩
  | null =>
      cases h
      exact .inr ⟨.null, rfl, rfl, rfl⟩
  | bool value =>
      cases h
      exact .inr ⟨.bool value, rfl, rfl, rfl⟩
  | number numeral =>
      cases h
      exact .inr ⟨.number numeral, rfl, rfl, rfl⟩
  | string text =>
      cases h
      exact .inr ⟨.string text, rfl, rfl, rfl⟩
  | closing | comma | colon | invalid => cases h

theorem after_separator {bracket : Bracket} {brackets open' : List Bracket}
    {token : Token} {next : Awaited}
    (h : Awaited.separator.after (bracket :: brackets) token =
      some (next, open')) :
    token = .closing bracket ∧ next = .separator ∧ open' = brackets ∨
      token = .comma ∧
        next = (if bracket = .square then .value else .name) ∧
        open' = bracket :: brackets := by
  cases token with
  | closing closed =>
      simp only [Awaited.after] at h
      split at h
      · rename_i heq
        subst heq
        cases h
        exact .inl ⟨rfl, rfl, rfl⟩
      · cases h
  | comma => cases bracket <;> cases h <;> exact .inr ⟨rfl, rfl, rfl⟩
  | opening | colon | null | bool | number | string | invalid =>
      cases bracket <;> cases h

theorem after_first {brackets open' : List Bracket} {token : Token}
    {next : Awaited}
    (h : Awaited.first.after (.curly :: brackets) token = some (next, open')) :
    token = .closing .curly ∧ next = .separator ∧ open' = brackets ∨
      ∃ name, token = .string name ∧
        next = .colon ∧
        open' = .curly :: brackets := by
  cases token with
  | closing closed =>
      cases closed with
      | square => cases h
      | curly =>
          cases h
          exact .inl ⟨rfl, rfl, rfl⟩
  | string name =>
      cases h
      exact .inr ⟨name, rfl, rfl, rfl⟩
  | opening | comma | colon | null | bool | number | invalid => cases h

theorem after_name {brackets open' : List Bracket} {token : Token}
    {next : Awaited}
    (h : Awaited.name.after brackets token = some (next, open')) :
    ∃ name, token = .string name ∧ next = .colon ∧ open' = brackets := by
  cases token with
  | string name =>
      cases h
      exact ⟨name, rfl, rfl, rfl⟩
  | opening | closing | comma | colon | null | bool | number | invalid =>
      cases h

theorem after_colon {brackets open' : List Bracket} {token : Token}
    {next : Awaited}
    (h : Awaited.colon.after brackets token = some (next, open')) :
    token = .colon ∧ next = .value ∧ open' = brackets := by
  cases token with
  | colon =>
      cases h
      exact ⟨rfl, rfl, rfl⟩
  | opening | closing | comma | null | bool | number | string | invalid =>
      cases h

theorem exists_step {awaited : Awaited} {brackets : List Bracket}
    {tokens rest : List Token}
    (h : skipFrom awaited brackets tokens = .ok ((), rest)) :
    ∃ token more next open', tokens = token :: more ∧
      awaited.after brackets token = some (next, open') ∧
      (if next = .separator then skipAfter open' more
        else skipFrom next open' more) = .ok ((), rest) := by
  cases tokens with
  | nil => cases h
  | cons token more =>
      cases hafter : awaited.after brackets token with
      | none =>
          rw [skipFrom, hafter] at h
          cases h
      | some step =>
          obtain ⟨next, open'⟩ := step
          refine ⟨token, more, next, open', rfl, hafter, ?_⟩
          split
          · rename_i heq
            subst heq
            rwa [skipFrom_eq_skipAfter hafter] at h
          · rename_i hnext
            rwa [skipFrom_eq_skipFrom hafter hnext] at h

/-- What can be skipped where a value is awaited, and where one has just been in
brackets, is the tokens of a value, and of the items or members that are still
to come. -/
structure SkipsValues (tokens rest : List Token) : Prop where
  value : ∀ {brackets}, skipFrom .value brackets tokens = .ok ((), rest) →
    ∃ (value : Value) (after : List Token), tokens = value.tokens ++ after ∧
      skipAfter brackets after = .ok ((), rest)
  items : ∀ {brackets},
    skipFrom .separator (.square :: brackets) tokens = .ok ((), rest) →
    ∃ (items : List Value) (after : List Token),
      tokens = Value.moreItems items ++ after ∧
        skipAfter brackets after = .ok ((), rest)
  members : ∀ {brackets},
    skipFrom .separator (.curly :: brackets) tokens = .ok ((), rest) →
    ∃ (members : List (Name × Value)) (after : List Token),
      tokens = Value.moreMembers members ++ after ∧
        skipAfter brackets after = .ok ((), rest)

namespace SkipsValues

variable {tokens rest : List Token} {brackets : List Bracket}

theorem exists_items
    (ih : ∀ more : List Token, more.length ≤ tokens.length →
      SkipsValues more rest)
    (h : skipFrom .value (.square :: brackets) tokens = .ok ((), rest)) :
    ∃ (item : Value) (items : List Value) (after : List Token),
      tokens = item.tokens ++ (Value.moreItems items ++ after) ∧
        skipAfter brackets after = .ok ((), rest) := by
  obtain ⟨item, after, rfl, hitem⟩ := (ih tokens (Nat.le_refl _)).value h
  have hshorter : after.length ≤ (item.tokens ++ after).length := by
    simp only [List.length_append]
    omega
  obtain ⟨items, last, rfl, hitems⟩ := (ih after hshorter).items hitem
  exact ⟨item, items, last, rfl, hitems⟩

theorem exists_members
    (ih : ∀ more : List Token, more.length ≤ tokens.length →
      SkipsValues more rest)
    (h : skipFrom .colon (.curly :: brackets) tokens = .ok ((), rest)) :
    ∃ (value : Value) (members : List (Name × Value)) (after : List Token),
      tokens =
          .colon :: (value.tokens ++ (Value.moreMembers members ++ after)) ∧
        skipAfter brackets after = .ok ((), rest) := by
  obtain ⟨token, more, next, open', rfl, hafter, hmore⟩ := exists_step h
  obtain ⟨rfl, rfl, rfl⟩ := after_colon hafter
  obtain ⟨value, after, rfl, hvalue⟩ := (ih more (by simp)).value hmore
  have hshorter :
      after.length ≤ (Token.colon :: (value.tokens ++ after)).length := by
    simp only [List.length_cons, List.length_append]
    omega
  obtain ⟨members, last, rfl, hmembers⟩ := (ih after hshorter).members hvalue
  exact ⟨value, members, last, rfl, hmembers⟩

section Induction

variable (ih : ∀ more : List Token, more.length < tokens.length →
    SkipsValues more rest)
include ih

theorem exists_value (h : skipFrom .value brackets tokens = .ok ((), rest)) :
    ∃ (value : Value) (after : List Token), tokens = value.tokens ++ after ∧
      skipAfter brackets after = .ok ((), rest) := by
  obtain ⟨token, inside, next, open', rfl, hafter, hinside⟩ := exists_step h
  have hshorter : ∀ more : List Token, more.length ≤ inside.length →
      SkipsValues more rest :=
    fun more hmore => ih more (Nat.lt_succ_of_le hmore)
  obtain ⟨_ | _, rfl, rfl, rfl⟩ | ⟨scalar, rfl, rfl, rfl⟩ := after_value hafter
  · cases inside with
    | nil => cases hinside
    | cons token more =>
        by_cases hclosed : token = .closing .square
        · subst hclosed
          exact ⟨.array [], more, rfl,
            skipFrom_closing (.inl rfl) .square brackets more ▸ hinside⟩
        · have hitem :=
            skipFrom_first ⟨token, more, rfl, hclosed⟩ brackets ▸ hinside
          obtain ⟨item, items, after, heq, hrest⟩ := exists_items hshorter hitem
          refine ⟨.array (item :: items), after, ?_, hrest⟩
          rw [heq, Value.tokens, Value.itemsTokens, List.cons_append,
            List.append_assoc]
  · obtain ⟨token, more, next, open', rfl, hafter, hmore⟩ := exists_step hinside
    obtain ⟨rfl, rfl, rfl⟩ | ⟨name, rfl, rfl, rfl⟩ := after_first hafter
    · exact ⟨.object [], more, rfl, hmore⟩
    · obtain ⟨value, members, after, rfl, hrest⟩ :=
        exists_members
          (fun other hother => hshorter other (Nat.le_succ_of_le hother)) hmore
      exact ⟨.object ((name, value) :: members), after,
        by simp [Value.tokens, Value.membersTokens], hrest⟩
  · exact ⟨.scalar scalar, inside, rfl, hinside⟩

theorem exists_moreItems
    (h : skipFrom .separator (.square :: brackets) tokens = .ok ((), rest)) :
    ∃ (items : List Value) (after : List Token),
      tokens = Value.moreItems items ++ after ∧
        skipAfter brackets after = .ok ((), rest) := by
  obtain ⟨token, more, next, open', rfl, hafter, hmore⟩ := exists_step h
  obtain ⟨rfl, rfl, rfl⟩ | ⟨rfl, rfl, rfl⟩ := after_separator hafter
  · exact ⟨[], more, rfl, hmore⟩
  · obtain ⟨item, items, after, rfl, hrest⟩ :=
      exists_items (fun other hother => ih other (Nat.lt_succ_of_le hother))
        hmore
    exact ⟨item :: items, after, by simp [Value.moreItems], hrest⟩

theorem exists_moreMembers
    (h : skipFrom .separator (.curly :: brackets) tokens = .ok ((), rest)) :
    ∃ (members : List (Name × Value)) (after : List Token),
      tokens = Value.moreMembers members ++ after ∧
        skipAfter brackets after = .ok ((), rest) := by
  obtain ⟨token, named, next, open', rfl, hafter, hnamed⟩ := exists_step h
  obtain ⟨rfl, rfl, rfl⟩ | ⟨rfl, rfl, rfl⟩ := after_separator hafter
  · exact ⟨[], named, rfl, hnamed⟩
  · obtain ⟨token, more, next, open', rfl, hafter, hmore⟩ := exists_step hnamed
    obtain ⟨name, rfl, rfl, rfl⟩ := after_name hafter
    obtain ⟨value, members, after, rfl, hrest⟩ :=
      exists_members (fun other hother =>
        ih other (Nat.lt_succ_of_le (Nat.le_succ_of_le hother))) hmore
    exact ⟨(name, value) :: members, after, by simp [Value.moreMembers], hrest⟩

end Induction

end SkipsValues

theorem skipsValues (tokens rest : List Token) : SkipsValues tokens rest :=
  have ih : ∀ more : List Token, more.length < tokens.length →
      SkipsValues more rest :=
    fun more _ => skipsValues more rest
  ⟨SkipsValues.exists_value ih, SkipsValues.exists_moreItems ih,
    SkipsValues.exists_moreMembers ih⟩
termination_by tokens.length

end TermSearch.Json.Decoder
