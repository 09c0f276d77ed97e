import Mathlib.Data.List.Chain
import TermSearch.Proofs.Grammar.Row

namespace TermSearch

/-! What rules note while they read. The attempts of a combined rule are those
of its parts, each made at a place that reading came to and under the rules that
were active there, and no rule fails without one. -/

namespace Rule

theorem mem_attempts_bind {first : Rule α} {next : α → Rule β} {cursor : Cursor}
    {attempt : Attempt} :
    attempt ∈ ((first >>= next) cursor).attempts ↔
      attempt ∈ (first cursor).attempts ∨
        ∃ value stop, (first cursor).result = some (value, stop) ∧
          attempt ∈ (next value stop).attempts := by
  rw [bind_eq_andThen, attempts_andThen, List.mem_append]
  cases (first cursor).result with
  | none => simp
  | some reading =>
      refine or_congr_right
        ⟨fun h => ⟨reading.1, reading.2, rfl, h⟩, fun h => ?_⟩
      obtain ⟨value, stop, hreading, h⟩ := h
      cases hreading
      exact h

theorem mem_attempts_choice {first second : Rule α} {cursor : Cursor}
    {attempt : Attempt} :
    attempt ∈ ((first <|> second) cursor).attempts ↔
      attempt ∈ (first cursor).attempts ∨
        (first cursor).result = none ∧ attempt ∈ (second cursor).attempts := by
  change attempt ∈ (first.orElse (fun _ => second) cursor).attempts ↔ _
  unfold orElse
  split <;> simp [*]

theorem mem_attempts_literal {word : List Char} {expected : String}
    {cursor : Cursor} {attempt : Attempt} :
    attempt ∈ (literal word expected cursor).attempts ↔
      cursor.after? word = none ∧
        attempt = ⟨cursor.position, expected, []⟩ := by
  unfold literal
  cases cursor.after? word <;> simp

theorem attempts_separated (item : Rule α) (separator : Rule Unit)
    (cursor : Cursor) :
    (separated item separator cursor).attempts =
      (item cursor).attempts ++ (item cursor).result.elim [] fun reading =>
        (furtherItems item separator reading.2).2 :=
  attempts_andThen item _ cursor

section Separated

variable {item : Rule α} {separator : Rule Unit}

theorem reads_furtherItems
    (htakes : (separator >>= fun _ => item).Takes fun _ => True)
    (cursor : Cursor) :
    ∃ text, cursor.Reads text (furtherItems item separator cursor).1.2 := by
  fun_induction furtherItems item separator cursor with
  | case1 cursor => exact ⟨[], .refl cursor⟩
  | case2 cursor value stop attempts hstep _ _ ih =>
      obtain ⟨left, -, hleft⟩ := htakes (congrArg Outcome.result hstep)
      obtain ⟨right, hright⟩ := ih
      exact ⟨left ++ right, hleft.trans hright⟩
  | case3 cursor => exact ⟨[], .refl cursor⟩

theorem OpenRow.exists_of_mem_furtherItems {start cursor : Cursor}
    {values : List α} {attempt : Attempt}
    (h : attempt ∈ (furtherItems item separator cursor).2)
    (hrow : OpenRow item separator start values cursor) :
    ∃ others stop, OpenRow item separator start others stop ∧
      attempt ∈ ((separator >>= fun _ => item) stop).attempts := by
  fun_induction furtherItems item separator cursor generalizing values with
  | case1 cursor attempts hstep =>
      refine ⟨values, cursor, hrow, ?_⟩
      rw [bind_eq_andThen, hstep]
      exact h
  | case2 cursor value stop attempts hstep _ more =>
      rename_i ih
      rcases List.mem_append.mp h with h | h
      · refine ⟨values, cursor, hrow, ?_⟩
        rw [bind_eq_andThen, hstep]
        exact h
      · exact ih h (hrow.concat (congrArg Outcome.result hstep))
  | case3 cursor value stop attempts hstep =>
      refine ⟨values, cursor, hrow, ?_⟩
      rw [bind_eq_andThen, hstep]
      exact h

/-- What a row notes is noted by its first item, or in the step from some place
of the row. -/
theorem exists_of_mem_attempts_separated {start : Cursor} {attempt : Attempt}
    (h : attempt ∈ (separated item separator start).attempts) :
    attempt ∈ (item start).attempts ∨
      ∃ values stop, OpenRow item separator start values stop ∧
        attempt ∈ ((separator >>= fun _ => item) stop).attempts := by
  rw [attempts_separated, List.mem_append] at h
  refine h.imp_right fun h => ?_
  cases hitem : (item start).result with
  | none => simp [hitem] at h
  | some reading =>
      rw [hitem] at h
      exact OpenRow.exists_of_mem_furtherItems h (.first hitem)

end Separated

end Rule

/-! The call graph of the grammar. -/

def callees : String → List String
  | "and_queries" => ["and_query"]
  | "and_query" => ["field", "and_conditions"]
  | "field" => ["multi_field"]
  | "and_conditions" => ["or_conditions", "and_op"]
  | "or_conditions" => ["condition", "or_op"]
  | "condition" => ["quoted_string", "raw_condition"]
  | _ => []

/-- Every rule of the path was called by the one before it. -/
def IsCallPath (rules : List String) : Prop :=
  rules.IsChain fun caller rule => rule ∈ callees caller

theorem isCallPath_singleton (rule : String) : IsCallPath [rule] :=
  .singleton rule

theorem IsCallPath.cons {caller rule : String} {rules : List String}
    (h : IsCallPath (rule :: rules)) (hcall : rule ∈ callees caller) :
    IsCallPath (caller :: rule :: rules) :=
  .cons_cons hcall h

/-- As a part of the caller, the rule gives an account of itself: each attempt
names the rules below the caller and a place ahead, and a failure has an
attempt. -/
structure Rule.IsTraced (rule : Rule α) (caller : String) : Prop where
  takes : rule.Takes fun _ => True
  path : ∀ cursor, ∀ attempt ∈ (rule cursor).attempts,
    IsCallPath (caller :: attempt.expectation.rules)
  ahead : ∀ start, ∀ attempt ∈ (rule start).attempts,
    ∃ text place, start.Reads text place ∧ place.position = attempt.position
  explained : ∀ cursor, (rule cursor).result = none →
    (rule cursor).attempts ≠ []

namespace Rule.IsTraced

variable {caller : String}

theorem of_attempts_nil {rule : Rule α} (htakes : rule.Takes fun _ => True)
    (h : ∀ cursor, (rule cursor).attempts = [] ∧ (rule cursor).result ≠ none) :
    rule.IsTraced caller where
  takes := htakes
  path cursor := by simp [(h cursor).1]
  ahead cursor := by simp [(h cursor).1]
  explained cursor hnone := absurd hnone (h cursor).2

protected theorem pure (value : α) : (pure value : Rule α).IsTraced caller := by
  refine of_attempts_nil ?_ fun cursor => ⟨rfl, nofun⟩
  intro start taken stop hresult
  cases hresult
  exact ⟨[], trivial, .refl _⟩

theorem upcoming : Rule.upcoming.IsTraced caller := by
  refine of_attempts_nil ?_ fun cursor => ⟨rfl, nofun⟩
  intro start taken stop hresult
  cases hresult
  exact ⟨[], trivial, .refl _⟩

theorem run (allowed : Char → Bool) : (Rule.run allowed).IsTraced caller := by
  refine of_attempts_nil ?_ fun cursor => ⟨rfl, nofun⟩
  intro start taken stop hresult
  cases hresult
  exact ⟨_, trivial, .afterRun start allowed⟩

theorem missing (expected : String) :
    (Rule.missing expected : Rule α).IsTraced caller where
  takes _ _ _ hresult := by cases hresult
  path _ attempt h := by
    cases List.mem_singleton.mp h
    exact isCallPath_singleton caller
  ahead start attempt h := by
    cases List.mem_singleton.mp h
    exact ⟨[], start, .refl start, rfl⟩
  explained _ _ := by simp

theorem literal (word : List Char) (expected : String) :
    (Rule.literal word expected).IsTraced caller where
  takes := (Takes.literal word expected).mono fun _ _ => trivial
  path _ attempt h := by
    obtain ⟨-, rfl⟩ := mem_attempts_literal.mp h
    exact isCallPath_singleton caller
  ahead start attempt h := by
    obtain ⟨-, rfl⟩ := mem_attempts_literal.mp h
    exact ⟨[], start, .refl start, rfl⟩
  explained cursor h := by
    rw [result_literal, Option.map_eq_none_iff] at h
    exact List.ne_nil_of_mem (mem_attempts_literal.mpr ⟨h, rfl⟩)

theorem bind {first : Rule α} {next : α → Rule β}
    (hfirst : first.IsTraced caller)
    (hnext : ∀ value, (next value).IsTraced caller) :
    (first >>= next).IsTraced caller where
  takes :=
    (hfirst.takes.bind fun value => (hnext value).takes).mono fun _ _ => trivial
  path cursor attempt h := by
    rcases mem_attempts_bind.mp h with h | ⟨value, stop, -, h⟩
    · exact hfirst.path cursor attempt h
    · exact (hnext value).path stop attempt h
  ahead start attempt h := by
    rcases mem_attempts_bind.mp h with h | ⟨value, stop, hresult, h⟩
    · exact hfirst.ahead start attempt h
    · obtain ⟨left, -, hleft⟩ := hfirst.takes hresult
      obtain ⟨right, place, hright, hposition⟩ :=
        (hnext value).ahead stop attempt h
      exact ⟨left ++ right, place, hleft.trans hright, hposition⟩
  explained cursor h := by
    rw [bind_eq_andThen, attempts_andThen]
    rw [result_bind] at h
    cases hresult : (first cursor).result with
    | none => simpa using hfirst.explained cursor hresult
    | some reading =>
        rw [hresult, Option.bind_some] at h
        simpa using fun _ => (hnext reading.1).explained reading.2 h

theorem choice {first second : Rule α} (hfirst : first.IsTraced caller)
    (hsecond : second.IsTraced caller) :
    (first <|> second).IsTraced caller where
  takes := hfirst.takes.choice hsecond.takes
  path cursor attempt h := by
    rcases mem_attempts_choice.mp h with h | ⟨-, h⟩
    · exact hfirst.path cursor attempt h
    · exact hsecond.path cursor attempt h
  ahead start attempt h := by
    rcases mem_attempts_choice.mp h with h | ⟨-, h⟩
    · exact hfirst.ahead start attempt h
    · exact hsecond.ahead start attempt h
  explained cursor h := by
    rw [result_choice, Option.or_eq_none_iff] at h
    obtain ⟨attempt, hattempt⟩ :=
      List.exists_mem_of_ne_nil _ (hfirst.explained cursor h.1)
    exact List.ne_nil_of_mem (mem_attempts_choice.mpr (.inl hattempt))

theorem spanned {rule : Rule α} (h : rule.IsTraced caller) :
    rule.spanned.IsTraced caller where
  takes := h.takes.of_result_map fun _ => rfl
  path := h.path
  ahead := h.ahead
  explained cursor hnone := h.explained cursor (Option.map_eq_none_iff.mp hnone)

protected theorem ite {condition : Prop} [Decidable condition]
    {first second : Rule α} (hfirst : first.IsTraced caller)
    (hsecond : second.IsTraced caller) :
    (if condition then first else second).IsTraced caller := by
  split
  · exact hfirst
  · exact hsecond

protected theorem optional {rule : Rule α} (h : rule.IsTraced caller) :
    rule.optional.IsTraced caller :=
  .choice (.bind h fun _ => .pure _) (.pure none)

theorem named {rule : Rule α} {name : String} (h : rule.IsTraced name)
    (hcall : name ∈ callees caller) : (rule.named name).IsTraced caller where
  takes := h.takes
  path cursor attempt hattempt := by
    obtain ⟨inner, hinner, rfl⟩ := List.mem_map.mp hattempt
    exact (h.path cursor inner hinner).cons hcall
  ahead start attempt hattempt := by
    obtain ⟨inner, hinner, rfl⟩ := List.mem_map.mp hattempt
    exact h.ahead start inner hinner
  explained cursor hnone := by
    rw [attempts_named]
    simpa using h.explained cursor hnone

theorem separated {item : Rule α} {separator : Rule Unit}
    (hitem : item.IsTraced caller) (hseparator : separator.IsTraced caller) :
    (Rule.separated item separator).IsTraced caller := by
  have hstep : (separator >>= fun _ => item).IsTraced caller :=
    hseparator.bind fun _ => hitem
  constructor
  · intro start values stop hresult
    rw [result_separated, Option.map_eq_some_iff] at hresult
    obtain ⟨⟨value, next⟩, hvalue, hpair⟩ := hresult
    cases hpair
    obtain ⟨left, -, hleft⟩ := hitem.takes hvalue
    obtain ⟨right, hright⟩ := reads_furtherItems hstep.takes next
    exact ⟨left ++ right, trivial, hleft.trans hright⟩
  · intro cursor attempt hattempt
    rcases exists_of_mem_attempts_separated hattempt with
      hattempt | ⟨_, place, -, hattempt⟩
    · exact hitem.path cursor attempt hattempt
    · exact hstep.path place attempt hattempt
  · intro start attempt hattempt
    rcases exists_of_mem_attempts_separated hattempt with
      hattempt | ⟨_, place, hrow, hattempt⟩
    · exact hitem.ahead start attempt hattempt
    · obtain ⟨left, hleft⟩ := hrow.exists_reads hitem.takes hstep.takes
      obtain ⟨right, site, hright, hposition⟩ :=
        hstep.ahead place attempt hattempt
      exact ⟨left ++ right, site, hleft.trans hright, hposition⟩
  · intro cursor hnone
    rw [attempts_separated]
    simpa using fun h =>
      absurd h (hitem.explained cursor (separated_eq_none_iff.mp hnone))

end Rule.IsTraced

namespace Grammar

theorem quotedRest_closed_or_missed (quote : Char) (closing : String)
    (position : Nat) (rest : List Char) :
    ((quotedRest quote closing position rest).result ≠ none ∧
        (quotedRest quote closing position rest).attempts = []) ∨
      ∃ expected, quotedRest quote closing position rest =
        ⟨none, [⟨position + byteSize rest, expected, []⟩]⟩ := by
  fun_induction quotedRest quote closing position rest with
  | case1 position => exact .inr ⟨closing, by simp [Rule.missing]⟩
  | case2 position => exact .inr ⟨Expected.escapedCharacter, rfl⟩
  | case3 position c rest outcome ih =>
      rcases ih with ⟨hresult, hattempts⟩ | ⟨expected, h⟩
      · exact .inl ⟨by simpa using hresult, hattempts⟩
      · have hmissed : outcome = _ := h
        refine .inr ⟨expected, ?_⟩
        rw [hmissed, byteSize_cons, byteSize_cons, ← Nat.add_assoc,
          ← Nat.add_assoc]
        rfl
  | case4 => exact .inl ⟨by simp, rfl⟩
  | case5 position c rest _ _ _ outcome ih =>
      rcases ih with ⟨hresult, hattempts⟩ | ⟨expected, h⟩
      · exact .inl ⟨by simpa using hresult, hattempts⟩
      · have hmissed : outcome = _ := h
        exact .inr
          ⟨expected, by rw [hmissed, byteSize_cons, Nat.add_assoc]; rfl⟩

section Traced

variable {caller : String}

theorem isTraced_quotedRest (quote : Char) (closing : String) :
    Rule.IsTraced (fun cursor =>
      quotedRest quote closing cursor.position cursor.rest) caller where
  takes start text stop hresult := by
    obtain ⟨body, -, hreads⟩ := escapedAs_of_quotedRest hresult
    exact ⟨_, trivial, hreads⟩
  path cursor attempt h := by
    rcases quotedRest_closed_or_missed quote closing cursor.position
      cursor.rest with
      ⟨-, hnil⟩ | ⟨expected, hmissed⟩
    · simp [hnil] at h
    · rw [hmissed, List.mem_singleton] at h
      cases h
      exact isCallPath_singleton caller
  ahead start attempt h := by
    rcases quotedRest_closed_or_missed quote closing start.position
      start.rest with
      ⟨-, hnil⟩ | ⟨expected, hmissed⟩
    · simp [hnil] at h
    · rw [hmissed, List.mem_singleton] at h
      cases h
      exact ⟨start.rest, ⟨_, []⟩, ⟨by simp, rfl⟩, rfl⟩
  explained cursor hnone := by
    rcases quotedRest_closed_or_missed quote closing cursor.position
      cursor.rest with
      ⟨hresult, -⟩ | ⟨expected, hmissed⟩
    · exact absurd hnone hresult
    · simp [hmissed]

theorem isTraced_space : space.IsTraced caller :=
  .bind (.run isSpace) fun _ => .ite (.missing _) (.pure ())

theorem isTraced_identifier : identifier.IsTraced caller :=
  .bind (.spanned (.run isIdentifierChar)) fun _ => .ite (.missing _) (.pure _)

theorem isTraced_multiField : multiField.IsTraced "field" :=
  .named (.separated isTraced_identifier (.literal _ _)) (by decide)

theorem isTraced_field : field.IsTraced "and_query" := by
  have hnames : Rule.IsTraced (do
      let fields ← multiField
      Rule.literal [':'] Expected.colon
      pure fields) "field" :=
    .bind isTraced_multiField fun _ => .bind (.literal _ _) fun _ => .pure _
  exact .named (.bind hnames.spanned fun _ =>
    .bind isTraced_space.optional fun _ => .pure _) (by decide)

theorem isTraced_openingQuote : openingQuote.IsTraced caller :=
  .choice (.bind (.literal _ _) fun _ => .pure _)
    (.bind (.literal _ _) fun _ => .pure _)

theorem isTraced_quotedString : quotedString.IsTraced "condition" := by
  refine .named (.bind (.spanned (.bind isTraced_openingQuote ?_)) fun _ =>
    .pure _) (by decide)
  intro opening
  exact .bind (isTraced_quotedRest opening.1 opening.2) fun _ => .pure _

theorem isTraced_rawCondition : rawCondition.IsTraced "condition" := by
  refine .named (.bind .upcoming fun _ => .ite (.missing _) ?_) (by decide)
  exact .bind (.spanned (.run isTermChar)) fun _ => .pure _

theorem isTraced_condition : condition.IsTraced "or_conditions" :=
  .named (.bind (.choice isTraced_quotedString isTraced_rawCondition) fun _ =>
    .bind .upcoming fun _ => .ite (.missing _) (.pure _)) (by decide)

theorem isTraced_spacedWord (word : List Char) (expected : String) :
    (do space; Rule.literal word expected; space : Rule Unit).IsTraced caller :=
  .bind isTraced_space fun _ =>
    .bind (.literal word expected) fun _ => isTraced_space

theorem isTraced_orOp : orOp.IsTraced "or_conditions" :=
  .named (.choice (isTraced_spacedWord _ _) isTraced_space) (by decide)

theorem isTraced_orConditions : orConditions.IsTraced "and_conditions" :=
  .named (.bind (.spanned (.separated isTraced_condition isTraced_orOp))
    fun _ => .pure _) (by decide)

theorem isTraced_andOp : andOp.IsTraced "and_conditions" :=
  .named (isTraced_spacedWord _ _) (by decide)

theorem isTraced_andConditions : andConditions.IsTraced "and_query" :=
  .named (.bind (.spanned (.separated isTraced_orConditions isTraced_andOp))
    fun _ => .pure _) (by decide)

theorem isTraced_andQuery : andQuery.IsTraced "and_queries" := by
  have hgroup : Rule.IsTraced (do
      let fields ← Rule.optional field
      let conditions ← andConditions
      pure (fields, conditions)) "and_query" :=
    .bind isTraced_field.optional fun _ =>
      .bind isTraced_andConditions fun _ => .pure _
  exact .named (.bind hgroup.spanned fun _ => .pure _) (by decide)

theorem isTraced_endOfInput : endOfInput.IsTraced caller :=
  .bind .upcoming fun _ => .ite (.pure ()) (.missing _)

end Traced

end Grammar

end TermSearch
