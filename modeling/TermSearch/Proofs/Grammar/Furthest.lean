import TermSearch.Proofs.Grammar.Attempts

namespace TermSearch

/-! The report of a refused query. The furthest place is kept up attempt by
attempt; at the end it is the last place of all attempts, with all that was
looked for there. -/

namespace Furthest

theorem ofAttempts_concat (attempts : List Attempt) (attempt : Attempt) :
    ofAttempts (attempts ++ [attempt]) =
      (ofAttempts attempts).record attempt := by
  simp [ofAttempts]

theorem position_le_ofAttempts (attempts : List Attempt) :
    ∀ attempt ∈ attempts,
      attempt.position ≤ (ofAttempts attempts).position := by
  induction attempts using List.reverseRecOn with
  | nil => simp
  | append_singleton attempts last ih =>
      rw [ofAttempts_concat, position_record]
      intro attempt hmem
      rcases List.mem_append.mp hmem with hmem | hmem
      · exact (ih attempt hmem).trans (Nat.le_max_left ..)
      · rw [List.mem_singleton.mp hmem]
        exact Nat.le_max_right ..

theorem exists_position_eq_ofAttempts {attempts : List Attempt}
    (h : attempts ≠ []) :
    ∃ attempt ∈ attempts,
      attempt.position = (ofAttempts attempts).position := by
  induction attempts using List.reverseRecOn with
  | nil => exact absurd rfl h
  | append_singleton attempts last ih =>
      rw [ofAttempts_concat, position_record]
      by_cases hlast : (ofAttempts attempts).position ≤ last.position
      · exact ⟨last, by simp, (Nat.max_eq_right hlast).symm⟩
      · have hne : attempts ≠ [] := by
          rintro rfl
          exact hlast (Nat.zero_le _)
        obtain ⟨attempt, hmem, hposition⟩ := ih hne
        refine ⟨attempt, List.mem_append_left _ hmem, ?_⟩
        rw [hposition, Nat.max_eq_left (Nat.le_of_not_le hlast)]

/-- What was looked for at a position, each expectation where it first
occurs. -/
def expectedAt (position : Nat) (attempts : List Attempt) : List Expectation :=
  ((attempts.filter (·.position = position)).map Attempt.expectation).eraseDups

theorem expectedAt_concat_of_ne {position : Nat} {attempt : Attempt}
    (h : attempt.position ≠ position) (attempts : List Attempt) :
    expectedAt position (attempts ++ [attempt]) =
      expectedAt position attempts := by
  simp [expectedAt, h]

theorem expectedAt_concat (attempts : List Attempt) (attempt : Attempt) :
    expectedAt attempt.position (attempts ++ [attempt]) =
      if attempt.expectation ∈ expectedAt attempt.position attempts then
        expectedAt attempt.position attempts
      else expectedAt attempt.position attempts ++ [attempt.expectation] := by
  simp only [expectedAt, List.mem_eraseDups]
  rw [List.filter_append, List.map_append, List.eraseDups_append]
  split <;> simp_all [List.removeAll, List.eraseDups_cons]

theorem expectedAt_eq_nil {position : Nat} {attempts : List Attempt}
    (h : ∀ attempt ∈ attempts, attempt.position < position) :
    expectedAt position attempts = [] := by
  have hnone : attempts.filter (·.position = position) = [] := by
    rw [List.filter_eq_nil_iff]
    intro attempt hmem
    simpa using (h attempt hmem).ne
  rw [expectedAt, hnone]
  rfl

theorem expected_record {furthest : Furthest} {attempts : List Attempt}
    (hexpected : furthest.expected = expectedAt furthest.position attempts)
    (hposition : ∀ attempt ∈ attempts, attempt.position ≤ furthest.position)
    (last : Attempt) :
    (furthest.record last).expected =
      expectedAt (furthest.record last).position (attempts ++ [last]) := by
  rcases Nat.lt_trichotomy last.position furthest.position with
    hbefore | hsame | hbeyond
  · rw [record, if_neg (by omega), if_neg (by omega),
      expectedAt_concat_of_ne hbefore.ne, hexpected]
  · by_cases hknown : last.expectation ∈ furthest.expected
    · rw [record, if_neg (by omega), if_neg (fun h => h.2 hknown), ← hsame,
        expectedAt_concat, hsame, ← hexpected, if_pos hknown]
    · rw [record, if_neg (by omega), if_pos ⟨hsame, hknown⟩]
      simp only
      rw [← hsame, expectedAt_concat, hsame, ← hexpected, if_neg hknown]
  · have hnone : expectedAt last.position attempts = [] :=
      expectedAt_eq_nil fun attempt hmem =>
        (hposition attempt hmem).trans_lt hbeyond
    rw [record, if_pos hbeyond, expectedAt_concat, hnone]
    rfl

theorem expected_ofAttempts (attempts : List Attempt) :
    (ofAttempts attempts).expected =
      expectedAt (ofAttempts attempts).position attempts := by
  induction attempts using List.reverseRecOn with
  | nil => rfl
  | append_singleton attempts last ih =>
      rw [ofAttempts_concat]
      exact expected_record ih (position_le_ofAttempts attempts) last

end Furthest

namespace Grammar

theorem parse_eq_error_iff {input : String} {error : SyntaxError} :
    SyntaxTree.parse input = .error error ↔
      (andQueries (.ofText input)).result = none ∧
        error =
          ⟨(Furthest.ofAttempts (andQueries (.ofText input)).attempts).position,
            (Furthest.ofAttempts
              (andQueries (.ofText input)).attempts).expected, input⟩ := by
  unfold SyntaxTree.parse
  cases hresult : (andQueries (.ofText input)).result with
  | none => simp [hresult, eq_comm]
  | some reading => simp [hresult]

theorem position_le_of_parse_error {input : String} {error : SyntaxError}
    (h : SyntaxTree.parse input = .error error) :
    ∀ attempt ∈ (andQueries (.ofText input)).attempts,
      attempt.position ≤ error.position := by
  obtain ⟨-, rfl⟩ := parse_eq_error_iff.mp h
  exact Furthest.position_le_ofAttempts _

theorem mem_attempts_of_parse_error {input : String} {error : SyntaxError}
    (h : SyntaxTree.parse input = .error error) {e : Expectation}
    (he : e ∈ error.expected) :
    ⟨error.position, e⟩ ∈ (andQueries (.ofText input)).attempts := by
  obtain ⟨-, rfl⟩ := parse_eq_error_iff.mp h
  rw [Furthest.expected_ofAttempts, Furthest.expectedAt, List.mem_eraseDups,
    List.mem_map] at he
  obtain ⟨attempt, hattempt, rfl⟩ := he
  obtain ⟨hattempt, hposition⟩ := List.mem_filter.mp hattempt
  rw [← of_decide_eq_true hposition]
  exact hattempt

theorem andQueries_eq_named :
    ∃ body : Rule SyntaxTree, andQueries = body.named "and_queries" ∧
      body.IsTraced "and_queries" := by
  refine ⟨_, rfl,
    .bind (.spanned (.separated isTraced_andQuery isTraced_space)) fun _ => ?_⟩
  exact .bind isTraced_space.optional fun _ =>
    .bind isTraced_endOfInput fun _ => .pure _

theorem isCallPath_of_mem_andQueries {start : Cursor} {attempt : Attempt}
    (h : attempt ∈ (andQueries start).attempts) :
    attempt.expectation.rules.head? = some "and_queries" ∧
      IsCallPath attempt.expectation.rules := by
  obtain ⟨body, hbody, htraced⟩ := andQueries_eq_named
  rw [hbody, Rule.attempts_named] at h
  obtain ⟨inner, hinner, rfl⟩ := List.mem_map.mp h
  exact ⟨rfl, htraced.path start inner hinner⟩

theorem ahead_of_mem_andQueries {start : Cursor} {attempt : Attempt}
    (h : attempt ∈ (andQueries start).attempts) :
    ∃ text place, start.Reads text place ∧
      place.position = attempt.position := by
  obtain ⟨body, hbody, htraced⟩ := andQueries_eq_named
  rw [hbody, Rule.attempts_named] at h
  obtain ⟨inner, hinner, rfl⟩ := List.mem_map.mp h
  exact htraced.ahead start inner hinner

theorem attempts_andQueries_ne_nil {start : Cursor}
    (h : (andQueries start).result = none) :
    (andQueries start).attempts ≠ [] := by
  obtain ⟨body, hbody, htraced⟩ := andQueries_eq_named
  rw [hbody, Rule.result_named] at h
  rw [hbody, Rule.attempts_named]
  simpa using htraced.explained start h

end Grammar

/-- The error reports the last position of the attempts, and each expectation
there once and where it first occurs. -/
structure SyntaxError.Reports (error : SyntaxError)
    (attempts : List Attempt) : Prop where
  reached : ∃ attempt ∈ attempts, attempt.position = error.position
  furthest : ∀ attempt ∈ attempts, attempt.position ≤ error.position
  expected : error.expected =
    ((attempts.filter (·.position = error.position)).map
      Attempt.expectation).eraseDups

/-- The position is a place of the input, and what is expected there names the
rules that looked for it, from the outermost one on. -/
structure SyntaxError.IsLocated (error : SyntaxError)
    (input : List Char) : Prop where
  expected_ne_nil : error.expected ≠ []
  position_le : error.position ≤ byteSize input
  boundary : ∃ before after, input = before ++ after ∧
    byteSize before = error.position
  path : ∀ expectation ∈ error.expected,
    expectation.rules.head? = some "and_queries" ∧ IsCallPath expectation.rules

theorem SyntaxError.Reports.mem_expected_iff {error : SyntaxError}
    {attempts : List Attempt} (h : error.Reports attempts)
    {expectation : Expectation} :
    expectation ∈ error.expected ↔
      ⟨error.position, expectation⟩ ∈ attempts := by
  rw [h.expected, List.mem_eraseDups, List.mem_map]
  constructor
  · intro hmem
    obtain ⟨⟨position, found⟩, hattempt, rfl⟩ := hmem
    obtain ⟨hattempt, hposition⟩ := List.mem_filter.mp hattempt
    rw [← of_decide_eq_true hposition]
    exact hattempt
  · intro hmem
    exact ⟨_, List.mem_filter.mpr ⟨hmem, by simp⟩, rfl⟩

theorem SyntaxError.Reports.isLocated {error : SyntaxError} {input : String}
    (h : error.Reports (Grammar.andQueries (.ofText input)).attempts) :
    error.IsLocated input.toList := by
  obtain ⟨attempt, hattempt, hposition⟩ := h.reached
  obtain ⟨text, place, hreads, hplace⟩ :=
    Grammar.ahead_of_mem_andQueries hattempt
  have hsize : byteSize text = error.position := by
    rw [← hposition, ← hplace, hreads.position]
    exact (Nat.zero_add _).symm
  constructor
  · obtain ⟨position, expectation⟩ := attempt
    cases hposition
    exact List.ne_nil_of_mem (h.mem_expected_iff.mpr hattempt)
  · have hinput : input.toList = text ++ place.rest := hreads.rest
    rw [hinput, byteSize_append, hsize]
    exact Nat.le_add_right ..
  · exact ⟨text, place.rest, hreads.rest, hsize⟩
  · intro expectation hmem
    exact Grammar.isCallPath_of_mem_andQueries (h.mem_expected_iff.mp hmem)

theorem reports_of_parse_error {input : String} {error : SyntaxError}
    (h : SyntaxTree.parse input = .error error) :
    error.Reports (Grammar.andQueries (.ofText input)).attempts ∧
      error.IsLocated input.toList := by
  obtain ⟨hnone, rfl⟩ := Grammar.parse_eq_error_iff.mp h
  have hne := Grammar.attempts_andQueries_ne_nil hnone
  have hreports : SyntaxError.Reports ⟨_, _, input⟩
      (Grammar.andQueries (.ofText input)).attempts :=
    ⟨Furthest.exists_position_eq_ofAttempts hne,
      Furthest.position_le_ofAttempts _, Furthest.expected_ofAttempts _⟩
  exact ⟨hreports, hreports.isLocated⟩

/-- The second `and` can only be a condition, and is none. -/
theorem reports_of_parse_error_reserved_word :
    ∃ error, SyntaxTree.parse "é and and b" = .error error ∧
      error.position = 7 ∧
      error.Reports (Grammar.andQueries (.ofText "é and and b")).attempts ∧
      error.IsLocated "é and and b".toList := by
  have h : SyntaxTree.parse "é and and b" = .error
      ⟨7, [⟨Expected.doubleQuote, ["and_queries", "and_query", "and_conditions",
          "or_conditions", "condition", "quoted_string"]⟩,
        ⟨Expected.singleQuote, ["and_queries", "and_query", "and_conditions",
          "or_conditions", "condition", "quoted_string"]⟩,
        ⟨Expected.rawCondition, ["and_queries", "and_query", "and_conditions",
          "or_conditions", "condition", "raw_condition"]⟩], "é and and b"⟩ := by
    decide +kernel
  exact ⟨_, h, rfl, reports_of_parse_error h⟩

end TermSearch
