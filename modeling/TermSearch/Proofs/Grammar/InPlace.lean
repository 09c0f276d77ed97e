import TermSearch.Grammar.InPlace
import TermSearch.Proofs.Grammar.Lossless
import TermSearch.Proofs.Grammar.Outlook

namespace TermSearch

open InPlace

/-! Reading in place is what the rules are as functions of the place. Started at
a place of the input, each reader ends there where its rule stops, with the same
value, and has noted the same attempts under the rules that were active. -/

def Ends (reader : Reader α) (state : State) (value? : Option α)
    (stop : State) : Prop :=
  (reader.run.run state).run = Part.some (.ok (value?, stop))

section Ends

variable {state middle stop : State} {value? : Option α}

theorem Ends.unique {reader : Reader α} {other? : Option α} {other : State}
    (h : Ends reader state value? stop)
    (hother : Ends reader state other? other) :
    value? = other? ∧ stop = other := by
  unfold Ends at h hother
  rw [h] at hother
  cases Part.some_injective hother
  exact ⟨rfl, rfl⟩

theorem Ends.run_bind {reader : Reader α} (h : Ends reader state value? stop)
    (after : Except BadSlice (Option α × State) → Part β) :
    (reader.run.run state).run.bind after = after (.ok (value?, stop)) := by
  rw [h, Part.bind_some]

theorem Ends.bind {first : Reader β} {next : β → Reader α} {taken : β}
    (hfirst : Ends first state (some taken) middle)
    (hnext : Ends (next taken) middle value? stop) :
    Ends (first >>= next) state value? stop :=
  (hfirst.run_bind _).trans hnext

theorem Ends.bind_of_none {first : Reader β} {next : β → Reader α}
    (hfirst : Ends first state none stop) :
    Ends (first >>= next) state none stop :=
  hfirst.run_bind _

theorem Ends.choice {first second : Reader α} {value : α}
    (hfirst : Ends first state (some value) stop) :
    Ends (first <|> second) state (some value) stop :=
  hfirst.run_bind _

theorem Ends.choice_of_none {first second : Reader α}
    (hfirst : Ends first state none middle)
    (hsecond : Ends second middle value? stop) :
    Ends (first <|> second) state value? stop :=
  (hfirst.run_bind _).trans hsecond

theorem Ends.attempt {reader : Reader α} (h : Ends reader state value? stop) :
    Ends (InPlace.attempt reader) state (some value?) stop :=
  h.run_bind _

theorem ends_pure (value : α) :
    Ends (pure value) state (some value) state := rfl

theorem ends_failure : Ends (failure : Reader α) state none state := rfl

theorem ends_get : Ends get state (some state) state := Part.bind_some _ _

theorem ends_modify (change : State → State) :
    Ends (modify change) state (some ()) (change state) := Part.bind_some _ _

theorem ends_position : Ends position state (some state.position) state :=
  ends_get.bind (ends_pure _)

theorem ends_reset (position : Nat) :
    Ends (reset position) state (some ()) { state with position } :=
  ends_modify _

theorem ends_moveOn (size : Nat) :
    Ends (moveOn size) state (some ())
      { state with position := state.position + size } :=
  ends_modify _

theorem ends_enter (name : String) :
    Ends (enter name) state (some ())
      { state with rules := state.rules ++ [name] } :=
  ends_modify _

theorem ends_leave :
    Ends leave state (some ()) { state with rules := state.rules.dropLast } :=
  ends_modify _

theorem ends_missing (expected : String) :
    Ends (missing expected : Reader α) state none
      { state with
        furthest :=
          state.furthest.record ⟨state.position, expected, state.rules⟩ } :=
  (ends_modify _).bind ends_failure

theorem ends_slice {start stop : Nat} {text : List Char}
    (h : textBetween? state.input.toList start stop = some text) :
    Ends (slice start stop) state (some text) state := by
  refine .bind ends_get ?_
  rw [h]
  exact ends_pure text

/-! A loop ends where its last turn ends. -/

variable {turn : σ → Reader (Turn σ α)} {first next : σ}

theorem Ends.afterTurn_mem {turn? : Option (Turn σ α)}
    (h : Ends (turn first) state turn? stop) :
    afterTurn (.ok (turn?, stop)) ∈
      ((turn first).run.run state).run.map afterTurn :=
  Part.mem_map _ (Part.eq_some_iff.mp h)

theorem Ends.loop_done {value : α}
    (h : Ends (turn first) state (some (.done value)) stop) :
    Ends (loop turn first) state (some value) stop :=
  Part.eq_some_iff.mpr (PFun.fix_stop h.afterTurn_mem)

theorem Ends.loop_of_none (h : Ends (turn first) state none stop) :
    Ends (loop turn first) state none stop :=
  Part.eq_some_iff.mpr (PFun.fix_stop h.afterTurn_mem)

theorem Ends.loop_again
    (h : Ends (turn first) state (some (.again next)) middle)
    (hrest : Ends (loop turn next) middle value? stop) :
    Ends (loop turn first) state value? stop :=
  (PFun.fix_fwd_eq h.afterTurn_mem).trans hrest

end Ends

namespace Furthest

/-- Notes attempts that were made below active rules. -/
def noting (furthest : Furthest) (rules : List String)
    (attempts : List Attempt) : Furthest :=
  attempts.foldl
    (fun furthest attempt =>
      furthest.record
        ⟨attempt.position, attempt.expectation.expected,
          rules ++ attempt.expectation.rules⟩)
    furthest

variable (furthest : Furthest) (rules : List String)

theorem noting_append (first second : List Attempt) :
    furthest.noting rules (first ++ second) =
      (furthest.noting rules first).noting rules second :=
  List.foldl_append

/-- What carries the name of a rule was noted while the rule was active. -/
theorem noting_within (name : String) (attempts : List Attempt) :
    furthest.noting rules (attempts.map (·.within name)) =
      furthest.noting (rules ++ [name]) attempts := by
  unfold noting
  rw [List.foldl_map]
  simp [Attempt.within]

theorem noting_start (attempts : List Attempt) :
    start.noting [] attempts = ofAttempts attempts :=
  rfl

theorem position_le_noting (attempts : List Attempt) :
    furthest.position ≤ (furthest.noting rules attempts).position := by
  unfold noting
  induction attempts generalizing furthest with
  | nil => exact Nat.le_refl _
  | cons attempt attempts ih =>
      refine Nat.le_trans ?_ (ih _)
      rw [position_record]
      exact Nat.le_max_left _ _

end Furthest

/-- From a place of the input the reader reads and notes what the rule reads and
notes. Where the rule fails, the reader is left somewhere in the input. -/
def Follows (reader : Reader α) (rule : Rule α) : Prop :=
  ∀ ⦃input : String⦄ ⦃start : Cursor⦄, start.IsIn input.toList →
    ∀ rules furthest, ∃ stop : Cursor, stop.IsIn input.toList ∧
      (∀ reading ∈ (rule start).result, reading.2 = stop) ∧
      Ends reader ⟨input, start.position, rules, furthest⟩
        ((rule start).result.map (·.1))
        ⟨input, stop.position, rules,
          furthest.noting rules (rule start).attempts⟩

/-- The reader follows the rule, and where the rule fails, it is back where it
started. -/
def Realizes (reader : Reader α) (rule : Rule α) : Prop :=
  ∀ ⦃input : String⦄ ⦃start : Cursor⦄, start.IsIn input.toList →
    ∀ rules furthest,
      let stop := (rule start).result.elim start (·.2)
      stop.IsIn input.toList ∧
        Ends reader ⟨input, start.position, rules, furthest⟩
          ((rule start).result.map (·.1))
          ⟨input, stop.position, rules,
            furthest.noting rules (rule start).attempts⟩

theorem Realizes.follows {reader : Reader α} {rule : Rule α}
    (h : Realizes reader rule) : Follows reader rule := by
  intro input start hstart rules furthest
  obtain ⟨hstop, hends⟩ := h hstart rules furthest
  refine ⟨_, hstop, ?_, hends⟩
  intro reading hreading
  rw [Option.mem_def.mp hreading, Option.elim_some]

namespace Rule

variable {first second : Rule α} {next : α → Rule β} {cursor : Cursor}

theorem bind_of_none (h : (first cursor).result = none) :
    (first >>= next) cursor = ⟨none, (first cursor).attempts⟩ := by
  rw [bind_eq_andThen]
  unfold andThen
  split <;> simp_all

theorem bind_of_some {reading : α × Cursor}
    (h : (first cursor).result = some reading) :
    (first >>= next) cursor =
      ⟨(next reading.1 reading.2).result,
        (first cursor).attempts ++ (next reading.1 reading.2).attempts⟩ := by
  obtain ⟨value, stop⟩ := reading
  rw [bind_eq_andThen]
  unfold andThen
  split <;> simp_all

theorem choice_of_none (h : (first cursor).result = none) :
    (first <|> second) cursor =
      ⟨(second cursor).result,
        (first cursor).attempts ++ (second cursor).attempts⟩ := by
  change first.orElse (fun _ => second) cursor = _
  unfold orElse
  split <;> simp_all

theorem choice_of_some {reading : α × Cursor}
    (h : (first cursor).result = some reading) :
    (first <|> second) cursor = ⟨some reading, (first cursor).attempts⟩ := by
  change first.orElse (fun _ => second) cursor = _
  unfold orElse
  split <;> simp_all

end Rule

section Combinators

variable {reader : Reader α} {rule : Rule α}

theorem realizes_pure (value : α) : Realizes (pure value) (pure value) :=
  fun _ _ hstart _ _ => ⟨hstart, ends_pure value⟩

theorem realizes_missing (expected : String) :
    Realizes (missing expected : Reader α) (Rule.missing expected) := by
  intro input start hstart rules furthest
  refine ⟨hstart, ?_⟩
  simp only [Rule.result_missing, Rule.attempts_missing, Furthest.noting,
    List.foldl_cons, List.foldl_nil, List.append_nil]
  exact ends_missing expected

theorem Follows.bind {next : α → Reader β} {later : α → Rule β}
    (hfirst : Follows reader rule)
    (hnext : ∀ value, Follows (next value) (later value)) :
    Follows (reader >>= next) (rule >>= later) := by
  intro input start hstart rules furthest
  obtain ⟨middle, hmiddle, hplace, hends⟩ := hfirst hstart rules furthest
  cases hresult : (rule start).result with
  | none =>
      rw [hresult] at hends
      rw [Rule.bind_of_none hresult]
      exact ⟨middle, hmiddle, by simp, hends.bind_of_none⟩
  | some reading =>
      rw [hresult] at hends
      obtain rfl := hplace reading hresult
      rw [Rule.bind_of_some hresult, Furthest.noting_append]
      obtain ⟨stop, hstop, hlast, hrest⟩ := hnext reading.1 hmiddle rules
        (furthest.noting rules (rule start).attempts)
      exact ⟨stop, hstop, hlast, hends.bind hrest⟩

/-- A reader that never fails has nothing to take back. -/
theorem Follows.realizes (h : Follows reader rule)
    (hreads : ∀ start, (rule start).result ≠ none) : Realizes reader rule := by
  intro input start hstart rules furthest
  obtain ⟨stop, hstop, hplace, hends⟩ := h hstart rules furthest
  obtain ⟨reading, hreading⟩ := Option.ne_none_iff_exists'.mp (hreads start)
  obtain rfl := hplace reading hreading
  rw [hreading] at hends ⊢
  exact ⟨hstop, hends⟩

/-- Two readers after one another take everything back if the second one fails
only where the first one has read nothing. -/
theorem Realizes.bind {next : α → Reader β} {later : α → Rule β}
    (hfirst : Realizes reader rule)
    (hnext : ∀ value, Realizes (next value) (later value))
    (hback : ∀ start value stop, (rule start).result = some (value, stop) →
      (later value stop).result = none → stop = start) :
    Realizes (reader >>= next) (rule >>= later) := by
  intro input start hstart rules furthest
  obtain ⟨hmiddle, hends⟩ := hfirst hstart rules furthest
  cases hresult : (rule start).result with
  | none =>
      rw [hresult] at hends
      rw [Rule.bind_of_none hresult]
      exact ⟨hstart, hends.bind_of_none⟩
  | some reading =>
      rw [hresult] at hends hmiddle
      obtain ⟨hstop, hrest⟩ := hnext reading.1 hmiddle rules
        (furthest.noting rules (rule start).attempts)
      rw [Rule.bind_of_some hresult, Furthest.noting_append]
      cases hlater : (later reading.1 reading.2).result with
      | none =>
          obtain rfl := hback start reading.1 reading.2 hresult hlater
          rw [Option.elim_some, hlater] at hrest
          exact ⟨hstart, hends.bind hrest⟩
      | some last =>
          rw [Option.elim_some, hlater] at hrest hstop
          exact ⟨hstop, hends.bind hrest⟩

/-- What is tried second starts where the first one started, if that has gone
back there. -/
theorem Follows.choice {second : Reader α} {other : Rule α}
    (hfirst : Realizes reader rule) (hsecond : Follows second other) :
    Follows (reader <|> second) (rule <|> other) := by
  intro input start hstart rules furthest
  obtain ⟨hstop, hends⟩ := hfirst hstart rules furthest
  cases hresult : (rule start).result with
  | none =>
      rw [hresult] at hends
      obtain ⟨stop, hstop, hplace, hother⟩ := hsecond hstart rules
        (furthest.noting rules (rule start).attempts)
      rw [Rule.choice_of_none hresult, Furthest.noting_append]
      exact ⟨stop, hstop, hplace, hends.choice_of_none hother⟩
  | some reading =>
      rw [hresult] at hends hstop
      rw [Rule.choice_of_some hresult]
      exact ⟨reading.2, hstop, by simp, hends.choice⟩

/-- A first one that may be left anywhere has to be taken back by whoever tries
the second. -/
theorem Follows.choice_reset {second : Reader α} {other : Rule α}
    (hfirst : Follows reader rule) (hsecond : Follows second other) :
    Follows (position >>= fun start => reader <|> (do reset start; second))
      (rule <|> other) := by
  intro input start hstart rules furthest
  obtain ⟨place, hplaceIn, hplace, hends⟩ := hfirst hstart rules furthest
  cases hresult : (rule start).result with
  | none =>
      rw [hresult] at hends
      obtain ⟨stop, hstop, hlast, hother⟩ := hsecond hstart rules
        (furthest.noting rules (rule start).attempts)
      rw [Rule.choice_of_none hresult, Furthest.noting_append]
      refine ⟨stop, hstop, hlast, .bind ends_position (hends.choice_of_none ?_)⟩
      exact .bind (ends_reset start.position) hother
  | some reading =>
      rw [hresult] at hends
      obtain rfl := hplace reading hresult
      rw [Rule.choice_of_some hresult]
      exact ⟨reading.2, hplaceIn, by simp, .bind ends_position hends.choice⟩

/-- Whatever the body leaves behind when it fails, a named reader takes back. -/
theorem Realizes.named (name : String) (hbody : Follows reader rule) :
    Realizes (InPlace.named name reader) (rule.named name) := by
  intro input start hstart rules furthest
  obtain ⟨stop, hstop, hplace, hends⟩ := hbody hstart (rules ++ [name]) furthest
  rw [Rule.result_named, Rule.attempts_named, Furthest.noting_within]
  cases hresult : (rule start).result with
  | none =>
      rw [hresult] at hends
      refine ⟨hstart, ?_⟩
      refine .bind ends_position
        (.bind (ends_enter name) (.bind hends.attempt ?_))
      refine .bind ends_leave (.bind (ends_reset start.position) ?_)
      rw [List.dropLast_concat]
      exact ends_failure
  | some reading =>
      rw [hresult] at hends
      obtain rfl := hplace reading hresult
      refine ⟨hstop, ?_⟩
      refine .bind ends_position
        (.bind (ends_enter name) (.bind hends.attempt ?_))
      refine .bind ends_leave ?_
      rw [List.dropLast_concat]
      exact ends_pure reading.1

theorem Follows.spanned (h : Follows reader rule) :
    Follows (InPlace.spanned reader) rule.spanned := by
  intro input start hstart rules furthest
  obtain ⟨stop, hstop, hplace, hends⟩ := h hstart rules furthest
  rw [Rule.result_spanned, Rule.attempts_spanned]
  cases hresult : (rule start).result with
  | none =>
      rw [hresult] at hends
      exact ⟨stop, hstop, by simp, .bind ends_position hends.bind_of_none⟩
  | some reading =>
      rw [hresult] at hends
      obtain rfl := hplace reading hresult
      refine ⟨reading.2, hstop, by simp, ?_⟩
      exact .bind ends_position (hends.bind (.bind ends_position (ends_pure _)))

/-- A failure may be passed over if it was taken back. -/
theorem Realizes.attempt (h : Realizes reader rule) :
    Realizes (InPlace.attempt reader) rule.optional := by
  intro input start hstart rules furthest
  obtain ⟨hstop, hends⟩ := h hstart rules furthest
  have hattempts : (rule.optional start).attempts = (rule start).attempts := by
    change (Rule.orElse (rule.andThen fun value => pure (some value)) _
      start).attempts = _
    unfold Rule.orElse Rule.andThen
    rcases hrule : rule start with ⟨_ | reading, attempts⟩ <;> simp
  rw [Rule.result_optional, hattempts]
  cases hresult : (rule start).result with
  | none =>
      rw [hresult] at hends
      exact ⟨hstart, hends.attempt⟩
  | some reading =>
      rw [hresult] at hends hstop
      exact ⟨hstop, hends.attempt⟩

end Combinators

/-! Looking at the text. At a place of the input every slice that a reader cuts
is there. -/

theorem Cursor.reads_character (position : Nat) (c : Char) (rest : List Char) :
    (mk position (c :: rest)).Reads [c] ⟨position + c.utf8Size, rest⟩ :=
  ⟨rfl, rfl⟩

section Text

variable {input : String} {start : Cursor} (rules : List String)
  (furthest : Furthest)

theorem Cursor.IsIn.reads_rest {input : List Char} (h : start.IsIn input) :
    start.Reads start.rest ⟨byteSize input, []⟩ := by
  obtain ⟨before, hinput, hposition⟩ := h
  exact ⟨(List.append_nil _).symm, by rw [hinput, byteSize_append, hposition]⟩

theorem ends_rest (hstart : start.IsIn input.toList) :
    Ends rest ⟨input, start.position, rules, furthest⟩ (some start.rest)
      ⟨input, start.position, rules, furthest⟩ :=
  .bind ends_get (ends_slice (hstart.reads_rest.textBetween?_eq hstart))

theorem ends_peek (hstart : start.IsIn input.toList) :
    Ends peek ⟨input, start.position, rules, furthest⟩ (some start.rest.head?)
      ⟨input, start.position, rules, furthest⟩ :=
  .bind (ends_rest rules furthest hstart) (ends_pure _)

theorem ends_advance_nil {position : Nat}
    (hstart : (Cursor.mk position []).IsIn input.toList) :
    Ends advance ⟨input, position, rules, furthest⟩ (some none)
      ⟨input, position, rules, furthest⟩ := by
  have hpeek := ends_peek rules furthest hstart
  exact hpeek.bind (ends_pure none)

theorem ends_advance_cons {position : Nat} {c : Char} {text : List Char}
    (hstart : (Cursor.mk position (c :: text)).IsIn input.toList) :
    Ends advance ⟨input, position, rules, furthest⟩ (some (some c))
      ⟨input, position + c.utf8Size, rules, furthest⟩ := by
  have hpeek := ends_peek rules furthest hstart
  exact hpeek.bind (.bind (ends_moveOn c.utf8Size) (ends_pure (some c)))

theorem ends_atEnd (hstart : start.IsIn input.toList) :
    Ends atEnd ⟨input, start.position, rules, furthest⟩
      (some start.rest.isEmpty) ⟨input, start.position, rules, furthest⟩ := by
  have hend :
      decide (byteSize input.toList ≤ start.position) = start.rest.isEmpty := by
    have hsize : byteSize input.toList = start.position + byteSize start.rest :=
      hstart.reads_rest.position
    cases hrest : start.rest with
    | nil =>
        rw [hrest, byteSize_nil] at hsize
        exact decide_eq_true (by omega)
    | cons c text =>
        rw [hrest, byteSize_cons] at hsize
        have := c.utf8Size_pos
        exact decide_eq_false (by omega)
  rw [← hend]
  exact .bind ends_get (ends_pure _)

theorem ends_eat (hstart : start.IsIn input.toList) (word : List Char) :
    Ends (eat word) ⟨input, start.position, rules, furthest⟩
      (some (start.after? word).isSome)
      ⟨input, ((start.after? word).getD start).position, rules, furthest⟩ := by
  refine .bind (ends_rest rules furthest hstart) ?_
  unfold Cursor.after?
  split
  · exact .bind (ends_moveOn (byteSize word)) (ends_pure true)
  · exact ends_pure false

end Text

theorem realizes_eatWhile (allowed : Char → Bool) :
    Realizes (eatWhile allowed) (Rule.run allowed) := by
  intro input start hstart rules furthest
  have hreads := Cursor.Reads.afterRun start allowed
  refine ⟨hreads.isIn hstart, ?_⟩
  refine .bind ends_position (.bind (ends_rest rules furthest hstart)
    (.bind (ends_moveOn _) ?_))
  exact .bind ends_position (ends_slice (hreads.textBetween?_eq hstart))

theorem realizes_literal (word : List Char) (expected : String) :
    Realizes (literal word expected) (Rule.literal word expected) := by
  intro input start hstart rules furthest
  have heat := ends_eat rules furthest hstart word
  unfold Rule.literal
  cases hword : start.after? word with
  | some stop =>
      rw [hword] at heat
      exact ⟨(Cursor.after?_eq_some_iff.mp hword).isIn hstart,
        heat.bind (ends_pure ())⟩
  | none =>
      rw [hword] at heat
      obtain ⟨-, hmissing⟩ :=
        realizes_missing (α := Unit) expected hstart rules furthest
      exact ⟨hstart, heat.bind hmissing⟩

theorem Follows.peek {next : Option Char → Reader α}
    {later : List Char → Rule α}
    (h : ∀ upcoming, Follows (next upcoming.head?) (later upcoming)) :
    Follows (InPlace.peek >>= next) (Rule.upcoming >>= later) := by
  intro input start hstart rules furthest
  obtain ⟨stop, hstop, hplace, hends⟩ := h start.rest hstart rules furthest
  exact ⟨stop, hstop, hplace, (ends_peek rules furthest hstart).bind hends⟩

theorem Follows.atEnd {next : Bool → Reader α} {later : List Char → Rule α}
    (h : ∀ upcoming, Follows (next upcoming.isEmpty) (later upcoming)) :
    Follows (InPlace.atEnd >>= next) (Rule.upcoming >>= later) := by
  intro input start hstart rules furthest
  obtain ⟨stop, hstop, hplace, hends⟩ := h start.rest hstart rules furthest
  exact ⟨stop, hstop, hplace, (ends_atEnd rules furthest hstart).bind hends⟩

/-! Rows of items. The loop of a row goes on only while the text that remains
gets shorter, and that is what lets it end. -/

section Rows

variable {item : Reader α} {separator : Reader Unit} {rule : Rule α}
  {between : Rule Unit}

theorem Realizes.nextItem (hitem : Realizes item rule)
    (hseparator : Realizes separator between) :
    Realizes (nextItem item separator) (between >>= fun _ => rule) := by
  intro input start hstart rules furthest
  obtain ⟨hmiddle, hfirst⟩ := hseparator hstart rules furthest
  cases hbetween : (between start).result with
  | none =>
      rw [hbetween] at hfirst
      rw [Rule.bind_of_none hbetween]
      exact ⟨hstart, .bind ends_position hfirst.bind_of_none⟩
  | some reading =>
      rw [hbetween] at hfirst hmiddle
      obtain ⟨hstop, hsecond⟩ := hitem hmiddle rules
        (furthest.noting rules (between start).attempts)
      rw [Rule.bind_of_some hbetween, Furthest.noting_append]
      cases hresult : (rule reading.2).result with
      | none =>
          rw [Option.elim_some, hresult] at hsecond
          refine ⟨hstart,
            .bind ends_position (hfirst.bind (hsecond.attempt.bind ?_))⟩
          exact .bind (ends_reset start.position) ends_failure
      | some last =>
          rw [Option.elim_some, hresult] at hsecond hstop
          exact ⟨hstop, .bind ends_position
            (hfirst.bind (hsecond.attempt.bind (ends_pure _)))⟩

theorem ends_furtherItems (hitem : Realizes item rule)
    (hseparator : Realizes separator between)
    (htakes : (between >>= fun _ => rule).Takes (· ≠ [])) {input : String}
    {start : Cursor} (hstart : start.IsIn input.toList) (rules : List String)
    (furthest : Furthest) (values : List α) :
    let more := Rule.furtherItems rule between start
    more.1.2.IsIn input.toList ∧
      Ends (furtherItems item separator values)
        ⟨input, start.position, rules, furthest⟩ (some (values ++ more.1.1))
        ⟨input, more.1.2.position, rules, furthest.noting rules more.2⟩ := by
  have hnext := Realizes.nextItem hitem hseparator
  induction hlength : start.rest.length using Nat.strong_induction_on
    generalizing start furthest values with
  | _ length ih =>
      obtain ⟨hstop, hends⟩ := hnext hstart rules furthest
      cases hstep : ((between >>= fun _ => rule) start).result with
      | none =>
          rw [hstep] at hends
          rw [Rule.furtherItems_of_none hstep]
          refine ⟨hstart, .loop_done ?_⟩
          rw [List.append_nil]
          exact hends.attempt.bind (ends_pure _)
      | some reading =>
          rw [hstep] at hends hstop
          rw [Rule.furtherItems_of_some htakes hstep]
          obtain ⟨text, htext, hreads⟩ := htakes hstep
          have hshorter : reading.2.rest.length < length := by
            rw [← hlength, hreads.length_rest]
            exact Nat.lt_add_of_pos_left (List.length_pos_iff.mpr htext)
          obtain ⟨hlast, hmore⟩ := ih _ hshorter hstop
            (furthest.noting rules ((between >>= fun _ => rule) start).attempts)
            (values ++ [reading.1]) rfl
          rw [List.append_assoc, List.singleton_append] at hmore
          refine ⟨hlast, .loop_again (hends.attempt.bind (ends_pure _)) ?_⟩
          rw [Furthest.noting_append]
          exact hmore

theorem Realizes.separated (hitem : Realizes item rule)
    (hseparator : Realizes separator between)
    (htakes : (between >>= fun _ => rule).Takes (· ≠ [])) :
    Realizes (separated item separator) (Rule.separated rule between) := by
  intro input start hstart rules furthest
  obtain ⟨hmiddle, hfirst⟩ := hitem hstart rules furthest
  rw [Rule.result_separated, Rule.attempts_separated]
  cases hresult : (rule start).result with
  | none =>
      rw [hresult] at hfirst
      rw [Option.elim_none, List.append_nil]
      exact ⟨hstart, hfirst.bind_of_none⟩
  | some reading =>
      rw [hresult] at hfirst hmiddle
      obtain ⟨hstop, hmore⟩ :=
        ends_furtherItems hitem hseparator htakes hmiddle rules
          (furthest.noting rules (rule start).attempts) [reading.1]
      rw [Option.elim_some, Furthest.noting_append]
      exact ⟨hstop, hfirst.bind hmore⟩

end Rows

/-! The rules of the grammar. -/

theorem follows_pure (value : α) : Follows (pure value) (pure value) :=
  (realizes_pure value).follows

theorem Realizes.ite {condition : Prop} [Decidable condition]
    {first second : Reader α} {rule other : Rule α}
    (hfirst : Realizes first rule) (hsecond : Realizes second other) :
    Realizes (if condition then first else second)
      (if condition then rule else other) := by
  split
  · exact hfirst
  · exact hsecond

theorem Rule.eq_nil_of_missing {text : List Char} {expected : String}
    {value : α} {cursor : Cursor}
    (h : ((if text.isEmpty then Rule.missing expected else pure value : Rule α)
        cursor).result =
      none) :
    text = [] := by
  split at h
  · exact List.isEmpty_iff.mp ‹_›
  · cases h

theorem realizes_space : Realizes space Grammar.space := by
  refine .bind (realizes_eatWhile isSpace)
    (fun _ => .ite (realizes_missing _) (realizes_pure ())) ?_
  intro start spaces stop hrun hnone
  cases hrun
  exact start.afterRun_eq_self (Rule.eq_nil_of_missing hnone)

theorem realizes_identifier : Realizes identifier Grammar.identifier := by
  have hname : Realizes (spanned (eatWhile isIdentifierChar))
      (Rule.run isIdentifierChar).spanned :=
    (realizes_eatWhile isIdentifierChar).follows.spanned.realizes nofun
  refine .bind hname (fun _ => .ite (realizes_missing _) (realizes_pure _)) ?_
  intro start taken stop hrun hnone
  cases hrun
  exact start.afterRun_eq_self (Rule.eq_nil_of_missing hnone)

theorem realizes_multiField : Realizes multiField Grammar.multiField :=
  .named _ (realizes_identifier.separated (realizes_literal _ _)
    Grammar.takes_comma_identifier).follows

theorem realizes_field : Realizes field Grammar.field := by
  refine .named _ (.bind (.spanned ?_) fun _ =>
    .bind realizes_space.attempt.follows fun _ => follows_pure _)
  exact .bind realizes_multiField.follows fun _ =>
    .bind (realizes_literal _ _).follows fun _ => follows_pure _

section Character

variable {result : Option (List Char × Cursor)} {c : Char}

theorem map_cons_append (text : List Char) :
    (result.map fun reading => (c :: reading.1, reading.2)).map (text ++ ·.1) =
      result.map (text ++ [c] ++ ·.1) := by
  cases result <;> simp

theorem stop_eq_of_mem_map_cons {stop : Cursor}
    (h : ∀ reading ∈ result, reading.2 = stop) :
    ∀ reading ∈ result.map fun reading => (c :: reading.1, reading.2),
      reading.2 = stop := by
  intro reading hreading
  obtain ⟨taken, htaken, rfl⟩ := Option.map_eq_some_iff.mp hreading
  exact h taken htaken

end Character

theorem ne_backslash_of_not_escape {c : Char} {rest : List Char}
    (hdangling : c = '\\' → rest = [] → False)
    (hescape : ∀ d more, c = '\\' → rest = d :: more → False) : c ≠ '\\' := by
  intro hbackslash
  cases rest with
  | nil => exact hdangling hbackslash rfl
  | cons d more => exact hescape d more hbackslash rfl

theorem ends_quotedRest (quote : Char) (closing : String) {input : String}
    {position : Nat} {rest : List Char}
    (hstart : (Cursor.mk position rest).IsIn input.toList)
    (rules : List String) (furthest : Furthest) (text : List Char) :
    let outcome := Grammar.quotedRest quote closing position rest
    ∃ stop : Cursor, stop.IsIn input.toList ∧
      (∀ reading ∈ outcome.result, reading.2 = stop) ∧
      Ends (quotedRest quote closing text) ⟨input, position, rules, furthest⟩
        (outcome.result.map (text ++ ·.1)) ⟨input, stop.position, rules,
        furthest.noting rules outcome.attempts⟩ := by
  have hpass : ∀ {position c rest},
      (Cursor.mk position (c :: rest)).IsIn input.toList →
      (Cursor.mk (position + c.utf8Size) rest).IsIn input.toList :=
    (Cursor.reads_character _ _ _).isIn
  fun_induction Grammar.quotedRest quote closing position
    rest generalizing text with
  | case1 position =>
      refine ⟨⟨position, []⟩, hstart, by simp, .loop_of_none ?_⟩
      refine .bind (ends_advance_nil _ _ hstart) ?_
      exact (realizes_missing closing hstart rules furthest).2
  | case2 position =>
      have hnext := hpass hstart
      refine ⟨⟨position + 1, []⟩, hnext, by simp, .loop_of_none ?_⟩
      refine .bind (ends_advance_cons _ _ hstart)
        (.bind (ends_advance_nil _ _ hnext) ?_)
      exact (realizes_missing Expected.escapedCharacter hnext rules furthest).2
  | case3 position c rest outcome ih =>
      have hnext := hpass hstart
      obtain ⟨stop, hstop, hplace, hends⟩ := ih (hpass hnext) (text ++ [c])
      refine ⟨stop, hstop, stop_eq_of_mem_map_cons hplace, ?_⟩
      rw [map_cons_append]
      refine .loop_again (.bind (ends_advance_cons _ _ hstart) ?_) hends
      exact .bind (ends_advance_cons _ _ hnext) (ends_pure _)
  | case4 position rest hdangling hescape =>
      have hplain := ne_backslash_of_not_escape hdangling hescape
      refine ⟨_, hpass hstart,
        by simp, .loop_done (.bind (ends_advance_cons _ _ hstart) ?_)⟩
      dsimp only
      rw [if_neg hplain, if_pos rfl, List.append_nil]
      exact ends_pure _
  | case5 position c rest hdangling hescape hquote outcome ih =>
      have hplain := ne_backslash_of_not_escape hdangling hescape
      obtain ⟨stop, hstop, hplace, hends⟩ := ih (hpass hstart) (text ++ [c])
      refine ⟨stop, hstop, stop_eq_of_mem_map_cons hplace, ?_⟩
      rw [map_cons_append]
      refine .loop_again (.bind (ends_advance_cons _ _ hstart) ?_) hends
      dsimp only
      rw [if_neg hplain, if_neg hquote]
      exact ends_pure _

theorem follows_quotedRest (quote : Char) (closing : String) :
    Follows (quotedRest quote closing []) fun cursor =>
      Grammar.quotedRest quote closing cursor.position cursor.rest :=
  fun _ _ hstart rules furthest =>
    ends_quotedRest quote closing hstart rules furthest []

theorem follows_openingQuote : Follows openingQuote Grammar.openingQuote := by
  have hdouble : Realizes
      (do
        literal ['"'] Expected.doubleQuote
        pure ('"', Expected.closingDoubleQuote))
      (do
        Rule.literal ['"'] Expected.doubleQuote
        pure ('"', Expected.closingDoubleQuote)) :=
    .bind (realizes_literal _ _) (fun _ => realizes_pure _) nofun
  exact .choice hdouble
    (.bind (realizes_literal _ _).follows fun _ => follows_pure _)

theorem realizes_quotedString : Realizes quotedString Grammar.quotedString := by
  refine .named _
    (.bind (.spanned (.bind follows_openingQuote ?_)) fun _ => follows_pure _)
  rintro ⟨quote, closing⟩
  exact .bind (follows_quotedRest quote closing) fun _ => follows_pure _

theorem realizes_rawCondition : Realizes rawCondition Grammar.rawCondition := by
  refine .named _ ?_
  intro input start hstart rules furthest
  have hstop : (start.afterRun isTermChar).IsIn input.toList :=
    (realizes_eatWhile isTermChar hstart rules furthest).1
  have hrun :
      Ends (eatWhile isTermChar) ⟨input, start.position, rules, furthest⟩
        (some (start.rest.takeWhile isTermChar))
        ⟨input, (start.afterRun isTermChar).position, rules, furthest⟩ :=
    (realizes_eatWhile isTermChar hstart rules furthest).2
  have hlook : ∀ later : List Char → Rule Condition,
      (Rule.upcoming >>= later) start = later start.rest start := fun _ => rfl
  rw [hlook]
  dsimp only
  by_cases hrefused : start.rest.takeWhile isTermChar = [] ∨
      start.rest.takeWhile isTermChar = reservedWord
  · rw [if_pos hrefused]
    refine ⟨start, hstart, nofun, .bind ends_position (.bind hrun ?_)⟩
    rw [if_pos hrefused]
    refine .bind (ends_reset start.position) ?_
    exact (realizes_missing (α := Condition) Expected.rawCondition hstart
      rules furthest).2
  · rw [if_neg hrefused]
    refine ⟨start.afterRun isTermChar, hstop, ?_,
      .bind ends_position (.bind hrun ?_)⟩
    · intro reading hreading
      cases hreading
      rfl
    · rw [if_neg hrefused]
      exact .bind ends_position (ends_pure _)

theorem realizes_condition : Realizes condition Grammar.condition := by
  refine .named _
    (.bind (.choice realizes_quotedString realizes_rawCondition.follows) ?_)
  exact fun _ =>
    .peek fun _ => (Realizes.ite (realizes_missing _) (realizes_pure _)).follows

theorem follows_spacedWord (word : List Char) (expected : String) :
    Follows (do space; literal word expected; space)
      (do Grammar.space; Rule.literal word expected; Grammar.space) :=
  .bind realizes_space.follows fun _ =>
    .bind (realizes_literal word expected).follows fun _ =>
      realizes_space.follows

theorem realizes_orOp : Realizes orOp Grammar.orOp :=
  .named _ (.choice_reset (follows_spacedWord _ _) realizes_space.follows)

theorem realizes_orConditions : Realizes orConditions Grammar.orConditions :=
  .named _ (.bind (.spanned (realizes_condition.separated realizes_orOp
    Grammar.takes_orOp_condition).follows) fun _ => follows_pure _)

theorem realizes_andOp : Realizes andOp Grammar.andOp :=
  .named _ (follows_spacedWord _ _)

theorem realizes_andConditions : Realizes andConditions Grammar.andConditions :=
  .named _ (.bind (.spanned (realizes_orConditions.separated realizes_andOp
    Grammar.takes_andOp_orConditions).follows) fun _ => follows_pure _)

theorem realizes_andQuery : Realizes andQuery Grammar.andQuery := by
  refine .named _ (.bind (.spanned (.bind realizes_field.attempt.follows ?_))
    fun _ => follows_pure _)
  exact fun _ => .bind realizes_andConditions.follows fun _ => follows_pure _

theorem follows_endOfInput : Follows endOfInput Grammar.endOfInput :=
  .atEnd fun _ => (Realizes.ite (realizes_pure ()) (realizes_missing _)).follows

theorem realizes_andQueries : Realizes andQueries Grammar.andQueries := by
  refine .named _ (.bind (.spanned (realizes_andQuery.separated realizes_space
    Grammar.takes_space_andQuery).follows) ?_)
  exact fun _ => .bind realizes_space.attempt.follows fun _ =>
    .bind follows_endOfInput fun _ => follows_pure _

theorem parse_of_ends {input : String} {tree? : Option SyntaxTree}
    {stop : State} (h : Ends andQueries (.start input) tree? stop) :
    (parse input).run =
      Part.some
        (.ok (tree?.elim
          (.error ⟨stop.furthest.position, stop.furthest.expected, input⟩)
          .ok)) := by
  refine (h.run_bind _).trans ?_
  cases tree? <;> rfl

/-- Reading in place ends on every input, cuts no bad slice, and gives the tree
or the error. -/
theorem parse_eq (input : String) :
    (parse input).run = Part.some (.ok (SyntaxTree.parse input)) := by
  have hends : Ends andQueries (.start input) _ _ :=
    (realizes_andQueries (Cursor.isIn_ofText input) [] .start).2
  rw [parse_of_ends hends, Furthest.noting_start]
  unfold SyntaxTree.parse
  cases hresult : (Grammar.andQueries (.ofText input)).result with
  | none => simp [hresult]
  | some reading => simp [hresult]

end TermSearch
