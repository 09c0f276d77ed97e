import TermSearch.Proofs.Grammar.InPlace
import TermSearch.Proofs.Grammar.Shift

namespace TermSearch

open InPlace

/-! What the rules owe one another when they read in place. A rule that fails
puts the position back, one that reads moves it on to another place of the
input, and either way the stack of rules is as it was. Any helper that would
read and then fail without going back would put all its callers out of step. -/

/-- The rules of the grammar, as they read in place and as functions of the
place. Space and literals are rules without a name, as identifiers are. -/
inductive GrammarRule : {α : Type} → Reader α → Rule α → Prop where
  | andQueries : GrammarRule andQueries Grammar.andQueries
  | andQuery : GrammarRule andQuery Grammar.andQuery
  | field : GrammarRule field Grammar.field
  | multiField : GrammarRule multiField Grammar.multiField
  | identifier : GrammarRule identifier Grammar.identifier
  | andConditions : GrammarRule andConditions Grammar.andConditions
  | orConditions : GrammarRule orConditions Grammar.orConditions
  | andOp : GrammarRule andOp Grammar.andOp
  | orOp : GrammarRule orOp Grammar.orOp
  | condition : GrammarRule condition Grammar.condition
  | rawCondition : GrammarRule rawCondition Grammar.rawCondition
  | quotedString : GrammarRule quotedString Grammar.quotedString
  | space : GrammarRule space Grammar.space
  | literal {word : List Char} (hword : word ≠ []) (expected : String) :
      GrammarRule (literal word expected) (Rule.literal word expected)

inductive GrammarRow : {α : Type} → Reader α → Reader Unit → Prop where
  | groups : GrammarRow andQuery space
  | names : GrammarRow identifier comma
  | orGroups : GrammarRow orConditions andOp
  | conditions : GrammarRow condition orOp

/-- What changes a state at once, apart from going back. -/
inductive Operation : {α : Type} → Reader α → Prop where
  | advance : Operation advance
  | eat (word : List Char) : Operation (eat word)
  | eatWhile (allowed : Char → Bool) : Operation (eatWhile allowed)
  | missing (expected : String) : Operation (missing expected : Reader Unit)
  | enter (name : String) : Operation (enter name)
  | leave : Operation leave

/-- The states that a reader of the input can come to, by operations and rules
in any order. A position that is put back was the position of an earlier
state. -/
inductive Reachable (input : String) : State → Prop where
  | start : Reachable input (.start input)
  | operation {α : Type} {reader : Reader α}
      {state stop : State} {value? : Option α}
      (h : Reachable input state) (hoperation : Operation reader)
      (hends : Ends reader state value? stop) : Reachable input stop
  | rule {α : Type} {reader : Reader α} {rule : Rule α}
      {state stop : State} {value? : Option α}
      (h : Reachable input state) (hrule : GrammarRule reader rule)
      (hends : Ends reader state value? stop) : Reachable input stop
  | reset {state saved : State} (h : Reachable input state)
      (hsaved : Reachable input saved) :
      Reachable input { state with position := saved.position }

/-- What a reader may make of the state in which it is called: a failure leaves
the position as it was, and a value is read from at least so many bytes. -/
structure Discipline (least : Nat) (state : State) (value? : Option α)
    (stop : State) : Prop where
  input_eq : stop.input = state.input
  rewinds : value? = none → stop.position = state.position
  advances : value? ≠ none → state.position + least ≤ stop.position
  position_le : stop.position ≤ byteSize state.input.toList
  isPlace : ∃ before after, state.input.toList = before ++ after ∧
    stop.position = byteSize before
  rules_eq : stop.rules = state.rules
  furthest_le : state.furthest.position ≤ stop.furthest.position

/-- Reading ends, every slice on the way can be cut, and the state is left in
order. -/
def IsDisciplined (least : Nat) (reader : Reader α) (state : State) : Prop :=
  ∃ value? stop, Ends reader state value? stop ∧
    Discipline least state value? stop

theorem Realizes.isDisciplined {reader : Reader α} {rule : Rule α}
    {least : Nat} (h : Realizes reader rule)
    (htakes : rule.Takes (least ≤ byteSize ·)) {input : String}
    {start : Cursor} (hstart : start.IsIn input.toList) (rules : List String)
    (furthest : Furthest) :
    IsDisciplined least reader ⟨input, start.position, rules, furthest⟩ := by
  obtain ⟨hstop, hends⟩ := h hstart rules furthest
  refine ⟨_, _, hends, ?_⟩
  obtain ⟨before, hinput, hposition⟩ := hstop
  constructor
  · rfl
  · intro hnone
    rw [Option.map_eq_none_iff] at hnone
    rw [hnone, Option.elim_none]
  · intro hsome
    obtain ⟨reading, hreading⟩ :=
      Option.ne_none_iff_exists'.mp (mt Option.map_eq_none_iff.mpr hsome)
    obtain ⟨text, htext, hreads⟩ := htakes hreading
    rw [hreading, Option.elim_some, hreads.position]
    exact Nat.add_le_add_left htext _
  · rw [hposition, hinput, byteSize_append]
    exact Nat.le_add_right _ _
  · exact ⟨before, _, hinput, hposition⟩
  · rfl
  · exact furthest.position_le_noting rules _

theorem Rule.Takes.byteSize_pos {rule : Rule α} (h : rule.Takes (· ≠ [])) :
    rule.Takes (1 ≤ byteSize ·) :=
  h.mono fun _ => TermSearch.byteSize_pos

theorem Rule.Takes.two_le_byteSize {first : Rule α} {second : Rule β}
    (hfirst : first.Takes (· ≠ [])) (hsecond : second.Takes (· ≠ [])) :
    (first >>= fun _ => second).Takes (2 ≤ byteSize ·) := by
  refine (hfirst.byteSize_pos.bind fun _ => hsecond.byteSize_pos).mono ?_
  rintro text ⟨left, right, hleft, hright, rfl⟩
  rw [byteSize_append]
  exact Nat.add_le_add hleft hright

theorem Grammar.takes_andQueries : Grammar.andQueries.Takes (· ≠ []) := by
  intro start tree stop hresult
  obtain ⟨next, hgroups, -, rfl, -⟩ := andQueries_eq_some_iff.mp hresult
  obtain ⟨text, htext, hreads⟩ := takes_andQuery.separated_ne_nil
    (takes_space.mono fun _ => (·.1)) hgroups
  exact ⟨text ++ next.run isSpace,
    by simp [htext], hreads.trans (.afterRun next isSpace)⟩

namespace GrammarRule

variable {reader : Reader α} {rule : Rule α}

theorem realizes (h : GrammarRule reader rule) : Realizes reader rule := by
  cases h with
  | andQueries => exact realizes_andQueries
  | andQuery => exact realizes_andQuery
  | field => exact realizes_field
  | multiField => exact realizes_multiField
  | identifier => exact realizes_identifier
  | andConditions => exact realizes_andConditions
  | orConditions => exact realizes_orConditions
  | andOp => exact realizes_andOp
  | orOp => exact realizes_orOp
  | condition => exact realizes_condition
  | rawCondition => exact realizes_rawCondition
  | quotedString => exact realizes_quotedString
  | space => exact realizes_space
  | literal _ expected => exact realizes_literal _ expected

/-- No rule reads nothing. -/
theorem takes (h : GrammarRule reader rule) : rule.Takes (· ≠ []) := by
  cases h with
  | andQueries => exact Grammar.takes_andQueries
  | andQuery => exact Grammar.takes_andQuery
  | field => exact Grammar.takes_field
  | multiField => exact Grammar.takes_multiField.mono fun _ => (·.1)
  | identifier => exact Grammar.takes_identifier.mono fun _ => (·.1)
  | andConditions => exact Grammar.takes_andConditions
  | orConditions => exact Grammar.takes_orConditions
  | andOp => exact Grammar.takes_andOp.mono fun _ => IsSpacedWord.ne_nil
  | orOp => exact Grammar.takes_orOp.mono fun _ => IsOrSeparator.ne_nil
  | condition => exact Grammar.takes_condition
  | rawCondition => exact Grammar.takes_rawCondition
  | quotedString => exact Grammar.takes_quotedString
  | space => exact Grammar.takes_space.mono fun _ => (·.1)
  | literal hword expected =>
      refine (Rule.Takes.literal _ expected).mono ?_
      rintro text rfl
      exact hword

end GrammarRule

theorem GrammarRow.exists_rules {item : Reader α} {separator : Reader Unit}
    (h : GrammarRow item separator) :
    ∃ rule between, GrammarRule item rule ∧ GrammarRule separator between := by
  cases h with
  | groups => exact ⟨_, _, .andQuery, .space⟩
  | names => exact ⟨_, _, .identifier, .literal (by simp) _⟩
  | orGroups => exact ⟨_, _, .orConditions, .andOp⟩
  | conditions => exact ⟨_, _, .condition, .orOp⟩

theorem Operation.exists_place {reader : Reader α} (h : Operation reader)
    {input : String} {start : Cursor} (hstart : start.IsIn input.toList)
    {rules : List String} {furthest : Furthest} {value? : Option α}
    {stop : State}
    (hends : Ends reader ⟨input, start.position, rules, furthest⟩ value? stop) :
    ∃ place : Cursor, place.IsIn input.toList ∧
      stop = ⟨input, place.position, stop.rules, stop.furthest⟩ := by
  cases h with
  | advance =>
      obtain ⟨position, rest⟩ := start
      cases rest with
      | nil =>
          obtain ⟨-, rfl⟩ := hends.unique (ends_advance_nil _ _ hstart)
          exact ⟨_, hstart, rfl⟩
      | cons c rest =>
          obtain ⟨-, rfl⟩ := hends.unique (ends_advance_cons _ _ hstart)
          exact ⟨_, (Cursor.reads_character position c rest).isIn hstart, rfl⟩
  | eat word =>
      obtain ⟨-, rfl⟩ := hends.unique (ends_eat _ _ hstart word)
      refine ⟨_, ?_, rfl⟩
      cases hword : start.after? word with
      | none => exact hstart
      | some next => exact (Cursor.after?_eq_some_iff.mp hword).isIn hstart
  | eatWhile allowed =>
      obtain ⟨hstop, hrun⟩ := realizes_eatWhile allowed hstart rules furthest
      obtain ⟨-, rfl⟩ := hends.unique hrun
      exact ⟨_, hstop, rfl⟩
  | missing expected =>
      obtain ⟨-, rfl⟩ := hends.unique (ends_missing expected)
      exact ⟨start, hstart, rfl⟩
  | enter name =>
      obtain ⟨-, rfl⟩ := hends.unique (ends_enter name)
      exact ⟨start, hstart, rfl⟩
  | leave =>
      obtain ⟨-, rfl⟩ := hends.unique ends_leave
      exact ⟨start, hstart, rfl⟩

/-- Every state that a reader can come to is at a place of the input. -/
theorem Reachable.exists_place {input : String} {state : State}
    (h : Reachable input state) :
    ∃ place : Cursor, place.IsIn input.toList ∧
      state = ⟨input, place.position, state.rules, state.furthest⟩ := by
  induction h with
  | start => exact ⟨.ofText input, Cursor.isIn_ofText input, rfl⟩
  | operation _ hoperation hends ih =>
      obtain ⟨place, hplace, hstate⟩ := ih
      rw [hstate] at hends
      exact hoperation.exists_place hplace hends
  | rule _ hrule hends ih =>
      obtain ⟨place, hplace, hstate⟩ := ih
      rw [hstate] at hends
      obtain ⟨hstop, hrealized⟩ := hrule.realizes hplace _ _
      obtain ⟨-, rfl⟩ := hends.unique hrealized
      exact ⟨_, hstop, rfl⟩
  | reset _ _ ih ihsaved =>
      obtain ⟨_, -, hstate⟩ := ih
      obtain ⟨place, hplace, hsaved⟩ := ihsaved
      refine ⟨place, hplace, ?_⟩
      rw [hstate, hsaved]

/-- Wherever a reader of the input can come to, each rule does what it does as a
function of the place, and ends without a bad slice. If it fails, the position
is what it was, and if it reads, the position has moved on to another place of
the input; the stack of rules is what it was, and the furthest place is none
before. So each further item of a row takes at least two bytes with its
separator, and reading a whole input ends, with the tree or the error of that
input. -/
theorem disciplined_of_reachable {input : String} {state : State}
    (h : Reachable input state) :
    (∀ {α : Type} {reader : Reader α} {rule : Rule α}, GrammarRule reader rule →
        Realizes reader rule ∧ IsDisciplined 1 reader state) ∧
      (∀ {α : Type} {item : Reader α} {separator : Reader Unit},
        GrammarRow item separator →
        IsDisciplined 1 (separated item separator) state ∧
          IsDisciplined 2 (nextItem item separator) state) ∧
      (parse input).run = Part.some (.ok (SyntaxTree.parse input)) := by
  obtain ⟨place, hplace, hstate⟩ := h.exists_place
  rw [hstate]
  refine ⟨?_, ?_, parse_eq input⟩
  · intro α reader rule hrule
    exact ⟨hrule.realizes,
      hrule.realizes.isDisciplined hrule.takes.byteSize_pos hplace _ _⟩
  · intro α item separator hrow
    obtain ⟨rule, between, hitem, hseparator⟩ := hrow.exists_rules
    have hstep := hseparator.takes.two_le_byteSize hitem.takes
    have hnonempty : (between >>= fun _ => rule).Takes (· ≠ []) :=
      hseparator.takes.bind_ne_nil fun _ => hitem.takes.mono fun _ _ => trivial
    have hall := hitem.takes.separated_ne_nil hseparator.takes
    constructor
    · exact (hitem.realizes.separated hseparator.realizes
        hnonempty).isDisciplined hall.byteSize_pos hplace _ _
    · exact (hitem.realizes.nextItem hseparator.realizes).isDisciplined
        hstep hplace _ _

/-- Behind a character of three bytes, inside a rule. -/
theorem disciplined_of_reachable_behind_character :
    let input := String.ofList ['わ', ' ', 'a', 'n', 'd', ' ', '"']
    let state : State := ⟨input, 3, ["and_queries"], .start⟩
    Reachable input state ∧
      GrammarRule andOp Grammar.andOp ∧
      GrammarRow condition orOp ∧
      IsDisciplined 1 andOp state ∧
      IsDisciplined 2 (nextItem condition orOp) state ∧
      (parse input).run = Part.some (.ok (SyntaxTree.parse input)) := by
  intro input state
  have hentered : Reachable input ⟨input, 0, ["and_queries"], .start⟩ :=
    .operation .start (.enter "and_queries") (ends_enter _)
  have hadvance : Ends advance ⟨input, 0, ["and_queries"], .start⟩
      (some (some 'わ')) state :=
    ends_advance_cons _ _ ⟨[], String.toList_ofList, rfl⟩
  have h : Reachable input state := .operation hentered .advance hadvance
  obtain ⟨hrules, hrows, hparse⟩ := disciplined_of_reachable h
  exact ⟨h, .andOp, .conditions, (hrules .andOp).2,
    (hrows .conditions).2, hparse⟩

/-! Reading in place does not depend on what stands before the place either. -/

/-- Behind another text the reader reads what it reads at the start of the text
alone, so many bytes further on, or it fails at both places. -/
def EndsAlike (reader : Reader α) (shift : Nat → α → α)
    (before text : String) : Prop :=
  ∀ rules furthest later, ∃ value? position,
    (∃ noted,
      Ends reader ⟨text, 0, rules, furthest⟩ value?
        ⟨text, position, rules, noted⟩) ∧
      ∃ noted,
        Ends reader ⟨before ++ text, byteSize before.toList, rules, later⟩
          (value?.map (shift (byteSize before.toList)))
          ⟨before ++ text, byteSize before.toList + position, rules, noted⟩

theorem GrammarRule.endsAlike {reader : Reader α} {rule : Rule α}
    {shift : Nat → α → α} (h : GrammarRule reader rule)
    (hshift : rule.Shifts shift) (before text : String) :
    EndsAlike reader shift before text := by
  intro rules furthest later
  have hreads :=
    Cursor.after?_eq_some_iff.mp (Cursor.after?_ofText_append before text)
  have hplace := hreads.isIn (Cursor.isIn_ofText (before ++ text))
  obtain ⟨-, hfirst⟩ := h.realizes (Cursor.isIn_ofText text) rules furthest
  obtain ⟨-, hlast⟩ := h.realizes hplace rules later
  rw [hshift] at hlast
  cases hresult : (rule (Cursor.ofText text)).result with
  | none =>
      rw [hresult] at hfirst hlast
      exact ⟨_, _, ⟨_, hfirst⟩, _, hlast⟩
  | some reading =>
      rw [hresult] at hfirst hlast
      exact ⟨_, _, ⟨_, hfirst⟩, _, hlast⟩

/-- Each named rule and each name, read in place behind another text, is what it
is in the text alone, with its spans and its end further on. -/
theorem ends_alike_behind (before text : String) :
    EndsAlike andQueries SyntaxTree.shift before text ∧
      EndsAlike andQuery QueryGroup.shift before text ∧
      EndsAlike field FieldList.shift before text ∧
      EndsAlike multiField (fun offset => List.map (FieldName.shift offset))
        before text ∧
      EndsAlike identifier FieldName.shift before text ∧
      EndsAlike andConditions Conditions.shift before text ∧
      EndsAlike orConditions OrGroup.shift before text ∧
      EndsAlike andOp (fun _ => id) before text ∧
      EndsAlike orOp (fun _ => id) before text ∧
      EndsAlike condition Condition.shift before text ∧
      EndsAlike rawCondition Condition.shift before text ∧
      EndsAlike quotedString Condition.shift before text :=
  ⟨GrammarRule.andQueries.endsAlike Grammar.shifts_andQueries before text,
    GrammarRule.andQuery.endsAlike Grammar.shifts_andQuery before text,
    GrammarRule.field.endsAlike Grammar.shifts_field before text,
    GrammarRule.multiField.endsAlike Grammar.shifts_multiField before text,
    GrammarRule.identifier.endsAlike Grammar.shifts_identifier before text,
    GrammarRule.andConditions.endsAlike Grammar.shifts_andConditions before
    text, GrammarRule.orConditions.endsAlike Grammar.shifts_orConditions
    before text, GrammarRule.andOp.endsAlike Grammar.shifts_andOp before text,
    GrammarRule.orOp.endsAlike Grammar.shifts_orOp before text,
    GrammarRule.condition.endsAlike Grammar.shifts_condition before text,
    GrammarRule.rawCondition.endsAlike Grammar.shifts_rawCondition before text,
    GrammarRule.quotedString.endsAlike Grammar.shifts_quotedString before text⟩

end TermSearch
