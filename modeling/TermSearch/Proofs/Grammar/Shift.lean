import TermSearch.Proofs.Grammar.Production

namespace TermSearch

/-! Reading does not depend on what stands before the place where it starts.
With so many more bytes there, a rule reads the same from the same text, and
every position that it notes lies so much further on. -/

def Cursor.shift (offset : Nat) (cursor : Cursor) : Cursor :=
  ⟨offset + cursor.position, cursor.rest⟩

def Span.shift (offset : Nat) (span : Span) : Span :=
  ⟨offset + span.start, offset + span.stop⟩

def Condition.shift (offset : Nat) : Condition → Condition
  | .raw text span => .raw text (span.shift offset)
  | .quoted text quote span => .quoted text quote (span.shift offset)

def OrGroup.shift (offset : Nat) (group : OrGroup) : OrGroup :=
  ⟨group.conditions.map (Condition.shift offset), group.span.shift offset⟩

def Conditions.shift (offset : Nat) (conditions : Conditions) : Conditions :=
  ⟨conditions.groups.map (OrGroup.shift offset), conditions.span.shift offset⟩

def FieldName.shift (offset : Nat) (field : FieldName) : FieldName :=
  ⟨field.name, field.span.shift offset⟩

def FieldList.shift (offset : Nat) (list : FieldList) : FieldList :=
  ⟨list.fields.map (FieldName.shift offset), list.span.shift offset⟩

def QueryGroup.shift (offset : Nat) (group : QueryGroup) : QueryGroup :=
  ⟨group.fields.map (FieldList.shift offset), group.conditions.shift offset,
    group.span.shift offset⟩

def SyntaxTree.shift (offset : Nat) (tree : SyntaxTree) : SyntaxTree :=
  ⟨tree.groups.map (QueryGroup.shift offset), tree.span.shift offset⟩

namespace Cursor

theorem after?_ofText_append (before text : String) :
    (ofText (before ++ text)).after? before.toList =
      some ((ofText text).shift (byteSize before.toList)) := by
  rw [after?_eq_some_iff]
  exact ⟨String.toList_append, Nat.add_comm _ _⟩

variable (offset : Nat) (cursor : Cursor)

@[simp] theorem run_shift (allowed : Char → Bool) :
    (cursor.shift offset).run allowed = cursor.run allowed := rfl

@[simp] theorem afterRun_shift (allowed : Char → Bool) :
    (cursor.shift offset).afterRun allowed =
      (cursor.afterRun allowed).shift offset :=
  congrArg (mk · _) (Nat.add_assoc _ _ _)

@[simp] theorem after?_shift (word : List Char) :
    (cursor.shift offset).after? word =
      (cursor.after? word).map (shift offset) := by
  unfold after?
  change (if word.isPrefixOf cursor.rest = true then _ else _) = _
  split
  · exact congrArg some (congrArg (mk · _) (Nat.add_assoc _ _ _))
  · rfl

end Cursor

namespace Rule

/-- Further on in a text the rule reads what it reads at the start of it. -/
def Shifts (rule : Rule α) (shift : Nat → α → α) : Prop :=
  ∀ offset cursor, (rule (cursor.shift offset)).result =
    (rule cursor).result.map fun reading =>
      (shift offset reading.1, reading.2.shift offset)

/-- From the one place the rule reads what it reads from the other, so many
bytes further on, or it fails at both. -/
def ReadsAlike (rule : Rule α) (shift : Nat → α → α) (offset : Nat)
    (place start : Cursor) : Prop :=
  (rule place).result = (rule start).result.map fun reading =>
    (shift offset reading.1, reading.2.shift offset)

variable {shift : Nat → α → α}

namespace Shifts

theorem eq_none {rule : Rule α} (h : rule.Shifts shift) {cursor : Cursor}
    (hnone : (rule cursor).result = none) (offset : Nat) :
    (rule (cursor.shift offset)).result = none := by
  rw [h, hnone, Option.map_none]

theorem eq_some {rule : Rule α} (h : rule.Shifts shift) {cursor stop : Cursor}
    {value : α} (hsome : (rule cursor).result = some (value, stop))
    (offset : Nat) :
    (rule (cursor.shift offset)).result =
      some (shift offset value, stop.shift offset) := by
  rw [h, hsome, Option.map_some]

theorem bind {first : Rule β} {next : Rule α} {before : Nat → β → β}
    (hfirst : first.Shifts before) (hnext : next.Shifts shift) :
    (first >>= fun _ => next).Shifts shift := by
  intro offset cursor
  rw [result_bind, result_bind, hfirst]
  cases (first cursor).result with
  | none => rfl
  | some reading => exact hnext offset reading.2

theorem choice {first second : Rule α} (hfirst : first.Shifts shift)
    (hsecond : second.Shifts shift) : (first <|> second).Shifts shift := by
  intro offset cursor
  rw [result_choice, result_choice, hfirst, hsecond, ← Option.map_or]

theorem literal (word : List Char) (expected : String) :
    (Rule.literal word expected).Shifts fun _ => id := by
  intro offset cursor
  rw [result_literal, result_literal, Cursor.after?_shift]
  cases cursor.after? word <;> rfl

end Shifts

section Rows

variable {item : Rule α} {separator : Rule Unit}

theorem Further.further_shift (hitem : item.Shifts shift)
    (hseparator : separator.Shifts fun _ => id) {cursor stop : Cursor}
    {values : List α} (h : Further item separator cursor values stop)
    (offset : Nat) :
    Further item separator (cursor.shift offset) (values.map (shift offset))
      (stop.shift offset) := by
  induction h with
  | done hnone => exact .done ((hseparator.bind hitem).eq_none hnone offset)
  | more hbetween hvalue _ ih =>
      exact .more (hseparator.eq_some hbetween offset)
        (hitem.eq_some hvalue offset) ih

theorem Shifts.separated
    (htakes : (separator >>= fun _ => item).Takes (· ≠ []))
    (hitem : item.Shifts shift) (hseparator : separator.Shifts fun _ => id) :
    (Rule.separated item separator).Shifts fun offset =>
      List.map (shift offset) := by
  intro offset cursor
  cases hresult : (Rule.separated item separator cursor).result with
  | none =>
      exact separated_eq_none_iff.mpr
        (hitem.eq_none (separated_eq_none_iff.mp hresult) offset)
  | some reading =>
      obtain ⟨value, next, others, hvalue, hothers, hvalues⟩ :=
        (separated_eq_some_iff htakes).mp hresult
      refine (separated_eq_some_iff htakes).mpr
        ⟨shift offset value, next.shift offset,
          others.map (shift offset), hitem.eq_some hvalue offset,
          hothers.further_shift hitem hseparator offset, ?_⟩
      exact congrArg (List.map (shift offset)) hvalues

theorem IsRowOf.shifts {rule : Rule β} {make : List α → Span → β}
    (hrule : rule.IsRowOf make item separator)
    (htakes : (separator >>= fun _ => item).Takes (· ≠ []))
    (hitem : item.Shifts shift) (hseparator : separator.Shifts fun _ => id)
    {shiftRow : Nat → β → β}
    (hmake : ∀ offset values whole, shiftRow offset (make values whole) =
      make (values.map (shift offset)) (whole.shift offset)) :
    rule.Shifts shiftRow := by
  intro offset cursor
  rw [hrule, hrule cursor, hitem.separated htakes hseparator, Option.map_map,
    Option.map_map]
  exact Option.map_congr fun reading _ => by
    simp [hmake, Cursor.shift, Span.shift]

end Rows

end Rule

namespace Grammar

theorem shifts_space : space.Shifts fun _ => id := by
  intro offset cursor
  rw [result_space, result_space, Cursor.run_shift, Cursor.afterRun_shift]
  split <;> rfl

theorem shifts_identifier : identifier.Shifts FieldName.shift := by
  intro offset cursor
  rw [result_identifier, result_identifier, Cursor.run_shift,
    Cursor.afterRun_shift]
  split <;> rfl

theorem shifts_multiField :
    multiField.Shifts fun offset => List.map (FieldName.shift offset) :=
  .separated takes_comma_identifier shifts_identifier (.literal _ _)

theorem shifts_field : field.Shifts FieldList.shift := by
  intro offset cursor
  rw [result_field, result_field, shifts_multiField]
  cases (multiField cursor).result with
  | none => rfl
  | some reading =>
      rw [Option.map_some, Option.bind_some, Option.bind_some,
        Cursor.after?_shift]
      cases reading.2.after? [':'] with
      | none => rfl
      | some colon =>
          simp only [Option.map_some, Cursor.afterRun_shift]
          rfl

theorem result_quotedRest_shift (quote : Char) (closing : String)
    (offset position : Nat) (rest : List Char) :
    (quotedRest quote closing (offset + position) rest).result =
      (quotedRest quote closing position rest).result.map fun reading =>
        (reading.1, reading.2.shift offset) := by
  fun_induction quotedRest quote closing position rest with
  | case1 position => rfl
  | case2 position => rfl
  | case3 position c rest outcome ih =>
      rw [quotedRest, Nat.add_assoc, Nat.add_assoc,
        ← Nat.add_assoc position, ih]
      simp only [Option.map_map]
      rfl
  | case4 position rest hdangling hescape =>
      rw [quotedRest.eq_4 _ _ _ _ _ hdangling hescape, if_pos rfl,
        Nat.add_assoc]
      rfl
  | case5 position c rest hdangling hescape hquote outcome ih =>
      rw [quotedRest.eq_4 _ _ _ _ _ hdangling hescape, if_neg hquote,
        Nat.add_assoc]
      simp only [ih, Option.map_map]
      rfl

theorem shifts_openingQuote : openingQuote.Shifts fun _ => id := by
  intro offset cursor
  rw [result_openingQuote, result_openingQuote, Cursor.after?_shift,
    Cursor.after?_shift]
  cases cursor.after? ['"'] <;> cases cursor.after? ['\''] <;> rfl

theorem shifts_quotedString : quotedString.Shifts Condition.shift := by
  intro offset cursor
  rw [result_quotedString, result_quotedString, shifts_openingQuote]
  cases (openingQuote cursor).result with
  | none => rfl
  | some opening =>
      change Option.map _
        (quotedRest _ _ (offset + opening.2.position) opening.2.rest).result = _
      rw [result_quotedRest_shift]
      simp only [Option.bind_some, Option.map_map]
      rfl

theorem shifts_rawCondition : rawCondition.Shifts Condition.shift := by
  intro offset cursor
  rw [result_rawCondition, result_rawCondition, Cursor.run_shift,
    Cursor.afterRun_shift]
  split <;> rfl

theorem shifts_condition : condition.Shifts Condition.shift := by
  intro offset cursor
  rw [result_condition, result_condition, shifts_quotedString,
    shifts_rawCondition, ← Option.map_or, Option.filter_map]
  rfl

theorem shifts_spacedWord (word : List Char) (expected : String) :
    (do space; Rule.literal word expected; space : Rule Unit).Shifts fun _ =>
      id :=
  shifts_space.bind ((Rule.Shifts.literal word expected).bind shifts_space)

theorem shifts_andOp : andOp.Shifts fun _ => id :=
  shifts_spacedWord reservedWord Expected.andWord

theorem shifts_orOp : orOp.Shifts fun _ => id :=
  (shifts_spacedWord ['o', 'r'] Expected.orWord).choice shifts_space

theorem shifts_orConditions : orConditions.Shifts OrGroup.shift :=
  isRowOf_orConditions.shifts takes_orOp_condition shifts_condition shifts_orOp
    fun _ _ _ => rfl

theorem shifts_andConditions : andConditions.Shifts Conditions.shift :=
  isRowOf_andConditions.shifts takes_andOp_orConditions shifts_orConditions
    shifts_andOp fun _ _ _ => rfl

theorem shifts_andQuery : andQuery.Shifts QueryGroup.shift := by
  intro offset cursor
  rw [result_andQuery, result_andQuery, shifts_field]
  cases (field cursor).result with
  | none =>
      simp only [Option.map_none, shifts_andConditions offset cursor,
        Option.map_map]
      rfl
  | some reading =>
      simp only [Option.map_some, shifts_andConditions offset reading.2,
        Option.map_map]
      rfl

theorem shifts_andQueries : andQueries.Shifts SyntaxTree.shift := by
  have hrow :=
    Rule.Shifts.separated takes_space_andQuery shifts_andQuery shifts_space
  intro offset cursor
  rw [result_andQueries, result_andQueries, hrow]
  cases (Rule.separated andQuery space cursor).result with
  | none => rfl
  | some reading =>
      simp only [Option.map_some, Option.bind_some, Cursor.afterRun_shift]
      change (if (reading.2.afterRun isSpace).rest = [] then _ else _) = _
      split <;> rfl

/-- No rule looks at what stands before the place where it starts. Behind
another text it reads what it reads from the same text alone, and all that
changes is that every span, and the place where it stops, lies further on by the
size of the other text. -/
theorem reads_alike_behind (before text : String) :
    ∃ place,
      (Cursor.ofText (before ++ text)).after? before.toList = some place ∧
      let offset := byteSize before.toList
      let start := Cursor.ofText text
      andQueries.ReadsAlike SyntaxTree.shift offset place start ∧
      andQuery.ReadsAlike QueryGroup.shift offset place start ∧
      field.ReadsAlike FieldList.shift offset place start ∧
      multiField.ReadsAlike (fun offset => List.map (FieldName.shift offset))
        offset place start ∧
      identifier.ReadsAlike FieldName.shift offset place start ∧
      andConditions.ReadsAlike Conditions.shift offset place start ∧
      orConditions.ReadsAlike OrGroup.shift offset place start ∧
      andOp.ReadsAlike (fun _ => id) offset place start ∧
      orOp.ReadsAlike (fun _ => id) offset place start ∧
      condition.ReadsAlike Condition.shift offset place start ∧
      rawCondition.ReadsAlike Condition.shift offset place start ∧
      quotedString.ReadsAlike Condition.shift offset place start := by
  refine ⟨_, Cursor.after?_ofText_append before text, ?_⟩
  exact ⟨shifts_andQueries _ _, shifts_andQuery _ _, shifts_field _ _,
    shifts_multiField _ _, shifts_identifier _ _, shifts_andConditions _ _,
    shifts_orConditions _ _, shifts_andOp _ _, shifts_orOp _ _,
    shifts_condition _ _, shifts_rawCondition _ _, shifts_quotedString _ _⟩

end Grammar

end TermSearch
