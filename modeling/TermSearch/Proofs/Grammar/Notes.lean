import TermSearch.Proofs.Grammar.Attempts

namespace TermSearch

/-! Which rule noted an attempt. The rules that were active are left out of
account; what counts is the position and what was looked for. In a row each note
was made where the row looked for an item or for a separator. -/

namespace Rule

def Notes (rule : Rule α) (such : Nat → String → Prop)
    (start : Cursor) : Prop :=
  ∃ attempt ∈ (rule start).attempts,
    such attempt.position attempt.expectation.expected

section Notes

variable {such : Nat → String → Prop} {start : Cursor}

theorem notes_named {name : String} {rule : Rule α} :
    (rule.named name).Notes such start ↔ rule.Notes such start := by
  simp [Notes, Attempt.within]

theorem notes_spanned {rule : Rule α} :
    rule.spanned.Notes such start ↔ rule.Notes such start :=
  .rfl

theorem notes_missing {expected : String} :
    (missing expected : Rule α).Notes such start ↔
      such start.position expected := by
  simp [Notes]

@[simp] theorem not_notes_pure (value : α) :
    ¬ (pure value : Rule α).Notes such start := by
  simp [Notes]

theorem notes_bind {first : Rule α} {next : α → Rule β} :
    (first >>= next).Notes such start ↔
      first.Notes such start ∨
        ∃ value stop, (first start).result = some (value, stop) ∧
          (next value).Notes such stop := by
  simp only [Notes, mem_attempts_bind, or_and_right, exists_or]
  refine or_congr_right ⟨?_, ?_⟩
  · rintro ⟨attempt, ⟨value, stop, hresult, h⟩, hsuch⟩
    exact ⟨value, stop, hresult, attempt, h, hsuch⟩
  · rintro ⟨value, stop, hresult, attempt, h, hsuch⟩
    exact ⟨attempt, ⟨value, stop, hresult, h⟩, hsuch⟩

theorem notes_choice {first second : Rule α} :
    (first <|> second).Notes such start ↔
      first.Notes such start ∨
        (first start).result = none ∧ second.Notes such start := by
  simp only [Notes, mem_attempts_choice, or_and_right, exists_or, and_assoc,
    exists_and_left]

theorem notes_optional {rule : Rule α} :
    rule.optional.Notes such start ↔ rule.Notes such start := by
  have hmap : (some <$> rule).Notes such start ↔ rule.Notes such start := by
    change (rule >>= fun value => pure (some value)).Notes such start ↔ _
    simp only [notes_bind, not_notes_pure, and_false, exists_false, or_false]
  refine notes_choice.trans ?_
  rw [hmap, or_iff_left]
  exact fun h => not_notes_pure none h.2

end Notes

/-! Attempts of a row. -/

section Rows

variable {item : Rule α} {separator : Rule Unit} {start : Cursor}

inductive ItemStart (item : Rule α) (separator : Rule Unit) (start : Cursor) :
    Cursor → Prop where
  | first : ItemStart item separator start start
  | later {values : List α} {stop place : Cursor}
      (hrow : OpenRow item separator start values stop)
      (hseparator : (separator stop).result = some ((), place)) :
      ItemStart item separator start place

theorem ItemStart.openRow {place stop : Cursor} {value : α}
    (h : ItemStart item separator start place)
    (hitem : (item place).result = some (value, stop)) :
    ∃ values, OpenRow item separator start values stop := by
  cases h with
  | first => exact ⟨_, .first hitem⟩
  | later hrow hseparator =>
      exact ⟨_,
        hrow.concat (by rw [result_bind, hseparator, Option.bind_some, hitem])⟩

theorem attempts_subset_furtherItems
    (htakes : (separator >>= fun _ => item).Takes (· ≠ [])) (cursor : Cursor) :
    ((separator >>= fun _ => item) cursor).attempts ⊆
      (furtherItems item separator cursor).2 := by
  cases hstep : ((separator >>= fun _ => item) cursor).result with
  | none =>
      rw [furtherItems_of_none hstep]
      exact List.Subset.refl _
  | some reading =>
      rw [furtherItems_of_some htakes hstep]
      exact List.subset_append_left _ _

theorem OpenRow.furtherItems_subset
    (htakes : (separator >>= fun _ => item).Takes (· ≠ [])) {values : List α}
    {stop : Cursor} (h : OpenRow item separator start values stop) :
    (furtherItems item separator stop).2 ⊆
      (Rule.separated item separator start).attempts := by
  induction h with
  | first hitem =>
      rw [attempts_separated, hitem]
      exact List.subset_append_right _ _
  | concat _ hstep ih =>
      rw [furtherItems_of_some htakes hstep] at ih
      exact List.Subset.trans (List.subset_append_right _ _) ih

variable {such : Nat → String → Prop}

/-- A row notes what its first item notes, and what is noted in each step from
there. -/
theorem notes_separated
    (htakes : (separator >>= fun _ => item).Takes (· ≠ [])) :
    (Rule.separated item separator).Notes such start ↔
      item.Notes such start ∨
        ∃ values stop, OpenRow item separator start values stop ∧
          (separator >>= fun _ => item).Notes such stop := by
  constructor
  · intro h
    obtain ⟨attempt, hattempt, hsuch⟩ := h
    rcases exists_of_mem_attempts_separated hattempt with
      h | ⟨values, stop, hrow, h⟩
    · exact .inl ⟨attempt, h, hsuch⟩
    · exact .inr ⟨values, stop, hrow, attempt, h, hsuch⟩
  · intro h
    rcases h with ⟨attempt, h, hsuch⟩ | ⟨values, stop, hrow, attempt, h, hsuch⟩
    · refine ⟨attempt, ?_, hsuch⟩
      rw [attempts_separated]
      exact List.mem_append_left _ h
    · exact ⟨attempt, hrow.furtherItems_subset htakes
        (attempts_subset_furtherItems htakes stop h), hsuch⟩

/-- A row always ends with something that it looked for in vain. -/
theorem notes_separated_of_isTraced
    (htakes : (separator >>= fun _ => item).Takes (· ≠ [])) {caller : String}
    (hitem : item.IsTraced caller) (hseparator : separator.IsTraced caller)
    (start : Cursor) :
    (Rule.separated item separator).Notes (fun _ _ => True) start := by
  cases hresult : (Rule.separated item separator start).result with
  | none =>
      obtain ⟨attempt, hattempt⟩ :=
        List.exists_mem_of_ne_nil _
          ((hitem.separated hseparator).explained start hresult)
      exact ⟨attempt, hattempt, trivial⟩
  | some reading =>
      obtain ⟨hrow, hend⟩ := (separated_eq_some_iff_openRow htakes).mp hresult
      obtain ⟨attempt, hattempt⟩ := List.exists_mem_of_ne_nil _
        ((hseparator.bind fun _ => hitem).explained reading.2 hend)
      exact (notes_separated htakes).mpr
        (.inr ⟨reading.1, reading.2, hrow, attempt, hattempt, trivial⟩)

end Rows

def Avoids (rule : Rule α) (expected : String) : Prop :=
  ∀ start, ¬ rule.Notes (fun _ label => label = expected) start

namespace Avoids

variable {expected : String}

theorem not_notes {rule : Rule α} (h : rule.Avoids expected)
    {such : Nat → String → Prop}
    (hsuch : ∀ position label, such position label → label = expected)
    {start : Cursor} : ¬ rule.Notes such start := by
  rintro ⟨attempt, hattempt, hlabel⟩
  exact h start ⟨attempt, hattempt, hsuch _ _ hlabel⟩

theorem of_attempts_nil {rule : Rule α}
    (h : ∀ start, (rule start).attempts = []) : rule.Avoids expected := by
  rintro start ⟨attempt, hattempt, -⟩
  rw [h start] at hattempt
  cases hattempt

protected theorem pure (value : α) : (pure value : Rule α).Avoids expected :=
  of_attempts_nil fun _ => rfl

theorem upcoming : Rule.upcoming.Avoids expected :=
  of_attempts_nil fun _ => rfl

theorem run (allowed : Char → Bool) : (Rule.run allowed).Avoids expected :=
  of_attempts_nil fun _ => rfl

theorem missing {label : String} (h : label ≠ expected) :
    (Rule.missing label : Rule α).Avoids expected :=
  fun _ hnotes => h (notes_missing.mp hnotes)

theorem literal (word : List Char) {label : String} (h : label ≠ expected) :
    (Rule.literal word label).Avoids expected := by
  rintro start ⟨attempt, hattempt, hlabel⟩
  obtain ⟨-, rfl⟩ := mem_attempts_literal.mp hattempt
  exact h hlabel

theorem bind {first : Rule α} {next : α → Rule β}
    (hfirst : first.Avoids expected)
    (hnext : ∀ value, (next value).Avoids expected) :
    (first >>= next).Avoids expected := by
  intro start hnotes
  rcases notes_bind.mp hnotes with h | ⟨value, stop, -, h⟩
  · exact hfirst start h
  · exact hnext value stop h

theorem choice {first second : Rule α} (hfirst : first.Avoids expected)
    (hsecond : second.Avoids expected) :
    (first <|> second).Avoids expected := by
  intro start hnotes
  rcases notes_choice.mp hnotes with h | ⟨-, h⟩
  · exact hfirst start h
  · exact hsecond start h

theorem named {name : String} {rule : Rule α} (h : rule.Avoids expected) :
    (rule.named name).Avoids expected :=
  fun start hnotes => h start (notes_named.mp hnotes)

theorem spanned {rule : Rule α} (h : rule.Avoids expected) :
    rule.spanned.Avoids expected := h

protected theorem ite {condition : Prop} [Decidable condition]
    {first second : Rule α} (hfirst : first.Avoids expected)
    (hsecond : second.Avoids expected) :
    (if condition then first else second).Avoids expected := by
  split
  · exact hfirst
  · exact hsecond

protected theorem optional {rule : Rule α} (h : rule.Avoids expected) :
    rule.optional.Avoids expected :=
  fun start hnotes => h start (notes_optional.mp hnotes)

theorem separated {item : Rule α} {separator : Rule Unit}
    (htakes : (separator >>= fun _ => item).Takes (· ≠ []))
    (hitem : item.Avoids expected) (hseparator : separator.Avoids expected) :
    (Rule.separated item separator).Avoids expected := by
  intro start hnotes
  rcases (notes_separated htakes).mp hnotes with h | ⟨values, stop, -, h⟩
  · exact hitem start h
  · exact (hseparator.bind fun _ => hitem) stop h

theorem exists_itemStart {item : Rule α} {separator : Rule Unit}
    (htakes : (separator >>= fun _ => item).Takes (· ≠ []))
    (hseparator : separator.Avoids expected) {such : Nat → String → Prop}
    (hsuch : ∀ position label, such position label → label = expected)
    {start : Cursor} (h : (Rule.separated item separator).Notes such start) :
    ∃ place, ItemStart item separator start place ∧ item.Notes such place := by
  rcases (notes_separated htakes).mp h with h | ⟨values, stop, hrow, h⟩
  · exact ⟨start, .first, h⟩
  · rcases notes_bind.mp h with h | ⟨_, place, hplace, h⟩
    · exact absurd h (hseparator.not_notes hsuch)
    · exact ⟨place, .later hrow hplace, h⟩

end Avoids

end Rule

end TermSearch
