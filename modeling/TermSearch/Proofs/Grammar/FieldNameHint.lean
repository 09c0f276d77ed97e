import Mathlib.Data.List.DropRight
import TermSearch.Proofs.Grammar.Furthest
import TermSearch.Proofs.Grammar.GroupStart
import TermSearch.Proofs.Grammar.Notes

namespace TermSearch

/-! When the hint on field names is given. It is given where a condition runs
into a colon, since the text before the colon is then thought to be no list of
field names. Where a group can start this is so. After `and`, and after fields
with their colon, no group can start and the text may well be a list of field
names. -/

def IsFieldNames (text : List Char) : Prop :=
  ∃ names : List String, names ≠ [] ∧
    (∀ name ∈ names, isIdentifier name = true) ∧
    text = (",".intercalate names).toList

def IsFieldPrefix (text : List Char) : Prop :=
  ∃ names gap, IsFieldNames names ∧ (∀ c ∈ gap, isSpace c = true) ∧
    text = names ++ ':' :: gap

/-- The text between the position and the space, the colon or the start before
it. -/
def SyntaxError.blamed (error : SyntaxError) : List Char :=
  error.before.rtakeWhile isTermChar

/-- The input before that text. -/
def SyntaxError.context (error : SyntaxError) : List Char :=
  error.before.rdropWhile isTermChar

section Suffix

variable {front text : List α} {p : α → Bool}

theorem rtakeWhile_append_of_pos (htext : ∀ c ∈ text, p c = true)
    (hfront : ∀ c ∈ front.getLast?, p c = false) :
    (front ++ text).rtakeWhile p = text := by
  have hstop : front.reverse.takeWhile p = [] := by
    rw [← List.head?_reverse] at hfront
    cases hreverse : front.reverse with
    | nil => rfl
    | cons c more => simp [hfront c (by simp [hreverse])]
  rw [List.rtakeWhile, List.reverse_append, List.takeWhile_append_of_pos
    (by simpa using htext), hstop, List.append_nil, List.reverse_reverse]

theorem rdropWhile_append_of_pos (htext : ∀ c ∈ text, p c = true)
    (hfront : ∀ c ∈ front.getLast?, p c = false) :
    (front ++ text).rdropWhile p = front := by
  have h := List.rdropWhile_append_rtakeWhile (p := p) (l := front ++ text)
  rw [rtakeWhile_append_of_pos htext hfront] at h
  exact List.append_cancel_right h

end Suffix

namespace IsFieldNames

theorem exists_fields {names : List Char} (h : IsFieldNames names)
    (more : List Char) :
    ∃ (fields : Written.Fields) (rest : List Char),
      names ++ ':' :: more = fields.render ++ rest ∧
        Written.IsSolid rest ∧
        fields.renderNames = names := by
  obtain ⟨list, hne, hlist, rfl⟩ := h
  let gap : Written.Gap :=
    ⟨more.takeWhile isSpace, List.all_eq_true.mp List.all_takeWhile⟩
  obtain ⟨fields, -, hnames, hgap⟩ :=
    Written.Fields.exists_of_names hne hlist gap
  have hrest : Written.IsSolid (more.dropWhile isSpace) := by
    intro c hc
    have hhead := List.head?_dropWhile_not isSpace more
    rwa [show (more.dropWhile isSpace).head? = some c from hc] at hhead
  refine ⟨fields, more.dropWhile isSpace, ?_, hrest, ?_⟩
  · rw [Written.Fields.render_append, hnames, hgap,
      List.takeWhile_append_dropWhile]
  · exact hnames

end IsFieldNames

namespace Grammar

theorem avoids_space : space.Avoids Expected.noColon :=
  .bind (.run isSpace) fun _ => .ite (.missing (by decide)) (.pure ())

theorem avoids_identifier : identifier.Avoids Expected.noColon :=
  .bind (.spanned (.run isIdentifierChar)) fun _ =>
    .ite (.missing (by decide)) (.pure _)

theorem avoids_multiField : multiField.Avoids Expected.noColon :=
  .named (.separated takes_comma_identifier avoids_identifier
    (.literal _ (by decide)))

theorem avoids_field : field.Avoids Expected.noColon := by
  have hnames : Rule.Avoids (do
      let fields ← multiField
      Rule.literal [':'] Expected.colon
      pure fields) Expected.noColon :=
    .bind avoids_multiField fun _ =>
      .bind (.literal _ (by decide)) fun _ => .pure _
  exact .named
    (.bind hnames.spanned fun _ => .bind avoids_space.optional fun _ => .pure _)

theorem avoids_openingQuote : openingQuote.Avoids Expected.noColon :=
  .choice (.bind (.literal _ (by decide)) fun _ => .pure _)
    (.bind (.literal _ (by decide)) fun _ => .pure _)

theorem expected_of_mem_quotedRest {quote : Char} {closing : String}
    {position : Nat} {rest : List Char} {attempt : Attempt}
    (h : attempt ∈ (quotedRest quote closing position rest).attempts) :
    attempt.expectation.expected = closing ∨
      attempt.expectation.expected = Expected.escapedCharacter := by
  fun_induction quotedRest quote closing position rest with
  | case1 position => exact .inl (by rw [List.mem_singleton.mp h])
  | case2 position => exact .inr (by rw [List.mem_singleton.mp h])
  | case3 position c rest outcome ih => exact ih h
  | case4 => cases h
  | case5 position c rest _ _ _ outcome ih => exact ih h

theorem avoids_quotedString : quotedString.Avoids Expected.noColon := by
  refine .named (.bind (.spanned ?_) fun _ => .pure _)
  intro start hnotes
  rcases Rule.notes_bind.mp hnotes with h | ⟨opening, stop, hopening, h⟩
  · exact avoids_openingQuote start h
  rcases Rule.notes_bind.mp h with
    ⟨attempt, hattempt, hlabel⟩ | ⟨text, next, -, h⟩
  · rcases expected_of_mem_quotedRest hattempt with h | h
    · rw [hlabel] at h
      obtain ⟨rfl | rfl, -⟩ := openingQuote_eq_some_iff.mp hopening
      · exact absurd h (by decide)
      · exact absurd h (by decide)
    · exact absurd (h.symm.trans hlabel) (by decide)
  · exact Rule.Avoids.pure _ next h

theorem avoids_rawCondition : rawCondition.Avoids Expected.noColon :=
  .named (.bind .upcoming fun _ => .ite (.missing (by decide))
    (.bind (.spanned (.run isTermChar)) fun _ => .pure _))

theorem avoids_spacedWord (word : List Char) {expected : String}
    (h : expected ≠ Expected.noColon) :
    (do space; Rule.literal word expected; space : Rule Unit).Avoids
      Expected.noColon :=
  .bind avoids_space fun _ => .bind (.literal word h) fun _ => avoids_space

theorem avoids_orOp : orOp.Avoids Expected.noColon :=
  .named (.choice (avoids_spacedWord _ (by decide)) avoids_space)

theorem avoids_andOp : andOp.Avoids Expected.noColon :=
  .named (avoids_spacedWord _ (by decide))

theorem avoids_endOfInput : endOfInput.Avoids Expected.noColon :=
  .bind .upcoming fun _ => .ite (.pure ()) (.missing (by decide))

/-! Where a condition runs into a colon. -/

def ColonAt (place position : Nat) (label : String) : Prop :=
  position = place ∧ label = Expected.noColon

theorem label_of_colonAt {place : Nat} :
    ∀ position label, ColonAt place position label → label = Expected.noColon :=
  fun _ _ h => h.2

variable {place : Nat} {start : Cursor}

theorem exists_reads_of_notes_condition
    (h : condition.Notes (ColonAt place) start) :
    ∃ text stop, start.Reads text stop ∧
      stop.position = place ∧
      stop.rest.head? = some ':' ∧
      ((∀ c ∈ text, isTermChar c = true) ∨
        ∃ body quote, IsQuote quote ∧ text = body ++ [quote]) := by
  unfold condition at h
  rw [Rule.notes_named, Rule.notes_bind] at h
  rcases h with h | ⟨condition, stop, hresult, h⟩
  · exact absurd h ((avoids_quotedString.choice avoids_rawCondition).not_notes
      label_of_colonAt)
  rcases Rule.notes_bind.mp h with h | ⟨rest, next, hupcoming, h⟩
  · exact absurd h (Rule.Avoids.upcoming.not_notes label_of_colonAt)
  cases hupcoming
  split at h
  · rename_i hcolon
    obtain ⟨hplace, -⟩ := Rule.notes_missing.mp h
    rw [Rule.result_choice, Option.or_eq_some_iff] at hresult
    rcases hresult with hquoted | ⟨-, hraw⟩
    · obtain ⟨quote, body, text, hquote, -, hreads, -⟩ :=
        quotedString_eq_some_iff.mp hquoted
      refine ⟨_, stop, hreads, hplace, hcolon,
        .inr ⟨[quote] ++ body, quote, hquote, ?_⟩⟩
      rw [List.append_assoc]
    · obtain ⟨-, -, rfl, -⟩ := rawCondition_eq_some_iff.mp hraw
      exact ⟨_, _, .afterRun start isTermChar, hplace, hcolon,
        .inl (start.all_run isTermChar)⟩
  · exact absurd h ((Rule.Avoids.pure condition).not_notes label_of_colonAt)

def StartsConditions (group first : Cursor) : Prop :=
  (field group).result = none ∧ first = group ∨
    ∃ list, (field group).result = some (list, first)

theorem exists_itemStart_of_notes (name : String)
    (make : List α → Span → β) {item : Rule α} {separator : Rule Unit}
    (hseparator : separator.Avoids Expected.noColon)
    (htakes : (separator >>= fun _ => item).Takes (· ≠ []))
    (h :
      (Rule.named name do
        let (values, span) ← Rule.spanned (Rule.separated item separator)
        pure (make values span)).Notes (ColonAt place) start) :
    ∃ site, Rule.ItemStart item separator start site ∧
      item.Notes (ColonAt place) site := by
  rw [Rule.notes_named, Rule.notes_bind] at h
  rcases h with h | ⟨_, next, -, h⟩
  · exact hseparator.exists_itemStart htakes label_of_colonAt h
  · exact absurd h ((Rule.Avoids.pure _).not_notes label_of_colonAt)

theorem exists_condition_of_notes_orConditions
    (h : orConditions.Notes (ColonAt place) start) :
    ∃ site, Rule.ItemStart condition orOp start site ∧
      condition.Notes (ColonAt place) site :=
  exists_itemStart_of_notes "or_conditions" OrGroup.mk avoids_orOp
    takes_orOp_condition h

theorem exists_orConditions_of_notes_andConditions
    (h : andConditions.Notes (ColonAt place) start) :
    ∃ row, Rule.ItemStart orConditions andOp start row ∧
      orConditions.Notes (ColonAt place) row :=
  exists_itemStart_of_notes "and_conditions" Conditions.mk avoids_andOp
    takes_andOp_orConditions h

theorem startsConditions_iff {group first : Cursor} :
    (∃ fields, (field.optional group).result = some (fields, first)) ↔
      StartsConditions group first := by
  rw [Rule.result_optional]
  cases hfield : (field group).result with
  | none => simp [StartsConditions, hfield, eq_comm]
  | some reading =>
      obtain ⟨list, next⟩ := reading
      simp [StartsConditions, hfield]

theorem notes_andQuery_iff {such : Nat → String → Prop} :
    andQuery.Notes such start ↔
      field.Notes such start ∨
        ∃ first, StartsConditions start first ∧
          andConditions.Notes such first := by
  unfold andQuery
  simp only [Rule.notes_named, Rule.notes_bind, Rule.notes_spanned,
    Rule.notes_optional, Rule.not_notes_pure, and_false, exists_false, or_false,
    ← startsConditions_iff]
  refine or_congr_right ⟨?_, ?_⟩
  · rintro ⟨fields, first, hfields, h⟩
    exact ⟨first, ⟨fields, hfields⟩, h⟩
  · rintro ⟨first, ⟨fields, hfields⟩, h⟩
    exact ⟨fields, first, hfields, h⟩

theorem exists_andQuery_of_notes_andQueries
    (h : andQueries.Notes (ColonAt place) start) :
    ∃ group, Rule.ItemStart andQuery space start group ∧
      andQuery.Notes (ColonAt place) group := by
  unfold andQueries at h
  rw [Rule.notes_named, Rule.notes_bind] at h
  rcases h with h | ⟨_, next, -, h⟩
  · exact avoids_space.exists_itemStart takes_space_andQuery label_of_colonAt h
  · rcases Rule.notes_bind.mp h with h | ⟨_, last, -, h⟩
    · exact absurd h (avoids_space.optional.not_notes label_of_colonAt)
    · exact absurd h
        ((avoids_endOfInput.bind fun _ => .pure _).not_notes label_of_colonAt)

theorem notes_andQueries_of_row {such : Nat → String → Prop}
    {groups : List QueryGroup} {stop : Cursor}
    (hrow : Rule.OpenRow andQuery space start groups stop)
    (h : (space >>= fun _ => andQuery).Notes such stop) :
    andQueries.Notes such start := by
  unfold andQueries
  rw [Rule.notes_named, Rule.notes_bind]
  exact .inl ((Rule.notes_separated takes_space_andQuery).mpr
    (.inr ⟨groups, stop, hrow, h⟩))

theorem notes_andConditions (start : Cursor) :
    andConditions.Notes (fun position _ => start.position ≤ position)
      start := by
  obtain ⟨attempt, hattempt, -⟩ :=
    Rule.notes_separated_of_isTraced takes_andOp_orConditions
      isTraced_orConditions isTraced_andOp start
  obtain ⟨text, site, hreads, hposition⟩ :=
    (isTraced_orConditions.separated isTraced_andOp).ahead start
      attempt hattempt
  unfold andConditions
  rw [Rule.notes_named, Rule.notes_bind]
  refine .inl ⟨attempt, hattempt, ?_⟩
  rw [← hposition, hreads.position]
  exact Nat.le_add_right _ _

end Grammar

/-! Where a group can start, a list of field names before a colon is read as its
fields, so something further on is looked for. -/

section Readable

open Grammar

variable {names : List Char} {start : Cursor}

theorem IsFieldNames.isNames (h : IsFieldNames names) : IsNames names := by
  obtain ⟨fields, -, -, -, rfl⟩ := h.exists_fields []
  exact fields.isNames_renderNames

theorem IsFieldNames.field (h : IsFieldNames names) (position : Nat)
    (more : List Char) :
    ∃ list stop,
      (Grammar.field ⟨position, names ++ ':' :: more⟩).result =
          some (list, stop) ∧
        position + byteSize names < stop.position := by
  obtain ⟨fields, rest, happend, hrest, hnames⟩ := h.exists_fields more
  obtain ⟨list, hlist, -⟩ := fields.readsAs hrest position
  rw [← happend] at hlist
  refine ⟨list, _, hlist, ?_⟩
  have hcolon : byteSize fields.render =
      byteSize names + (1 + byteSize fields.gap.text) := by
    rw [Written.Fields.render, hnames, byteSize_append, byteSize_append]
    rfl
  change position + byteSize names < position + byteSize fields.render
  omega

theorem IsFieldNames.closesRequirements_of_blank (h : IsFieldNames names)
    {blank : List Char} (hblank : IsBlank blank) (more : List Char) :
    Written.ClosesRequirements (blank ++ (names ++ ':' :: more)) := by
  obtain ⟨fields, rest, happend, -, -⟩ := h.exists_fields more
  rw [happend]
  exact Written.closesRequirements_of_fields ⟨blank, hblank⟩ fields rest

theorem IsFieldNames.isSolid_append (h : IsFieldNames names)
    (more : List Char) : Written.IsSolid (names ++ ':' :: more) := by
  obtain ⟨fields, rest, happend, -, -⟩ := h.exists_fields more
  rw [happend]
  exact fields.isSolid_render_append rest

theorem IsFieldNames.notes_beyond_of_blank (h : IsFieldNames names)
    {groups : List QueryGroup} {stop : Cursor}
    (hrow : Rule.OpenRow andQuery space start groups stop)
    {blank more : List Char} (hblank : IsBlank blank)
    (hrest : stop.rest = blank ++ (names ++ ':' :: more)) :
    andQueries.Notes
      (fun position _ => stop.position + byteSize (blank ++ names) < position)
      start := by
  obtain ⟨_, hspace, -⟩ :=
    Written.space_readsAs hblank (h.isSolid_append more) stop.position
  rw [← hrest] at hspace
  obtain ⟨list, first, hfield, hbeyond⟩ :=
    h.field (stop.position + byteSize blank) more
  refine notes_andQueries_of_row hrow
    (Rule.notes_bind.mpr (.inr ⟨_, _, hspace, ?_⟩))
  refine notes_andQuery_iff.mpr (.inr ⟨first, .inr ⟨list, hfield⟩, ?_⟩)
  obtain ⟨attempt, hattempt, hposition⟩ := notes_andConditions first
  refine ⟨attempt, hattempt, ?_⟩
  rw [byteSize_append, ← Nat.add_assoc]
  exact Nat.lt_of_lt_of_le hbeyond hposition

/-- A group ends where nothing can be joined to its last condition. -/
theorem openRow_of_closesRequirements {group first row stop : Cursor}
    {conditions : List Condition}
    (hgroup : Rule.ItemStart andQuery space start group)
    (hfirst : StartsConditions group first)
    (hrow : Rule.ItemStart orConditions andOp first row)
    (hconditions : Rule.OpenRow condition orOp row conditions stop)
    (hcloses : Written.ClosesRequirements stop.rest) :
    ∃ groups, Rule.OpenRow andQuery space start groups stop := by
  have horConditions : (orConditions row).result =
      some (⟨conditions, ⟨row.position, stop.position⟩⟩, stop) :=
    orConditions_eq_some_iff.mpr
      ⟨⟨hconditions, hcloses.closesAlternatives.refuses stop.position⟩, rfl⟩
  obtain ⟨orGroups, hopen⟩ := hrow.openRow horConditions
  have handConditions : (andConditions first).result =
      some (⟨orGroups, ⟨first.position, stop.position⟩⟩, stop) :=
    andConditions_eq_some_iff.mpr ⟨⟨hopen, hcloses.refuses stop.position⟩, rfl⟩
  rcases hfirst with ⟨hnone, rfl⟩ | ⟨list, hfield⟩
  · have hresult : (andQuery first).result = some (⟨none, _, ⟨_, _⟩⟩, stop) :=
      andQuery_eq_some_iff.mpr ⟨rfl, .inr ⟨hnone, rfl, handConditions⟩⟩
    exact hgroup.openRow hresult
  · have hresult :
        (andQuery group).result = some (⟨some list, _, ⟨_, _⟩⟩, stop) :=
      andQuery_eq_some_iff.mpr
        ⟨rfl, .inl ⟨list, first, hfield, rfl, handConditions⟩⟩
    exact hgroup.openRow hresult

/-- What may stand between two conditions does not join names before a colon. -/
theorem IsFieldNames.closesRequirements (h : IsFieldNames names)
    {between : List Char} (hbetween : IsOrSeparator between)
    (more : List Char) :
    Written.ClosesRequirements (between ++ (names ++ ':' :: more)) := by
  rcases hbetween with ⟨before, after, hbefore, hafter, rfl⟩ | hblank
  · have hword :
        Written.IsSolid (['o', 'r'] ++ (after ++ (names ++ ':' :: more))) := by
      simp [Written.IsSolid, isSpace]
    refine ⟨⟨?_, ?_⟩, ?_⟩
    · rw [List.append_assoc, List.append_assoc]
      exact Written.isBoundary_append_of_isBlank hbefore _
    · rw [List.append_assoc before]
      exact (Written.orOp_readsAs_word hbefore hafter
        (h.isSolid_append more)).bind_refuses
        (Written.condition_refuses_names h.isNames more)
    · rw [List.append_assoc, List.append_assoc]
      refine (Written.andOp_refuses hbefore hword ?_).bind
      rintro ⟨c, rest, happend, -⟩
      cases congrArg List.head? happend
  · exact h.closesRequirements_of_blank hblank more

/-- Names after the word `or` are read as well, and the word is then a group of
its own. -/
theorem IsFieldNames.notes_beyond (h : IsFieldNames names)
    {groups : List QueryGroup} {stop : Cursor}
    (hrow : Rule.OpenRow andQuery space start groups stop)
    {between more : List Char} (hbetween : IsOrSeparator between)
    (hrest : stop.rest = between ++ (names ++ ':' :: more)) :
    andQueries.Notes
      (fun position _ => stop.position + byteSize (between ++ names) < position)
      start := by
  rcases hbetween with ⟨before, after, hbefore, hafter, rfl⟩ | hblank
  · have hrest' : stop.rest =
        before ++ (['o', 'r'] ++ (after ++ (names ++ ':' :: more))) := by
      rw [hrest, List.append_assoc, List.append_assoc]
    have hboundary :=
      Written.isBoundary_append_of_isBlank hafter (names ++ ':' :: more)
    obtain ⟨_, hspace, -⟩ := Written.space_readsAs hbefore (show Written.IsSolid
      (['o', 'r'] ++ _) by simp [Written.IsSolid, isSpace]) stop.position
    rw [← hrest'] at hspace
    have hcondition :=
      condition_of_or hboundary (stop.position + byteSize before)
    have hfield := Written.field_refuses_of_ne (fun _ hnames rest =>
        Written.append_ne_names isTermChar_or hboundary hnames rest)
      (stop.position + byteSize before)
    obtain ⟨groups', hrow'⟩ :=
      openRow_of_closesRequirements (.later hrow hspace)
        (.inl ⟨hfield, rfl⟩) .first (.first hcondition)
        (h.closesRequirements_of_blank hafter more)
    obtain ⟨attempt, hattempt, hbeyond⟩ :=
      h.notes_beyond_of_blank hrow' hafter rfl
    refine ⟨attempt, hattempt, ?_⟩
    simp only [byteSize_append] at hbeyond ⊢
    have hor : byteSize ['o', 'r'] = 2 := rfl
    omega
  · exact h.notes_beyond_of_blank hrow hblank hrest

end Readable

/-! What stands before a condition. -/

def EndsIn (form : List Char → Prop) (text : List Char) : Prop :=
  ∃ last, form last ∧ last <:+ text

def EndsOutsideTerm (text : List Char) : Prop :=
  ∀ c ∈ text.getLast?, isTermChar c = false

def ClosesTerm (form : List Char → Prop) : Prop :=
  ∀ text, form text → text ≠ [] ∧ EndsOutsideTerm text

theorem EndsOutsideTerm.append {last : List Char} (h : EndsOutsideTerm last)
    (hne : last ≠ []) (earlier : List Char) :
    EndsOutsideTerm (earlier ++ last) := by
  unfold EndsOutsideTerm
  rw [List.getLast?_append_of_ne_nil _ hne]
  exact h

theorem ClosesTerm.endsOutsideTerm {form : List Char → Prop}
    (hform : ClosesTerm form) {text : List Char} (h : EndsIn form text) :
    EndsOutsideTerm text := by
  obtain ⟨last, hlast, earlier, rfl⟩ := h
  obtain ⟨hne, hends⟩ := hform last hlast
  exact hends.append hne earlier

theorem closesTerm_isBlank : ClosesTerm IsBlank :=
  fun _ h => ⟨h.1, fun c hc =>
    isTermChar_eq_false_of_isSpace (h.2 c (List.mem_of_getLast? hc))⟩

theorem closesTerm_isSpacedWord (word : List Char) :
    ClosesTerm (IsSpacedWord word) := by
  intro text h
  obtain ⟨before, after, -, hafter, rfl⟩ := h
  have hends : EndsIn IsBlank (before ++ word ++ after) :=
    ⟨after, hafter, List.suffix_append _ _⟩
  exact ⟨by simp [hafter.1], closesTerm_isBlank.endsOutsideTerm hends⟩

theorem closesTerm_isOrSeparator : ClosesTerm IsOrSeparator :=
  fun text h =>
    h.elim (closesTerm_isSpacedWord _ text) (closesTerm_isBlank text)

theorem closesTerm_isFieldPrefix : ClosesTerm IsFieldPrefix := by
  intro text h
  obtain ⟨names, gap, -, hgap, rfl⟩ := h
  have hcolon : EndsOutsideTerm (':' :: gap) := by
    intro c hc
    rcases List.mem_cons.mp (List.mem_of_getLast? hc) with rfl | hmem
    · decide
    · exact isTermChar_eq_false_of_isSpace (hgap c hmem)
  exact ⟨by simp, hcolon.append (by simp) names⟩

namespace Grammar

theorem takes_identifier_isIdentifier {start stop : Cursor}
    {field : FieldName} (h : (identifier start).result = some (field, stop)) :
    ∃ name : String, isIdentifier name = true ∧
      start.Reads name.toList stop := by
  obtain ⟨hrun, rfl, -⟩ := identifier_eq_some_iff.mp h
  refine ⟨String.ofList (start.run isIdentifierChar), ?_, ?_⟩
  · simpa [isIdentifier, hrun] using start.all_run isIdentifierChar
  · rw [String.toList_ofList]
    exact .afterRun start isIdentifierChar

theorem isFieldNames_of_further {start cursor stop : Cursor} {name : String}
    {others : List FieldName} (hname : isIdentifier name = true)
    (hreads : start.Reads name.toList cursor)
    (h : Rule.Further identifier (Rule.literal [','] Expected.comma) cursor
      others stop) :
    ∃ names : List String,
      (∀ other ∈ name :: names, isIdentifier other = true) ∧
        start.Reads (",".intercalate (name :: names)).toList stop := by
  induction h generalizing start name with
  | done => exact ⟨[], by simpa using hname, by simpa using hreads⟩
  | more hcomma hidentifier _ ih =>
      obtain ⟨_, rfl, hcommaReads⟩ := Rule.Takes.literal _ _ hcomma
      obtain ⟨other, hother, hotherReads⟩ :=
        takes_identifier_isIdentifier hidentifier
      obtain ⟨names, hnames, hstop⟩ := ih hother hotherReads
      refine ⟨other :: names, List.forall_mem_cons.mpr ⟨hname, hnames⟩, ?_⟩
      have hall := (hreads.trans hcommaReads).trans hstop
      rw [String.intercalate_cons_cons]
      simpa using hall

theorem takes_multiField_isFieldNames : multiField.Takes IsFieldNames := by
  intro start fields stop hresult
  obtain ⟨first, next, others, hfirst, hothers, -⟩ :=
    (Rule.separated_eq_some_iff takes_comma_identifier).mp hresult
  obtain ⟨name, hname, hreads⟩ := takes_identifier_isIdentifier hfirst
  obtain ⟨names, hnames, hall⟩ := isFieldNames_of_further hname hreads hothers
  exact ⟨_, ⟨name :: names, List.cons_ne_nil name names, hnames, rfl⟩, hall⟩

theorem takes_field_isFieldPrefix : field.Takes IsFieldPrefix := by
  intro start list stop hresult
  obtain ⟨fields, next, colon, hfields, hcolon, rfl, -⟩ :=
    field_eq_some_iff.mp hresult
  obtain ⟨names, hnames, hreads⟩ := takes_multiField_isFieldNames hfields
  refine ⟨names ++ ':' :: colon.run isSpace,
    ⟨names, _, hnames, colon.all_run isSpace, rfl⟩, ?_⟩
  have hall := (hreads.trans hcolon).trans (.afterRun colon isSpace)
  rwa [List.append_assoc] at hall

/-- A condition is looked for at the start of a group without fields, after the
fields of a group, after `and`, or behind another condition. In the last case
the group ends at that condition if nothing can be joined there. -/
inductive ConditionStart (start : Cursor) (front : List Char)
    (site : Cursor) : Prop where
  | group (hfield : (field site).result = none)
  | fields (h : EndsIn IsFieldPrefix front)
  | conjunction (h : EndsIn IsAndSeparator front)
  | row {stop : Cursor} {between : List Char} (hbetween : IsOrSeparator between)
      (hreads : stop.Reads between site)
      (hends : Written.ClosesRequirements stop.rest →
        ∃ groups, Rule.OpenRow andQuery space start groups stop)

theorem eq_or_endsIn_of_itemStart {item : Rule α} {separator : Rule Unit}
    {form other : List Char → Prop} (hitem : item.Takes other)
    (hseparator : separator.Takes form) {start middle place : Cursor}
    {front : List Char} (hfront : start.Reads front middle)
    (h : Rule.ItemStart item separator middle place) :
    place = middle ∨ ∃ front, start.Reads front place ∧ EndsIn form front := by
  cases h with
  | first => exact .inl rfl
  | later hrow hbetween =>
      have hstep : (separator >>= fun _ => item).Takes fun _ => True :=
        (hseparator.bind fun _ => hitem).mono fun _ _ => trivial
      obtain ⟨earlier, hearlier⟩ := hrow.exists_reads hitem hstep
      obtain ⟨between, hform, hreads⟩ := hseparator hbetween
      exact .inr ⟨_, (hfront.trans hearlier).trans hreads, between, hform,
        List.suffix_append _ _⟩

variable {place : Nat} {start : Cursor}

theorem exists_conditionStart (h : andQueries.Notes (ColonAt place) start) :
    ∃ front site, start.Reads front site ∧
      EndsOutsideTerm front ∧
      ConditionStart start front site ∧
      condition.Notes (ColonAt place) site := by
  obtain ⟨group, hgroup, h⟩ := exists_andQuery_of_notes_andQueries h
  rcases notes_andQuery_iff.mp h with h | ⟨first, hfirst, h⟩
  · exact absurd h (avoids_field.not_notes label_of_colonAt)
  obtain ⟨row, hrow, h⟩ := exists_orConditions_of_notes_andConditions h
  obtain ⟨site, hsite, h⟩ := exists_condition_of_notes_orConditions h
  have hgroupFront :
      ∃ front, start.Reads front group ∧ EndsOutsideTerm front := by
    rcases eq_or_endsIn_of_itemStart takes_andQuery takes_space
      (.refl start) hgroup with
      rfl | ⟨front, hreads, hends⟩
    · exact ⟨[], .refl _, by simp [EndsOutsideTerm]⟩
    · exact ⟨front, hreads, closesTerm_isBlank.endsOutsideTerm hends⟩
  have hfirstFront : ∃ front, start.Reads front first ∧ EndsOutsideTerm front ∧
      ConditionStart start front first := by
    obtain ⟨front, hreads, hends⟩ := hgroupFront
    rcases hfirst with ⟨hnone, rfl⟩ | ⟨list, hfield⟩
    · exact ⟨front, hreads, hends, .group hnone⟩
    · obtain ⟨text, htext, hfieldReads⟩ := takes_field_isFieldPrefix hfield
      have hlast : EndsIn IsFieldPrefix (front ++ text) :=
        ⟨text, htext, List.suffix_append _ _⟩
      exact ⟨_, hreads.trans hfieldReads,
        closesTerm_isFieldPrefix.endsOutsideTerm hlast, .fields hlast⟩
  have hrowFront : ∃ front, start.Reads front row ∧ EndsOutsideTerm front ∧
      ConditionStart start front row := by
    obtain ⟨front, hreads, houtside, horigin⟩ := hfirstFront
    rcases eq_or_endsIn_of_itemStart takes_orConditions takes_andOp
      hreads hrow with
      rfl | ⟨front, hreads, hends⟩
    · exact ⟨front, hreads, houtside, horigin⟩
    · exact ⟨front, hreads, (closesTerm_isSpacedWord _).endsOutsideTerm hends,
        .conjunction hends⟩
  obtain ⟨front, hreads, houtside, horigin⟩ := hrowFront
  cases hsite with
  | first => exact ⟨front, row, hreads, houtside, horigin, h⟩
  | later hconditions hjoin =>
      obtain ⟨earlier, hearlier⟩ :=
        hconditions.exists_reads takes_condition takes_orOp_condition
      obtain ⟨between, hbetween, hbetweenReads⟩ := takes_orOp hjoin
      refine ⟨_, site, (hreads.trans hearlier).trans hbetweenReads,
        closesTerm_isOrSeparator.endsOutsideTerm
        ⟨between, hbetween, List.suffix_append _ _⟩, ?_, h⟩
      exact .row hbetween hbetweenReads
        (openRow_of_closesRequirements hgroup hfirst hrow hconditions)

end Grammar

theorem SyntaxError.attempted_of_hint {error : SyntaxError}
    (h : error.hint? = some .fieldName) : error.Attempted Expected.noColon := by
  unfold SyntaxError.hint? at h
  split at h
  · cases h
  split at h
  · cases h
  split at h
  · cases h
  split at h
  · cases h
  split at h
  · assumption
  · cases h

theorem not_isQuote_of_blamed {error : SyntaxError} {front body : List Char}
    {quote : Char} (h : IsFieldNames error.blamed)
    (hbefore : error.before = front ++ (body ++ [quote])) :
    ¬ IsQuote quote := by
  intro hquote
  have hterm : isTermChar quote = true := by
    rcases hquote with rfl | rfl <;> decide
  refine h.isNames.not_isQuote quote ?_ hquote
  rw [SyntaxError.blamed, hbefore, ← List.append_assoc,
    List.rtakeWhile_concat_pos _ _ _ hterm]
  exact List.mem_append_right _ (.head _)

/-- The hint on field names is given before a colon. The text that it is about
is no list of field names, unless it stands after `and` or after the fields of
its group. -/
theorem context_of_fieldName_hint {input : String} {error : SyntaxError}
    (h : SyntaxTree.parse input = .error error)
    (hhint : error.hint? = some .fieldName) :
    error.after.head? = some ':' ∧
      (IsFieldNames error.blamed →
        EndsIn IsAndSeparator error.context ∨
          EndsIn IsFieldPrefix error.context) := by
  obtain ⟨expectation, hmem, hlabel⟩ := SyntaxError.attempted_of_hint hhint
  have hnotes : Grammar.andQueries.Notes (Grammar.ColonAt error.position)
      (.ofText input) :=
    ⟨_, Grammar.mem_attempts_of_parse_error h hmem, rfl, hlabel⟩
  obtain ⟨front, site, hfront, houtside, horigin, hsite⟩ :=
    Grammar.exists_conditionStart hnotes
  obtain ⟨text, stop, htext, hposition, hcolon, hform⟩ :=
    Grammar.exists_reads_of_notes_condition hsite
  obtain ⟨more, hmore⟩ := List.head?_eq_some_iff.mp hcolon
  have hinput : error.input = input := by
    rw [(Grammar.parse_eq_error_iff.mp h).2]
  have hall := hfront.trans htext
  have hcut : cutAt? error.position error.input.toList =
      some (front ++ text, stop.rest) := by
    have hsize : error.position = byteSize (front ++ text) :=
      (hposition.symm.trans hall.position).trans (Nat.zero_add _)
    have hsplit : input.toList = front ++ text ++ stop.rest := hall.rest
    rw [hinput, hsize, hsplit, cutAt?_byteSize]
  have hbefore : error.before = front ++ text := by
    rw [SyntaxError.before, hcut]
    rfl
  refine ⟨by rw [SyntaxError.after, hcut]; exact hcolon, fun hnames => ?_⟩
  have hterm : ∀ c ∈ text, isTermChar c = true := by
    rcases hform with hterm | ⟨body, quote, hquote, rfl⟩
    · exact hterm
    · exact absurd hquote (not_isQuote_of_blamed hnames hbefore)
  have hblamed : error.blamed = text := by
    rw [SyntaxError.blamed, hbefore, rtakeWhile_append_of_pos hterm houtside]
  have hcontext : error.context = front := by
    rw [SyntaxError.context, hbefore, rdropWhile_append_of_pos hterm houtside]
  rw [hblamed] at hnames
  rw [hcontext]
  cases horigin with
  | group hfield =>
      obtain ⟨list, next, hsome, -⟩ := hnames.field site.position more
      have hrest : site.rest = text ++ ':' :: more := by rw [htext.rest, hmore]
      rw [← hrest] at hsome
      rw [hfield] at hsome
      cases hsome
  | fields hends => exact .inr hends
  | conjunction hends => exact .inl hends
  | row hbetween hreads hends =>
      -- the names would be read as the fields of the next group, past the
      -- position
      have hboth := hreads.trans htext
      have hrest := hboth.rest
      rw [hmore, List.append_assoc] at hrest
      obtain ⟨groups, hrow⟩ :=
        hends (by rw [hrest]; exact hnames.closesRequirements hbetween more)
      obtain ⟨attempt, hattempt, hbeyond⟩ :=
        hnames.notes_beyond hrow hbetween hrest
      rw [← hboth.position, hposition] at hbeyond
      exact absurd (Grammar.position_le_of_parse_error h attempt hattempt)
        (Nat.not_le.mpr hbeyond)

/-- Two field names after `and`, where no group can start. -/
theorem context_of_fieldName_hint_after_and :
    ∃ error, SyntaxTree.parse "é and b,c: d" = .error error ∧
      error.hint? = some .fieldName ∧
      error.after.head? = some ':' ∧
      IsFieldNames error.blamed ∧
      (EndsIn IsAndSeparator error.context ∨
        EndsIn IsFieldPrefix error.context) := by
  have h : SyntaxTree.parse "é and b,c: d" =
      .error ⟨10,
        [⟨Expected.noColon,
          ["and_queries", "and_query", "and_conditions", "or_conditions",
            "condition"]⟩], "é and b,c: d"⟩ := by
    decide +kernel
  obtain ⟨hcolon, hcontext⟩ := context_of_fieldName_hint h (by decide +kernel)
  have hnames : IsFieldNames ['b', ',', 'c'] :=
    ⟨["b", "c"], by decide, by decide, by decide⟩
  exact ⟨_, h, by decide +kernel, hcolon, hnames, hcontext hnames⟩

/-- After `and` the hint speaks of a field name that is one. -/
theorem not_forall_blamed_not_isFieldNames :
    ¬ ∀ input error, SyntaxTree.parse input = .error error →
      error.hint? = some .fieldName → ¬ IsFieldNames error.blamed := by
  intro hblamed
  have h : SyntaxTree.parse "a and b: c" =
      .error ⟨7,
        [⟨Expected.noColon,
          ["and_queries", "and_query", "and_conditions", "or_conditions",
            "condition"]⟩], "a and b: c"⟩ := by
    decide +kernel
  have hnames : IsFieldNames ['b'] := ⟨["b"], by decide, by decide, by decide⟩
  exact hblamed _ _ h (by decide +kernel) hnames

end TermSearch
