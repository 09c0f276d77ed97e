import TermSearch.Proofs.Grammar.Extension
import TermSearch.Proofs.Grammar.GroupStart
import TermSearch.Query.Translate

namespace TermSearch

/-! Space after a whole query. It changes nothing unless the query ends with an
`or` that only space joins to the condition before it. With space on both sides
such an `or` is read as the word between conditions, has none to join, and
becomes a group of its own. -/

/-- Space and then the word `or`, at the end of a text. -/
def IsLooseOr (text : List Char) : Prop :=
  ∃ blank, IsBlank blank ∧ text = blank ++ ['o', 'r']

/-- The last two conditions are joined by space only, and the last one is the
word `or` where the input ends. -/
def EndInLooseOr (input : List Char) (conditions : List Condition) : Prop :=
  ∃ before blank earlier last, input = before ++ (blank ++ ['o', 'r']) ∧
    IsBlank blank ∧
    last.span.stop = byteSize before ∧
    conditions =
      earlier ++ [last] ++
        [.raw "or" ⟨byteSize (before ++ blank), byteSize input⟩]

def QueryGroup.unprefixedOr (start : Nat) : QueryGroup :=
  let span := ⟨start, start + 2⟩
  ⟨none, ⟨[⟨[.raw "or" span], span⟩], span⟩, span⟩

def SyntaxTree.EndsInLooseOr (input : List Char) (tree : SyntaxTree) : Prop :=
  ∃ group ∈ tree.orGroups, EndInLooseOr input group.conditions

namespace Rule

theorem Takes.eq_none_of_nil {rule : Rule α} (h : rule.Takes (· ≠ []))
    {cursor : Cursor} (hnil : cursor.rest = []) :
    (rule cursor).result = none := by
  rw [Option.eq_none_iff_forall_ne_some]
  rintro ⟨value, stop⟩ hresult
  obtain ⟨text, htext, hreads⟩ := h hresult
  have hrest := hreads.rest
  rw [hnil] at hrest
  exact htext (List.append_eq_nil_iff.mp hrest.symm).1

end Rule

theorem Cursor.IsIn.extend {cursor : Cursor} {input : List Char}
    (h : cursor.IsIn input) (more : List Char) :
    (cursor.extend more).IsIn (input ++ more) := by
  obtain ⟨before, hinput, hposition⟩ := h
  exact ⟨before, by rw [hinput, List.append_assoc, rest_extend], hposition⟩

theorem eq_of_append_eq_append {before after left right : List Char}
    (h : before ++ after = left ++ right)
    (hsize : byteSize before = byteSize left) :
    before = left ∧ after = right := by
  have hcut := cutAt?_byteSize before after
  rw [h, hsize, cutAt?_byteSize] at hcut
  cases hcut
  exact ⟨rfl, rfl⟩

/-! What space at the end does to a reading. -/

/-- The reading stays the same, or it ended with a loose `or` and now ends
before that. -/
def Survives (reads : Cursor → α → Cursor → Prop) (gap : List Char)
    (loose : α → Prop) (start : Cursor) (value : α) (stop : Cursor) : Prop :=
  reads (start.extend gap) value (stop.extend gap) ∨
    stop.rest = [] ∧ loose value ∧
      ∃ (short : α) (place : Cursor), IsLooseOr place.rest ∧
        reads (start.extend gap) short (place.extend gap)

theorem Survives.imp {reads : Cursor → α → Cursor → Prop}
    {others : Cursor → β → Cursor → Prop} {gap : List Char} {loose : α → Prop}
    {looseOther : β → Prop} {start origin stop : Cursor} {value : α}
    {other : β} (h : Survives reads gap loose start value stop)
    (hsame : reads (start.extend gap) value (stop.extend gap) →
      others (origin.extend gap) other (stop.extend gap))
    (hloose : loose value → looseOther other)
    (hshort : ∀ (short : α) (place : Cursor), IsLooseOr place.rest →
      reads (start.extend gap) short (place.extend gap) →
      ∃ short, others (origin.extend gap) short (place.extend gap)) :
    Survives others gap looseOther origin other stop := by
  rcases h with h | ⟨hend, hvalue, short, place, hplace, h⟩
  · exact .inl (hsame h)
  · obtain ⟨short, h⟩ := hshort short place hplace h
    exact .inr ⟨hend, hloose hvalue, short, place, hplace, h⟩

def Rule.Gives (rule : Rule α) (start : Cursor) (value : α)
    (stop : Cursor) : Prop :=
  (rule start).result = some (value, stop)

theorem Rule.OpenRow.survives {item : Rule α} {separator : Rule Unit}
    {gap input : List Char} {loose : α → Prop} {form : List Char → Prop}
    (htakes : item.Takes form)
    (hnil : (separator >>= fun _ => item).Takes (· ≠ []))
    (hitem : ∀ ⦃start value stop⦄, start.IsIn input →
      item.Gives start value stop →
      Survives item.Gives gap loose start value stop)
    (hstep : ∀ ⦃start value stop⦄, start.IsIn input →
      (separator >>= fun _ => item).Gives start value stop →
      Survives (separator >>= fun _ => item).Gives gap loose start value stop)
    {start stop : Cursor} {values : List α} (hstart : start.IsIn input)
    (h : OpenRow item separator start values stop) :
    Survives (OpenRow item separator) gap
      (fun values => ∃ value ∈ values, loose value) start values stop := by
  induction h with
  | first h =>
      refine (hitem hstart h).imp .first
        (fun hloose => ⟨_, List.mem_singleton_self _, hloose⟩) ?_
      exact fun short _ _ hshort => ⟨[short], .first hshort⟩
  | concat hrow h ih =>
      rcases ih with hsame | ⟨hend, -⟩
      · refine (hstep (hrow.isIn htakes hnil hstart) h).imp hsame.concat
          (fun hloose => ?_) ?_
        · exact ⟨_, List.mem_append_right _ (List.mem_singleton_self _), hloose⟩
        · exact fun _ _ _ hshort => ⟨_, hsame.concat hshort⟩
      · rw [hnil.eq_none_of_nil hend] at h
        cases h

namespace Grammar

theorem span_of_condition {start stop : Cursor} {value : Condition}
    (h : (condition start).result = some (value, stop)) :
    value.span = ⟨start.position, stop.position⟩ := by
  obtain ⟨hquoted | ⟨-, hraw⟩, -⟩ := condition_eq_some_iff.mp h
  · obtain ⟨_, _, _, -, -, -, rfl⟩ := quotedString_eq_some_iff.mp hquoted
    rfl
  · obtain ⟨-, -, -, rfl⟩ := rawCondition_eq_some_iff.mp hraw
    rfl

section Steady

variable {gap : List Char} {cursor : Cursor}

/-! A further condition of an or-group, with space after the text. -/

/-- The word with space on both sides, of which `orOp` prefers to read the
first. -/
def spacedOr : Rule Unit := do
  space
  Rule.literal ['o', 'r'] Expected.orWord
  space

theorem result_orOp_bind (next : Rule α) (cursor : Cursor) :
    ((orOp >>= fun _ => next) cursor).result =
      if (spacedOr cursor).result = none then
        ((space >>= fun _ => next) cursor).result
      else ((spacedOr >>= fun _ => next) cursor).result := by
  have hresult :
      (orOp cursor).result = ((spacedOr <|> space) cursor).result := rfl
  rw [Rule.result_bind, hresult, Rule.result_choice, Rule.result_bind,
    Rule.result_bind]
  cases (spacedOr cursor).result <;> simp

theorem space_eq_none_iff {cursor : Cursor} :
    (space cursor).result = none ↔ Written.IsSolid cursor.rest := by
  refine ⟨fun h c hc => ?_, fun h => Written.space_refuses h cursor.position⟩
  rw [result_space] at h
  split at h
  · rename_i hrun
    apply cursor.head?_afterRun
    rwa [cursor.afterRun_eq_self hrun]
  · cases h

/-- The word is found in the same places, except for a loose one. -/
theorem spacedOr_extend_eq_none_iff (hgap : IsBlank gap)
    (hinside : (cursor.afterRun isSpace).rest ≠ [])
    (hloose : ¬ IsLooseOr cursor.rest) :
    (spacedOr (cursor.extend gap)).result = none ↔
      (spacedOr cursor).result = none := by
  unfold spacedOr
  simp only [Rule.result_bind, Rule.result_literal]
  rw [isSteadyAt_space hinside gap]
  cases hspace : (space cursor).result with
  | none => rfl
  | some before =>
      obtain ⟨hblank, hbefore⟩ := space_eq_some_iff.mp hspace
      rw [Option.map_some, Option.bind_some, Option.bind_some,
        Cursor.after?_extend (Written.isBoundary_of_isBlank hgap)
        (by simp [isSpace])]
      cases hword : before.2.after? ['o', 'r'] with
      | none => rfl
      | some word =>
          have hne : word.rest ≠ [] := by
            intro hnil
            have hreads := Cursor.after?_eq_some_iff.mp hword
            refine hloose
              ⟨cursor.run isSpace, ⟨hblank, cursor.all_run isSpace⟩, ?_⟩
            rw [← cursor.run_append_afterRun isSpace, ← hbefore, hreads.rest,
              hnil, List.append_nil]
          simp only [Option.map_some, Option.bind_some,
            space_eq_none_iff, Cursor.rest_extend,
            Written.IsSolid, List.head?_append_of_ne_nil _ hne]

theorem isSteadyAt_orOp_condition (hgap : IsBlank gap)
    (hloose : ¬ IsLooseOr cursor.rest) :
    (orOp >>= fun _ => condition).IsSteadyAt gap cursor := by
  by_cases hinside : (cursor.afterRun isSpace).rest = []
  · exact isSteadyAt_of_refuses hgap
      (fun space => space.closesAlternatives.refuses) hinside
  · have hspaced : (spacedOr >>= fun _ => condition).IsSteadyAt gap cursor :=
      isSteadyAt_spacedWord_bind hgap (by simp [isSpace]) (by simp) _
        Written.condition_refuses_nil (isSteadyAt_condition hgap) cursor
    have hblank : (space >>= fun _ => condition).IsSteadyAt gap cursor :=
      isSteadyAt_space_bind hgap Written.condition_refuses_nil
        (isSteadyAt_condition hgap) cursor
    have hiff := spacedOr_extend_eq_none_iff hgap hinside hloose
    rw [Rule.IsSteadyAt, result_orOp_bind, result_orOp_bind]
    by_cases hnone : (spacedOr cursor).result = none
    · rw [if_pos hnone, if_pos (hiff.mpr hnone), hblank]
    · rw [if_neg hnone, if_neg (mt hiff.mp hnone), hspaced]

theorem orOp_condition_of_looseOr (hloose : IsLooseOr cursor.rest) :
    ∃ start, start + 2 = cursor.position + byteSize cursor.rest ∧
      ((orOp >>= fun _ => condition) cursor).result =
        some (.raw "or" ⟨start, start + 2⟩, ⟨start + 2, []⟩) := by
  obtain ⟨position, text⟩ := cursor
  obtain ⟨blank, hblank, rfl⟩ := hloose
  have hsolid : Written.IsSolid ['o', 'r'] := by simp [Written.IsSolid, isSpace]
  have hword : ¬ Written.StartsWithWord ['o', 'r'] ['o', 'r'] := by
    rintro ⟨c, more, happend, -⟩
    cases happend
  obtain ⟨_, hresult, -⟩ :=
    Written.orOp_readsAs_blank hblank hsolid hword position
  refine ⟨position + byteSize blank, ?_, ?_⟩
  · rw [byteSize_append, Nat.add_assoc]
    rfl
  · rw [Rule.result_bind, hresult]
    exact condition_of_or (by simp [Written.IsBoundary]) _

theorem orOp_condition_extend_of_looseOr (hgap : IsBlank gap)
    (hloose : IsLooseOr cursor.rest) :
    ((orOp >>= fun _ => condition) (cursor.extend gap)).result = none := by
  obtain ⟨blank, hblank, hrest⟩ := hloose
  have hrefuses :=
    (Written.orOp_readsAs_word hblank hgap Written.isSolid_nil).bind_refuses
      Written.condition_refuses_nil
  have hextend : cursor.rest ++ gap = blank ++ (['o', 'r'] ++ gap) ++ [] := by
    rw [hrest, List.append_nil, List.append_assoc]
  rw [Cursor.extend, hextend]
  exact hrefuses cursor.position

theorem orOp_condition_extend_eq_none (hgap : IsBlank gap)
    (h : ((orOp >>= fun _ => condition) cursor).result = none) :
    ((orOp >>= fun _ => condition) (cursor.extend gap)).result = none := by
  by_cases hloose : IsLooseOr cursor.rest
  · exact orOp_condition_extend_of_looseOr hgap hloose
  · exact (isSteadyAt_orOp_condition hgap hloose).eq_none h

theorem isSpace_reservedWord : ∀ c ∈ reservedWord, isSpace c = false := by
  simp [reservedWord, isSpace]

/-! A further or-group. Whether there is one depends on its first condition. -/

theorem andOp_orConditions_eq_none_iff :
    ((andOp >>= fun _ => orConditions) cursor).result = none ↔
      ((andOp >>= fun _ => condition) cursor).result = none := by
  rw [Rule.result_bind, Rule.result_bind]
  cases (andOp cursor).result with
  | none => simp
  | some reading =>
      rw [Option.bind_some, Option.bind_some, isRowOf_orConditions.eq_none_iff]

theorem andOp_orConditions_extend_eq_none (hgap : IsBlank gap)
    (h : ((andOp >>= fun _ => orConditions) cursor).result = none) :
    ((andOp >>= fun _ => orConditions) (cursor.extend gap)).result = none := by
  rw [andOp_orConditions_eq_none_iff] at h ⊢
  have hsteady : (andOp >>= fun _ => condition).IsSteadyAt gap cursor := by
    refine .of_result_eq (fun _ => ?_) (isSteadyAt_spacedWord_bind hgap
      isSpace_reservedWord (by decide) Expected.andWord
      Written.condition_refuses_nil (isSteadyAt_condition hgap) cursor)
    rw [Rule.result_bind, Rule.result_bind]
    rfl
  exact hsteady.eq_none h

theorem space_extend_eq_some (gap : List Char) {stop : Cursor}
    (h : (space cursor).result = some ((), stop)) (hstop : stop.rest ≠ []) :
    (space (cursor.extend gap)).result = some ((), stop.extend gap) := by
  rw [(space_eq_some_iff.mp h).2] at hstop
  exact (isSteadyAt_space hstop gap).eq_some h

theorem andOp_extend_eq_some (hgap : IsBlank gap) {stop : Cursor}
    (h : (andOp cursor).result = some ((), stop)) (hstop : stop.rest ≠ []) :
    (andOp (cursor.extend gap)).result = some ((), stop.extend gap) := by
  rw [result_andOp, Option.bind_eq_some_iff] at h
  obtain ⟨⟨_, before⟩, hbefore, h⟩ := h
  obtain ⟨word, hword, hafter⟩ := Option.bind_eq_some_iff.mp h
  have hne : before.rest ≠ [] := by
    rw [(Cursor.after?_eq_some_iff.mp hword).rest]
    simp [reservedWord]
  rw [result_andOp, space_extend_eq_some gap hbefore hne, Option.bind_some,
    Cursor.after?_extend (Written.isBoundary_of_isBlank hgap)
    isSpace_reservedWord, hword]
  exact space_extend_eq_some gap hafter hstop

theorem andOp_orConditions_extend_of_looseOr (gap : List Char)
    (hloose : IsLooseOr cursor.rest) :
    ((andOp >>= fun _ => orConditions) (cursor.extend gap)).result = none := by
  obtain ⟨blank, hblank, hrest⟩ := hloose
  have hsolid :
      Written.IsSolid (['o', 'r'] ++ gap) := by simp [Written.IsSolid, isSpace]
  have hword : ¬ Written.StartsWithWord reservedWord (['o', 'r'] ++ gap) := by
    rintro ⟨c, more, happend, -⟩
    cases happend
  rw [Cursor.extend, hrest, List.append_assoc]
  exact (Written.andOp_refuses hblank hsolid hword).bind cursor.position

end Steady

/-! The levels of the grammar, from conditions to groups. -/

section Levels

variable {gap input : List Char} {start stop : Cursor}

theorem endInLooseOr_concat (hstart : start.IsIn input)
    {conditions : List Condition}
    (hrow : Rule.OpenRow condition orOp start conditions stop)
    (hloose : IsLooseOr stop.rest) {position : Nat}
    (hposition : position + 2 = stop.position + byteSize stop.rest) :
    EndInLooseOr input
      (conditions ++ [.raw "or" ⟨position, position + 2⟩]) := by
  obtain ⟨earlier, last, place, rfl, hlast⟩ := hrow.exists_last
  obtain ⟨before, hinput, hbefore⟩ :=
    hrow.isIn takes_condition takes_orOp_condition hstart
  obtain ⟨blank, hblank, hrest⟩ := hloose
  have hsize : byteSize ['o', 'r'] = 2 := rfl
  rw [hrest, byteSize_append, hsize, hbefore] at hposition
  refine ⟨before, blank, earlier, last, by rw [hinput, hrest], hblank, ?_, ?_⟩
  · rw [span_of_condition hlast, hbefore]
  · rw [hinput, hrest, ← List.append_assoc, byteSize_append _ ['o', 'r'], hsize,
      byteSize_append,
      show position = byteSize before + byteSize blank by omega]

theorem openRow_condition_survives (hgap : IsBlank gap)
    (hstart : start.IsIn input) {conditions : List Condition}
    (h : Rule.OpenRow condition orOp start conditions stop) :
    Survives (Rule.OpenRow condition orOp) gap (EndInLooseOr input) start
      conditions stop := by
  induction h with
  | first h => exact .inl (.first ((isSteadyAt_condition hgap _).eq_some h))
  | @concat conditions value middle stop hrow h ih =>
      rcases ih with hsame | ⟨hend, -⟩
      · by_cases hloose : IsLooseOr middle.rest
        · -- the loose `or` is the last condition, and the row is cut before it
          obtain ⟨position, hposition, hread⟩ :=
            orOp_condition_of_looseOr hloose
          rw [hread] at h
          cases h
          exact .inr ⟨rfl, endInLooseOr_concat hstart hrow hloose hposition,
            conditions, middle, hloose, hsame⟩
        · exact .inl
            (hsame.concat ((isSteadyAt_orOp_condition hgap hloose).eq_some h))
      · -- nothing can be joined at the end of the text
        rw [takes_orOp_condition.eq_none_of_nil hend] at h
        cases h

theorem orConditions_survives (hgap : IsBlank gap) {group : OrGroup}
    (hstart : start.IsIn input) (h : orConditions.Gives start group stop) :
    Survives orConditions.Gives gap
      (fun group => EndInLooseOr input group.conditions) start group stop := by
  obtain ⟨⟨hrow, hend⟩, hspan⟩ := orConditions_eq_some_iff.mp h
  refine (openRow_condition_survives hgap hstart hrow).imp
    (fun hsame => ?_) id ?_
  · have hclosed := orOp_condition_extend_eq_none hgap hend
    exact orConditions_eq_some_iff.mpr ⟨⟨hsame, hclosed⟩, hspan⟩
  · intro short place hplace hshort
    have hclosed := orOp_condition_extend_of_looseOr hgap hplace
    refine ⟨⟨short, ⟨start.position, place.position⟩⟩, ?_⟩
    exact orConditions_eq_some_iff.mpr ⟨⟨hshort, hclosed⟩, rfl⟩

theorem survives_bind {item : Rule α} {separator : Rule Unit}
    {loose : α → Prop} {form : List Char → Prop}
    (hform : separator.Takes form) (hitem : item.Takes (· ≠ []))
    (hsurvives : ∀ ⦃start value stop⦄, start.IsIn input →
      item.Gives start value stop →
      Survives item.Gives gap loose start value stop)
    (hseparator : ∀ ⦃start stop⦄, (separator start).result = some ((), stop) →
      stop.rest ≠ [] →
      (separator (start.extend gap)).result = some ((), stop.extend gap))
    {value : α} (hstart : start.IsIn input)
    (h : (separator >>= fun _ => item).Gives start value stop) :
    Survives (separator >>= fun _ => item).Gives gap loose start value
      stop := by
  rw [Rule.Gives, Rule.result_bind, Option.bind_eq_some_iff] at h
  obtain ⟨⟨_, middle⟩, hbetween, hread⟩ := h
  have hmiddle : middle.rest ≠ [] := by
    intro hnil
    rw [hitem.eq_none_of_nil hnil] at hread
    cases hread
  have hextend := hseparator hbetween hmiddle
  obtain ⟨_, -, hreads⟩ := hform hbetween
  have hgives {value : α} {stop : Cursor}
      (hitem : item.Gives (middle.extend gap) value stop) :
      (separator >>= fun _ => item).Gives (start.extend gap) value stop := by
    rw [Rule.Gives, Rule.result_bind, hextend]
    exact hitem
  exact (hsurvives (hreads.isIn hstart) hread).imp hgives id
    fun short _ _ hshort => ⟨short, hgives hshort⟩

theorem andConditions_survives (hgap : IsBlank gap)
    (hstart : start.IsIn input) {conditions : Conditions}
    (h : andConditions.Gives start conditions stop) :
    Survives andConditions.Gives gap
      (fun conditions =>
        ∃ group ∈ conditions.groups, EndInLooseOr input group.conditions) start
      conditions stop := by
  obtain ⟨⟨hrow, hend⟩, hspan⟩ := andConditions_eq_some_iff.mp h
  have hsurvives := hrow.survives takes_orConditions takes_andOp_orConditions
    (fun _ _ _ => orConditions_survives hgap)
    (fun _ _ _ => survives_bind takes_andOp takes_orConditions (fun _ _ _ =>
      orConditions_survives hgap) fun _ _ => andOp_extend_eq_some hgap) hstart
  refine hsurvives.imp (fun hsame => ?_) id ?_
  · have hclosed := andOp_orConditions_extend_eq_none hgap hend
    exact andConditions_eq_some_iff.mpr ⟨⟨hsame, hclosed⟩, hspan⟩
  · intro short place hplace hshort
    have hclosed := andOp_orConditions_extend_of_looseOr gap hplace
    refine ⟨⟨short, ⟨start.position, place.position⟩⟩, ?_⟩
    exact andConditions_eq_some_iff.mpr ⟨⟨hshort, hclosed⟩, rfl⟩

theorem andQuery_survives (hgap : IsBlank gap) {group : QueryGroup}
    (hstart : start.IsIn input) (h : andQuery.Gives start group stop) :
    Survives andQuery.Gives gap
      (fun group =>
        ∃ orGroup ∈ group.conditions.groups,
          EndInLooseOr input orGroup.conditions) start group stop := by
  obtain ⟨hspan, ⟨list, next, hfield, hfields, hconditions⟩ | ⟨hfield, hfields,
    hconditions⟩⟩ :=
    andQuery_eq_some_iff.mp h
  · have hnext : next.rest ≠ [] := by
      intro hnil
      rw [takes_andConditions.eq_none_of_nil hnil] at hconditions
      cases hconditions
    have hextend := field_extend_eq_some hgap hfield hnext
    obtain ⟨_, -, hreads⟩ := takes_field hfield
    refine (andConditions_survives hgap (hreads.isIn hstart) hconditions).imp
      (fun hsame => ?_) id fun short place _ hshort => ?_
    · exact andQuery_eq_some_iff.mpr
        ⟨hspan, .inl ⟨list, _, hextend, hfields, hsame⟩⟩
    · refine ⟨⟨some list, short, ⟨start.position, place.position⟩⟩, ?_⟩
      exact andQuery_eq_some_iff.mpr ⟨rfl, .inl ⟨list, _, hextend, rfl, hshort⟩⟩
  · have hextend := field_extend_eq_none hgap hfield
    refine (andConditions_survives hgap hstart hconditions).imp
      (fun hsame => ?_) id fun short place _ hshort => ?_
    · exact andQuery_eq_some_iff.mpr ⟨hspan, .inr ⟨hextend, hfields, hsame⟩⟩
    · refine ⟨⟨none, short, ⟨start.position, place.position⟩⟩, ?_⟩
      exact andQuery_eq_some_iff.mpr ⟨rfl, .inr ⟨hextend, rfl, hshort⟩⟩

theorem field_refuses_of_colon_not_mem {text : List Char} (h : ':' ∉ text) :
    field.Refuses text :=
  Written.field_refuses_of_ne fun names _ more htext => h (by simp [htext])

theorem space_andQuery_of_looseOr (hgap : IsBlank gap) {cursor : Cursor}
    (hloose : IsLooseOr cursor.rest) :
    ∃ position, position + 2 = cursor.position + byteSize cursor.rest ∧
      (space >>= fun _ => andQuery).Gives (cursor.extend gap)
        (.unprefixedOr position) ⟨position + 2, gap⟩ := by
  obtain ⟨position, text⟩ := cursor
  obtain ⟨blank, hblank, rfl⟩ := hloose
  let start := position + byteSize blank
  let rest : Written.Gap := ⟨gap, hgap.2⟩
  have hcondition :=
    condition_of_or (Written.isBoundary_append_of_isBlank hgap []) start
  rw [List.append_nil] at hcondition
  have horConditions : (orConditions ⟨start, ['o', 'r'] ++ gap⟩).result =
      some (⟨[.raw "or" ⟨start, start + 2⟩], ⟨start, start + 2⟩⟩,
        ⟨start + 2, gap⟩) :=
    orConditions_eq_some_iff.mpr
      ⟨⟨.first hcondition, rest.closesAlternatives.refuses _⟩, rfl⟩
  have handConditions : (andConditions ⟨start, ['o', 'r'] ++ gap⟩).result =
      some (⟨[⟨[.raw "or" ⟨start, start + 2⟩], ⟨start, start + 2⟩⟩],
        ⟨start, start + 2⟩⟩, ⟨start + 2, gap⟩) :=
    andConditions_eq_some_iff.mpr
      ⟨⟨.first horConditions, rest.closesRequirements.refuses _⟩, rfl⟩
  have hfield : field.Refuses (['o', 'r'] ++ gap) := by
    apply field_refuses_of_colon_not_mem
    intro hcolon
    have hspace := hgap.2 ':' (by simpa using hcolon)
    cases hspace
  have hspace : (space ⟨position, blank ++ ['o', 'r'] ++ gap⟩).result =
      some ((), ⟨start, ['o', 'r'] ++ gap⟩) := by
    have hsolid : Written.IsSolid (['o', 'r'] ++ gap) := by
      simp [Written.IsSolid, isSpace]
    obtain ⟨_, hresult, -⟩ := Written.space_readsAs hblank hsolid position
    rw [List.append_assoc]
    exact hresult
  refine ⟨start, ?_, ?_⟩
  · rw [byteSize_append, ← Nat.add_assoc]
    rfl
  · rw [Rule.Gives, Rule.result_bind, Cursor.extend, hspace, Option.bind_some]
    exact andQuery_eq_some_iff.mpr ⟨rfl, .inr ⟨hfield _, rfl, handConditions⟩⟩

theorem andQueries_extend (hgap : IsBlank gap) {tree : SyntaxTree}
    (hstart : start.IsIn input) (h : andQueries.Gives start tree stop) :
    (∃ later, andQueries.Gives (start.extend gap) tree later) ∨
      tree.EndsInLooseOr input ∧
        ∃ other later position,
          andQueries.Gives (start.extend gap) other later ∧
            position + 2 = byteSize input ∧
            other.groups.getLast? = some (.unprefixedOr position) := by
  obtain ⟨next, ⟨hrow, hnone⟩, hspan, rfl, hend⟩ :=
    andQueries_eq_some_iff_openRow.mp h
  have hsurvives := hrow.survives takes_andQuery takes_space_andQuery
    (fun _ _ _ => andQuery_survives hgap)
    (fun _ _ _ => survives_bind takes_space takes_andQuery
      (fun _ _ _ => andQuery_survives hgap) fun _ _ => space_extend_eq_some gap)
    hstart
  rcases hsurvives with
    hsame | ⟨-, ⟨group, hgroup, orGroup, horGroup, hloose⟩, short, place,
      hplace, hshort⟩
  · left
    have hclosed := (isSteadyAt_of_refuses hgap
        (fun space => space.space_andQuery_refuses) hend).eq_none hnone
    refine ⟨(next.extend gap).afterRun isSpace,
      andQueries_eq_some_iff_openRow.mpr
      ⟨next.extend gap, ⟨hsame, hclosed⟩, hspan, rfl, ?_⟩⟩
    refine List.dropWhile_eq_nil_iff.mpr
      (List.forall_mem_append.mpr ⟨?_, hgap.2⟩)
    exact List.dropWhile_eq_nil_iff.mp hend
  · refine .inr
      ⟨⟨orGroup, List.mem_flatMap.mpr ⟨group, hgroup, horGroup⟩, hloose⟩, ?_⟩
    obtain ⟨position, hposition, hor⟩ := space_andQuery_of_looseOr hgap hplace
    rw [Rule.Gives] at hor
    have hclosed :=
      Written.Gap.space_andQuery_refuses ⟨gap, hgap.2⟩ (position + 2)
    refine ⟨⟨short ++ [.unprefixedOr position], ⟨start.position, position + 2⟩⟩,
      _, position, andQueries_eq_some_iff_openRow.mpr
      ⟨_, ⟨hshort.concat hor, hclosed⟩, rfl, rfl, ?_⟩, ?_, List.getLast?_concat⟩
    · exact List.dropWhile_eq_nil_iff.mpr hgap.2
    · obtain ⟨before, hinput, hbefore⟩ :=
        hshort.isIn takes_andQuery takes_space_andQuery (hstart.extend gap)
      rw [Cursor.rest_extend, ← List.append_assoc, List.append_cancel_right_eq]
        at hinput
      rw [hposition, hinput, byteSize_append]
      exact congrArg (· + byteSize place.rest) hbefore

theorem exists_of_mem_orGroups {tree : SyntaxTree} (hstart : start.IsIn input)
    (h : andQueries.Gives start tree stop) {group : OrGroup}
    (hgroup : group ∈ tree.orGroups) :
    ∃ place next, place.IsIn input ∧
      (orConditions place).result = some (group, next) := by
  obtain ⟨_, ⟨hrow, -⟩, -⟩ := andQueries_eq_some_iff_openRow.mp h
  obtain ⟨parent, hparent, hmem⟩ := List.mem_flatMap.mp hgroup
  obtain ⟨place, _, hplace, hread⟩ :=
    hrow.exists_of_mem takes_andQuery takes_space hstart hparent
  obtain ⟨site, hsite, hconditions⟩ : ∃ site : Cursor, site.IsIn input ∧
    ∃ after, (andConditions site).result = some (parent.conditions, after) := by
    obtain ⟨-, ⟨list, site, hfield, -, hconditions⟩ | ⟨-, -, hconditions⟩⟩ :=
      andQuery_eq_some_iff.mp hread
    · obtain ⟨_, -, hreads⟩ := takes_field hfield
      exact ⟨site, hreads.isIn hplace, _, hconditions⟩
    · exact ⟨place, hplace, _, hconditions⟩
  obtain ⟨_, hconditions⟩ := hconditions
  obtain ⟨⟨hrow, -⟩, -⟩ := andConditions_eq_some_iff.mp hconditions
  exact hrow.exists_of_mem takes_orConditions takes_andOp hsite hmem

/-- With space after the text, its last word is read in no tree as a loose
`or`. -/
theorem not_gives_of_endsInLooseOr (hgap : IsBlank gap) {tree : SyntaxTree}
    (hloose : tree.EndsInLooseOr input) (hstart : start.IsIn (input ++ gap)) :
    ¬ andQueries.Gives start tree stop := by
  intro h
  obtain ⟨group, hgroup, before, blank, earlier, last, hinput, hblank, hstop,
    hconditions⟩ := hloose
  obtain ⟨place, next, hplace, hread⟩ := exists_of_mem_orGroups hstart h hgroup
  obtain ⟨⟨hrow, -⟩, -⟩ := orConditions_eq_some_iff.mp hread
  rw [hconditions, Rule.OpenRow.concat_iff (by simp)] at hrow
  obtain ⟨middle, hrow, hstep⟩ := hrow
  obtain ⟨_, other, site, hlast, hcondition⟩ := hrow.exists_last
  obtain ⟨-, hother⟩ := List.append_inj' hlast rfl
  cases hother
  rw [span_of_condition hcondition] at hstop
  obtain ⟨left, hleft, hposition⟩ :=
    hrow.isIn takes_condition takes_orOp_condition hplace
  have hall : before ++ (blank ++ ['o', 'r'] ++ gap) = left ++ middle.rest := by
    rw [← hleft, hinput]
    simp
  obtain ⟨-, hrest⟩ := eq_of_append_eq_append hall (hstop.symm.trans hposition)
  have hloose :
      IsLooseOr (Cursor.mk middle.position (blank ++ ['o', 'r'])).rest :=
    ⟨blank, hblank, rfl⟩
  have hnone := orOp_condition_extend_of_looseOr hgap hloose
  rw [Cursor.extend, hrest, hstep] at hnone
  cases hnone

end Levels

end Grammar

theorem Cursor.ofText_append (input : String) (gap : List Char) :
    Cursor.ofText (input ++ String.ofList gap) =
      (Cursor.ofText input).extend gap := by
  rw [ofText, String.toList_append, String.toList_ofList]
  rfl

/-- Space after a query changes neither tree nor translation, unless the query
ends with a loose `or`. Then the word becomes a group without fields after the
others. -/
theorem parse_append_of_parse {input : String} {tree : SyntaxTree}
    (h : SyntaxTree.parse input = .ok tree) {gap : List Char}
    (hgap : IsBlank gap) :
    (¬ tree.EndsInLooseOr input.toList →
        SyntaxTree.parse (input ++ String.ofList gap) = .ok tree ∧
          ∀ translator : Translator,
            translator.translate (input ++ String.ofList gap) =
              translator.translate input) ∧
      (tree.EndsInLooseOr input.toList →
        ∃ other position,
          SyntaxTree.parse (input ++ String.ofList gap) = .ok other ∧
            other ≠ tree ∧
            position + 2 = byteSize input.toList ∧
            other.groups.getLast? = some (.unprefixedOr position)) := by
  obtain ⟨stop, hresult⟩ := Grammar.parse_eq_ok_iff.mp h
  have hstart := Cursor.isIn_ofText input
  have hcases := Grammar.andQueries_extend hgap hstart hresult
  have hdiffers (hloose : tree.EndsInLooseOr input.toList) (later : Cursor) :
      ¬ Grammar.andQueries.Gives ((Cursor.ofText input).extend gap) tree
        later :=
    Grammar.not_gives_of_endsInLooseOr hgap hloose (hstart.extend gap)
  rw [← Cursor.ofText_append] at hcases hdiffers
  constructor
  · intro hnot
    obtain ⟨later, hsame⟩ := hcases.resolve_right fun hloose => hnot hloose.1
    have hparse := Grammar.parse_eq_ok_iff.mpr ⟨later, hsame⟩
    refine ⟨hparse, fun translator => ?_⟩
    unfold Translator.translate Translator.query
    rw [hparse, h]
  · intro hloose
    obtain ⟨-, other, later, position, hother, hposition, hlast⟩ :=
      hcases.resolve_left fun hsame => hdiffers hloose _ hsame.choose_spec
    refine ⟨other, position, Grammar.parse_eq_ok_iff.mpr ⟨later, hother⟩, ?_,
      hposition, hlast⟩
    rintro rfl
    exact hdiffers hloose later hother

/-- An `or` inside a query is left alone, one at its end is split off. -/
theorem parse_append_of_parse_inner_and_loose :
    (∃ tree, SyntaxTree.parse "f:a or b" = .ok tree ∧
        ¬ tree.EndsInLooseOr "f:a or b".toList ∧
        SyntaxTree.parse ("f:a or b" ++ String.ofList ['\t', ' ']) = .ok tree) ∧
      ∃ tree, SyntaxTree.parse "f:a or" = .ok tree ∧
        tree.EndsInLooseOr "f:a or".toList ∧
        ∃ other,
          SyntaxTree.parse ("f:a or" ++ String.ofList [' ']) = .ok other ∧
            other ≠ tree ∧
            other.groups.getLast? = some (.unprefixedOr 4) := by
  have hinner : SyntaxTree.parse "f:a or b" =
      .ok ⟨[⟨some ⟨[⟨"f", ⟨0, 1⟩⟩], ⟨0, 2⟩⟩,
        ⟨[⟨[.raw "a" ⟨2, 3⟩, .raw "b" ⟨7, 8⟩], ⟨2, 8⟩⟩], ⟨2, 8⟩⟩, ⟨0, 8⟩⟩],
        ⟨0, 8⟩⟩ := by
    decide +kernel
  have hloose : SyntaxTree.parse "f:a or" =
      .ok ⟨[⟨some ⟨[⟨"f", ⟨0, 1⟩⟩], ⟨0, 2⟩⟩,
        ⟨[⟨[.raw "a" ⟨2, 3⟩, .raw "or" ⟨4, 6⟩], ⟨2, 6⟩⟩], ⟨2, 6⟩⟩, ⟨0, 6⟩⟩],
        ⟨0, 6⟩⟩ := by
    decide +kernel
  have hspace : IsBlank [' '] := ⟨by simp, List.all_eq_true.mp rfl⟩
  have hspaces : IsBlank ['\t', ' '] := ⟨by simp, List.all_eq_true.mp rfl⟩
  constructor
  · refine ⟨_, hinner, ?_, ((parse_append_of_parse hinner hspaces).1 ?_).1⟩ <;>
    · rintro ⟨group, hgroup, before, blank, earlier, last, hinput, -⟩
      have hlast := congrArg List.getLast? hinput
      simp at hlast
  · have hends :
        EndInLooseOr "f:a or".toList [.raw "a" ⟨2, 3⟩, .raw "or" ⟨4, 6⟩] :=
      ⟨['f', ':', 'a'], [' '], [], .raw "a" ⟨2, 3⟩, by decide, hspace, rfl, rfl⟩
    obtain ⟨other, position, hother, hne, hposition, hlast⟩ :=
      (parse_append_of_parse hloose hspace).2 ⟨_, .head _, hends⟩
    have hsize : byteSize "f:a or".toList = 6 := by decide
    obtain rfl : position = 4 := by omega
    exact ⟨_, hloose, ⟨_, .head _, hends⟩, other, hother, hne, hlast⟩

/-- Of `a or` the two words are one or-group; with a space after them they are
two groups, which both have to match. -/
theorem not_forall_parse_append_blank :
    ¬ ∀ (input : String) (tree : SyntaxTree) (gap : List Char),
      SyntaxTree.parse input = .ok tree → IsBlank gap →
        SyntaxTree.parse (input ++ String.ofList gap) = .ok tree := by
  intro h
  have hjoined : SyntaxTree.parse "a or" =
      .ok ⟨[⟨none, ⟨[⟨[.raw "a" ⟨0, 1⟩, .raw "or" ⟨2, 4⟩], ⟨0, 4⟩⟩], ⟨0, 4⟩⟩,
        ⟨0, 4⟩⟩], ⟨0, 4⟩⟩ := by
    decide +kernel
  have hsplit : SyntaxTree.parse ("a or" ++ String.ofList [' ']) =
      .ok ⟨[⟨none, ⟨[⟨[.raw "a" ⟨0, 1⟩], ⟨0, 1⟩⟩], ⟨0, 1⟩⟩, ⟨0, 1⟩⟩,
        .unprefixedOr 2], ⟨0, 4⟩⟩ := by
    decide +kernel
  have hsame := h "a or" _ [' '] hjoined ⟨by simp, List.all_eq_true.mp rfl⟩
  rw [hsplit] at hsame
  cases hsame

end TermSearch
