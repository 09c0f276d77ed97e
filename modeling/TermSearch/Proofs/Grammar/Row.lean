import TermSearch.Proofs.Grammar.Lossless

namespace TermSearch

/-! Rows, read from the left. A row of items is extended one separator and item
at a time, and it is closed where the next such step fails. -/

namespace Rule

variable {item : Rule α} {separator : Rule Unit}

inductive OpenRow (item : Rule α) (separator : Rule Unit) (start : Cursor) :
    List α → Cursor → Prop where
  | first {value : α} {stop : Cursor}
      (h : (item start).result = some (value, stop)) :
      OpenRow item separator start [value] stop
  | concat {values : List α} {value : α} {middle stop : Cursor}
      (hrow : OpenRow item separator start values middle)
      (h : ((separator >>= fun _ => item) middle).result = some (value, stop)) :
      OpenRow item separator start (values ++ [value]) stop

theorem Further.openRow {cursor stop : Cursor} {others : List α}
    (h : Further item separator cursor others stop) {start : Cursor}
    {values : List α} (hrow : OpenRow item separator start values cursor) :
    OpenRow item separator start (values ++ others) stop ∧
      ((separator >>= fun _ => item) stop).result = none := by
  induction h generalizing values with
  | done hnone => exact ⟨by rwa [List.append_nil], hnone⟩
  | more hseparator hitem _ ih =>
      rw [List.append_cons]
      apply ih
      apply hrow.concat
      rw [result_bind, hseparator, Option.bind_some, hitem]

theorem OpenRow.separated
    (htakes : (separator >>= fun _ => item).Takes (· ≠ []))
    {start cursor : Cursor} {values : List α}
    (h : OpenRow item separator start values cursor) {stop : Cursor}
    {others : List α} (hothers : Further item separator cursor others stop) :
    (Rule.separated item separator start).result =
      some (values ++ others, stop) := by
  induction h generalizing others with
  | first hitem =>
      exact (separated_eq_some_iff htakes).mpr
        ⟨_, _, others, hitem, hothers, rfl⟩
  | concat _ hstep ih =>
      rw [result_bind, Option.bind_eq_some_iff] at hstep
      obtain ⟨⟨_, middle⟩, hseparator, hitem⟩ := hstep
      rw [List.append_assoc]
      exact ih (.more hseparator hitem hothers)

/-- A row is closed where no further item can be read. -/
theorem separated_eq_some_iff_openRow
    (htakes : (separator >>= fun _ => item).Takes (· ≠ []))
    {start stop : Cursor} {values : List α} :
    (Rule.separated item separator start).result = some (values, stop) ↔
      OpenRow item separator start values stop ∧
        ((separator >>= fun _ => item) stop).result = none := by
  constructor
  · intro h
    obtain ⟨first, next, others, hfirst, hothers, rfl⟩ :=
      (separated_eq_some_iff htakes).mp h
    exact hothers.openRow (.first hfirst)
  · intro h
    have hrow := h.1.separated htakes (.done h.2)
    rwa [List.append_nil] at hrow

theorem eq_some_iff_openRow
    (htakes : (separator >>= fun _ => item).Takes (· ≠ [])) {rule : Rule β}
    {make : List α → Span → β} {items : β → List α} {span : β → Span}
    {start stop : Cursor} {node : β}
    (hmake : ∀ node values covered, node = make values covered ↔
      items node = values ∧ span node = covered)
    (hrule : rule.IsRowOf make item separator) :
    (rule start).result = some (node, stop) ↔
      (OpenRow item separator start (items node) stop ∧
          ((separator >>= fun _ => item) stop).result = none) ∧
        span node = ⟨start.position, stop.position⟩ := by
  rw [← separated_eq_some_iff_openRow htakes, hrule start,
    Option.map_eq_some_iff]
  constructor
  · rintro ⟨⟨values, next⟩, hrow, hpair⟩
    obtain ⟨hnode, rfl⟩ := Prod.mk.inj hpair
    obtain ⟨rfl, hspan⟩ := (hmake _ _ _).mp hnode.symm
    exact ⟨hrow, hspan⟩
  · rintro ⟨hrow, hspan⟩
    have hnode := (hmake node _ _).mpr ⟨rfl, hspan⟩
    exact ⟨_, hrow, congrArg (·, stop) hnode.symm⟩

def Neighbours (item : Rule α) (separator : Rule Unit) (input : List Char)
    (left right : α) : Prop :=
  ∃ start stop middle next : Cursor, stop.IsIn input ∧
    (item start).result = some (left, stop) ∧
    (separator stop).result = some ((), middle) ∧
    (item middle).result = some (right, next)

namespace OpenRow

theorem concat_iff {start stop : Cursor} {values : List α} {value : α}
    (hne : values ≠ []) :
    OpenRow item separator start (values ++ [value]) stop ↔
      ∃ middle, OpenRow item separator start values middle ∧
        ((separator >>= fun _ => item) middle).result = some (value, stop) := by
  constructor
  · intro h
    generalize hall : values ++ [value] = all at h
    cases h with
    | first =>
        obtain ⟨hnil, -⟩ :=
          List.append_inj' (hall.trans (List.nil_append _).symm) rfl
        exact absurd hnil hne
    | concat hrow hstep =>
        obtain ⟨rfl, hlast⟩ := List.append_inj' hall rfl
        cases hlast
        exact ⟨_, hrow, hstep⟩
  · rintro ⟨middle, hrow, hstep⟩
    exact hrow.concat hstep

variable {start stop : Cursor} {values : List α}

theorem exists_first (h : OpenRow item separator start values stop) :
    ∃ first ∈ values.head?,
      ∃ next, (item start).result = some (first, next) := by
  induction h with
  | first hitem => exact ⟨_, rfl, _, hitem⟩
  | concat _ _ ih =>
      obtain ⟨first, hfirst, hitem⟩ := ih
      exact ⟨first, List.mem_head?_append_of_mem_head? hfirst, hitem⟩

theorem exists_last (h : OpenRow item separator start values stop) :
    ∃ earlier last place, values = earlier ++ [last] ∧
      (item place).result = some (last, stop) := by
  cases h with
  | first hitem => exact ⟨[], _, start, rfl, hitem⟩
  | concat hrow hstep =>
      rw [result_bind, Option.bind_eq_some_iff] at hstep
      obtain ⟨⟨_, place⟩, -, hitem⟩ := hstep
      exact ⟨_, _, place, rfl, hitem⟩

variable {form other : List Char → Prop} {input : List Char}

theorem exists_reads (hitem : item.Takes form)
    (hstep : (separator >>= fun _ => item).Takes other)
    (h : OpenRow item separator start values stop) :
    ∃ text, start.Reads text stop := by
  induction h with
  | first h =>
      obtain ⟨text, -, hreads⟩ := hitem h
      exact ⟨text, hreads⟩
  | concat _ h ih =>
      obtain ⟨left, hleft⟩ := ih
      obtain ⟨right, -, hright⟩ := hstep h
      exact ⟨left ++ right, hleft.trans hright⟩

theorem isIn (hitem : item.Takes form)
    (hstep : (separator >>= fun _ => item).Takes other)
    (h : OpenRow item separator start values stop) (hstart : start.IsIn input) :
    stop.IsIn input := by
  obtain ⟨text, hreads⟩ := h.exists_reads hitem hstep
  exact hreads.isIn hstart

theorem exists_of_mem (hitem : item.Takes form)
    (hseparator : separator.Takes other)
    (h : OpenRow item separator start values stop) (hstart : start.IsIn input)
    {value : α} (hvalue : value ∈ values) :
    ∃ place next, place.IsIn input ∧
      (item place).result = some (value, next) := by
  have hstep : (separator >>= fun _ => item).Takes fun _ => True :=
    (hseparator.bind fun _ => hitem).mono fun _ _ => trivial
  induction h with
  | first h =>
      cases List.mem_singleton.mp hvalue
      exact ⟨start, _, hstart, h⟩
  | concat hrow h ih =>
      rcases List.mem_append.mp hvalue with hvalue | hvalue
      · exact ih hvalue
      · cases List.mem_singleton.mp hvalue
        rw [result_bind, Option.bind_eq_some_iff] at h
        obtain ⟨⟨_, place⟩, hbetween, hread⟩ := h
        obtain ⟨_, -, hreads⟩ := hseparator hbetween
        exact ⟨place, _, hreads.isIn (hrow.isIn hitem hstep hstart), hread⟩

theorem isChain (hitem : item.Takes form)
    (hstep : (separator >>= fun _ => item).Takes other)
    (h : OpenRow item separator start values stop) (hstart : start.IsIn input) :
    values.IsChain (Neighbours item separator input) := by
  induction h with
  | first => exact .singleton _
  | concat hrow h ih =>
      obtain ⟨earlier, last, place, rfl, hlast⟩ := hrow.exists_last
      rw [result_bind, Option.bind_eq_some_iff] at h
      obtain ⟨⟨_, middle⟩, hbetween, hread⟩ := h
      have hneighbours : Neighbours item separator input last _ :=
        ⟨place, _, middle, _, hrow.isIn hitem hstep hstart, hlast,
          hbetween, hread⟩
      rw [List.append_assoc, List.singleton_append,
        List.isChain_append_cons_cons]
      exact ⟨ih, hneighbours, .singleton _⟩

end OpenRow

end Rule

/-! The rows of the grammar. -/

namespace Grammar

variable {start stop : Cursor}

theorem orConditions_eq_some_iff {group : OrGroup} :
    (orConditions start).result = some (group, stop) ↔
      (Rule.OpenRow condition orOp start group.conditions stop ∧
        ((orOp >>= fun _ => condition) stop).result = none) ∧
      group.span = ⟨start.position, stop.position⟩ :=
  Rule.eq_some_iff_openRow takes_orOp_condition
    (fun ⟨_, _⟩ _ _ => iff_of_eq (OrGroup.mk.injEq ..)) isRowOf_orConditions

theorem andConditions_eq_some_iff {conditions : Conditions} :
    (andConditions start).result = some (conditions, stop) ↔
      (Rule.OpenRow orConditions andOp start conditions.groups stop ∧
        ((andOp >>= fun _ => orConditions) stop).result = none) ∧
      conditions.span = ⟨start.position, stop.position⟩ :=
  Rule.eq_some_iff_openRow takes_andOp_orConditions
    (fun ⟨_, _⟩ _ _ => iff_of_eq (Conditions.mk.injEq ..)) isRowOf_andConditions

theorem andQueries_eq_some_iff_openRow {tree : SyntaxTree} :
    (andQueries start).result = some (tree, stop) ↔
      ∃ next,
        (Rule.OpenRow andQuery space start tree.groups next ∧
            ((space >>= fun _ => andQuery) next).result = none) ∧
          tree.span = ⟨start.position, next.position⟩ ∧
          stop = next.afterRun isSpace ∧
          stop.rest = [] := by
  simp only [andQueries_eq_some_iff,
    Rule.separated_eq_some_iff_openRow takes_space_andQuery]

end Grammar

end TermSearch
