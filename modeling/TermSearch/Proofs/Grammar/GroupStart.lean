import TermSearch.Proofs.Grammar.ReadBack
import TermSearch.Proofs.Grammar.Row

namespace TermSearch

/-! Where a group starts. A group ends where no condition can be joined to its
last one, so the space after it is followed by fields with their colon, or by
the word `or` with nothing to join. -/

namespace Grammar

theorem exists_first_of_andConditions {start stop : Cursor}
    {conditions : Conditions}
    (h : (andConditions start).result = some (conditions, stop)) :
    ∃ group ∈ conditions.groups.head?, ∃ first ∈ group.conditions.head?,
      ∃ next, (condition start).result = some (first, next) := by
  obtain ⟨⟨hgroups, -⟩, -⟩ := andConditions_eq_some_iff.mp h
  obtain ⟨group, hgroup, _, hread⟩ := hgroups.exists_first
  obtain ⟨⟨hconditions, -⟩, -⟩ := orConditions_eq_some_iff.mp hread
  obtain ⟨first, hfirst, next, hcondition⟩ := hconditions.exists_first
  exact ⟨group, hgroup, first, hfirst, next, hcondition⟩

theorem orOp_condition_of_andConditions {start stop : Cursor}
    {conditions : Conditions}
    (h : (andConditions start).result = some (conditions, stop)) :
    ((orOp >>= fun _ => condition) stop).result = none := by
  obtain ⟨⟨hgroups, -⟩, -⟩ := andConditions_eq_some_iff.mp h
  obtain ⟨_, _, _, -, hlast⟩ := hgroups.exists_last
  obtain ⟨⟨-, hend⟩, -⟩ := orConditions_eq_some_iff.mp hlast
  exact hend

theorem orOp_condition_of_andQuery {start stop : Cursor} {group : QueryGroup}
    (h : (andQuery start).result = some (group, stop)) :
    ((orOp >>= fun _ => condition) stop).result = none := by
  obtain ⟨-, ⟨_, _, -, -, hconditions⟩ | ⟨-, -, hconditions⟩⟩ :=
    andQuery_eq_some_iff.mp h
  · exact orOp_condition_of_andConditions hconditions
  · exact orOp_condition_of_andConditions hconditions

theorem condition_of_or {text : List Char} (htext : Written.IsBoundary text)
    (position : Nat) :
    (condition ⟨position, ['o', 'r'] ++ text⟩).result =
      some (.raw "or" ⟨position, position + 2⟩, ⟨position + 2, text⟩) := by
  have hrest := Written.isTermChar_eq_false_of_isBoundary htext
  refine condition_eq_some_iff.mpr
    ⟨.inr ⟨?_, ?_⟩, Written.not_head?_colon_of_isBoundary htext⟩
  · exact quotedString_eq_none (by simp [IsQuote])
  · rw [rawCondition_eq_some_iff, Cursor.run_mk _ isTermChar_or hrest,
      Cursor.afterRun_mk _ isTermChar_or hrest]
    exact ⟨by simp, by decide, rfl, rfl⟩

/-- Where no condition can be joined, space before a condition is space before
the word `or`, which is that condition since there is nothing that it could
join. -/
theorem looseOr_of_refused {stop middle next : Cursor} {first : Condition}
    (hend : ((orOp >>= fun _ => condition) stop).result = none)
    (hspace : (space stop).result = some ((), middle))
    (hfirst : (condition middle).result = some (first, next)) :
    first = .raw "or" ⟨middle.position, middle.position + 2⟩ ∧
      ∃ blank rest, middle.rest = ['o', 'r'] ++ (blank ++ rest) ∧
        IsBlank blank ∧
        Written.IsSolid rest ∧
        (condition ⟨middle.position + 2 + byteSize blank, rest⟩).result =
          none := by
  rw [Rule.result_bind, result_orOp, hspace, Option.bind_some] at hend
  cases hjoined : (middle.after? ['o', 'r']).bind fun word =>
    (space word).result with
  | none =>
      rw [hjoined, Option.none_or, Option.bind_some, hfirst] at hend
      cases hend
  | some reading =>
      rw [hjoined, Option.some_or, Option.bind_some] at hend
      obtain ⟨word, hword, hafter⟩ := Option.bind_eq_some_iff.mp hjoined
      obtain ⟨hrest, hposition⟩ := Cursor.after?_eq_some_iff.mp hword
      obtain ⟨hblank, hstop⟩ := space_eq_some_iff.mp hafter
      have hgap : IsBlank (word.run isSpace) := ⟨hblank, word.all_run isSpace⟩
      have hboundary :=
        Written.isBoundary_append_of_isBlank hgap (word.afterRun isSpace).rest
      rw [word.run_append_afterRun isSpace] at hboundary
      obtain ⟨position, text⟩ := middle
      subst hrest
      rw [condition_of_or hboundary] at hfirst
      cases hfirst
      refine ⟨rfl, word.run isSpace, (word.afterRun isSpace).rest, ?_, hgap,
        fun c => word.head?_afterRun, ?_⟩
      · rw [word.run_append_afterRun isSpace]
      · rw [hstop] at hend
        rw [← hend, Cursor.afterRun, hposition]
        rfl

theorem span_start_of_andConditions {start stop : Cursor}
    {conditions : Conditions}
    (h : (andConditions start).result = some (conditions, stop)) :
    conditions.span.start = start.position := by
  rw [(andConditions_eq_some_iff.mp h).2]

end Grammar

/-- The group has no fields and starts with the word `or` and with space, after
which there is no condition that the word could join. -/
def QueryGroup.StartsWithLooseOr (input : List Char)
    (group : QueryGroup) : Prop :=
  ∃ before blank rest, input = before ++ (['o', 'r'] ++ (blank ++ rest)) ∧
    IsBlank blank ∧
    Written.IsSolid rest ∧
    (Grammar.condition
        ⟨byteSize (before ++ (['o', 'r'] ++ blank)), rest⟩).result =
      none ∧
    group.span.start = byteSize before ∧
    (group.conditions.groups.head?.bind fun orGroup =>
        orGroup.conditions.head?) =
      some (.raw "or" ⟨byteSize before, byteSize before + 2⟩)

def IsGap (input : List Char) (start stop : Nat) : Prop :=
  Between input start stop fun gap => ∀ c ∈ gap, isSpace c = true

theorem Between.not_isGap {input : List Char} {start stop : Nat}
    {form : List Char → Prop} (h : Between input start stop form)
    (hform : ∀ text, form text → ∃ c ∈ text, isSpace c = false) :
    ¬ IsGap input start stop := by
  intro hgap
  obtain ⟨text, htext, hpart⟩ := h
  obtain ⟨gap, hgapText, hspace⟩ := hgap
  rw [htext, Option.some.injEq] at hgapText
  subst hgapText
  obtain ⟨c, hc, hsolid⟩ := hform text hpart
  rw [hspace c hc] at hsolid
  cases hsolid

/-- A further group has fields before its conditions, or starts with a loose
`or`. -/
theorem Rule.Neighbours.group_start {input : List Char}
    {left right : QueryGroup}
    (h : Rule.Neighbours Grammar.andQuery Grammar.space input left right) :
    (right.fields = none → right.StartsWithLooseOr input) ∧
      (right.fields ≠ none →
        ¬ IsGap input left.span.stop right.conditions.span.start) := by
  obtain ⟨start, stop, middle, next, hstop, hleft, hspace, hright⟩ := h
  obtain ⟨hspan, -⟩ := Grammar.andQuery_eq_some_iff.mp hleft
  obtain ⟨blank, -, hblank⟩ := Grammar.takes_space hspace
  obtain ⟨hright,
    ⟨list, after, hfield, hfields, hconditions⟩ | ⟨-, hfields, hconditions⟩⟩ :=
    Grammar.andQuery_eq_some_iff.mp hright
  · refine ⟨fun hnone => ?_, fun _ => ?_⟩
    · rw [hfields] at hnone
      cases hnone
    · obtain ⟨names, colon, _, hnames, hcolon, rfl, -⟩ :=
        Grammar.field_eq_some_iff.mp hfield
      obtain ⟨text, -, htext⟩ := Grammar.takes_multiField hnames
      have hreads :=
        ((hblank.trans htext).trans hcolon).trans (.afterRun _ isSpace)
      have hbetween : Between input stop.position right.conditions.span.start
          (':' ∈ ·) := by
        rw [Grammar.span_start_of_andConditions hconditions]
        exact ⟨_, hreads.textBetween?_eq hstop, by simp⟩
      rw [hspan]
      exact hbetween.not_isGap fun text hcolon => ⟨':', hcolon, rfl⟩
  · refine ⟨fun _ => ?_, fun hsome => absurd hfields hsome⟩
    obtain ⟨group, hgroup, first, hhead, place, hfirst⟩ :=
      Grammar.exists_first_of_andConditions hconditions
    obtain ⟨hraw, gap, rest, hrest, hgap, hsolid, hrefused⟩ :=
      Grammar.looseOr_of_refused (Grammar.orOp_condition_of_andQuery hleft)
        hspace hfirst
    obtain ⟨before, hinput, hposition⟩ := hblank.isIn hstop
    rw [hposition] at hraw hrefused
    refine ⟨before, gap, rest, by rw [hinput, hrest], hgap, hsolid, ?_, ?_, ?_⟩
    · rw [byteSize_append, byteSize_append, ← Nat.add_assoc]
      exact hrefused
    · rw [hright, hposition]
    · rw [Option.mem_def.mp hgroup, Option.bind_some,
        Option.mem_def.mp hhead, hraw]

/-! The conditions of a tree in the order of the text. -/

def SyntaxTree.orGroups (tree : SyntaxTree) : List OrGroup :=
  tree.groups.flatMap fun group => group.conditions.groups

def SyntaxTree.conditions (tree : SyntaxTree) : List Condition :=
  tree.orGroups.flatMap OrGroup.conditions

theorem isChain_flatMap {R : β → β → Prop} {parts : α → List β}
    {items : List α} (hne : ∀ item ∈ items, parts item ≠ [])
    (hin : ∀ item ∈ items, (parts item).IsChain R)
    (hnext : items.IsChain fun left right =>
      ∀ last ∈ (parts left).getLast?,
        ∀ first ∈ (parts right).head?, R last first) :
    (items.flatMap parts).IsChain R := by
  rw [List.flatMap_def, List.isChain_flatten]
  · exact ⟨by simpa using hin, (List.isChain_map parts).mpr hnext⟩
  · simpa using fun item hitem => hne item hitem

theorem exists_rel_of_mem_tail {R : α → α → Prop} {items : List α}
    (h : items.IsChain R) {right : α} (hright : right ∈ items.tail) :
    ∃ left, R left right := by
  induction h with
  | nil => cases hright
  | singleton => cases hright
  | cons_cons hrel _ ih =>
      rcases List.mem_cons.mp hright with rfl | htail
      · exact ⟨_, hrel⟩
      · exact ih htail

theorem IsRow.start_of_head? {input : List Char}
    {separator : List Char → Prop} {span : Span} {items : List α}
    {spanOf : α → Span} (h : IsRow input separator span (items.map spanOf))
    {first : α} (hfirst : first ∈ items.head?) :
    (spanOf first).start = span.start := by
  have hstart := h.start_eq
  rw [List.head?_map, Option.mem_def.mp hfirst] at hstart
  exact Option.some.inj hstart

theorem IsRow.stop_of_getLast? {input : List Char}
    {separator : List Char → Prop} {span : Span} {items : List α}
    {spanOf : α → Span} (h : IsRow input separator span (items.map spanOf))
    {last : α} (hlast : last ∈ items.getLast?) :
    (spanOf last).stop = span.stop := by
  have hstop := h.stop_eq
  rw [List.getLast?_map, Option.mem_def.mp hlast] at hstop
  exact Option.some.inj hstop

section Leaves

variable {input : List Char}

theorem Conditions.Lossless.isChain_groups {conditions : Conditions}
    (h : conditions.Lossless input) :
    conditions.groups.IsChain fun left right =>
      ¬ IsGap input left.span.stop right.span.start := by
  refine (List.isChain_of_isChain_map OrGroup.span
    (fun left right hbetween => ?_) h.row.separated)
  refine hbetween.not_isGap fun text htext => ?_
  obtain ⟨before, after, -, -, rfl⟩ := htext
  exact ⟨'a', by simp [reservedWord], rfl⟩

variable {tree : SyntaxTree}

theorem isChain_orGroups
    (hgroups : ∀ group ∈ tree.groups, group.Lossless input)
    (hstart : tree.groups.IsChain fun left right =>
      ¬ IsGap input left.span.stop right.conditions.span.start) :
    tree.orGroups.IsChain fun left right =>
      ¬ IsGap input left.span.stop right.span.start := by
  refine isChain_flatMap
    (fun group hgroup => (hgroups group hgroup).conditions.row.ne_nil)
    (fun group hgroup => (hgroups group hgroup).conditions.isChain_groups) ?_
  refine hstart.imp_of_mem_imp
    fun left right hleft hright hnot last hlast first hfirst => ?_
  have hlossless := hgroups left hleft
  rw [hlossless.conditions.row.stop_of_getLast? hlast, hlossless.filled.1,
    (hgroups right hright).conditions.row.start_of_head? hfirst]
  exact hnot

theorem isChain_conditions
    (hgroups : ∀ group ∈ tree.groups, group.Lossless input)
    (hstart : tree.groups.IsChain fun left right =>
      ¬ IsGap input left.span.stop right.conditions.span.start) :
    tree.conditions.IsChain fun left right =>
      IsGap input left.span.stop right.span.start →
      ∃ group ∈ tree.orGroups, [left, right] <:+: group.conditions := by
  have hlossless : ∀ group ∈ tree.orGroups, group.Lossless input := by
    intro group hgroup
    obtain ⟨parent, hparent, hmem⟩ := List.mem_flatMap.mp hgroup
    exact (hgroups parent hparent).conditions.groups group hmem
  refine isChain_flatMap
    (fun group hgroup => (hlossless group hgroup).row.ne_nil)
    (fun group hgroup => ?_) ?_
  · rw [List.isChain_iff_forall_rel_of_append_cons_cons]
    intro left right before after hsplit _
    exact ⟨group, hgroup, before, after, by simp [hsplit]⟩
  · refine (isChain_orGroups hgroups hstart).imp_of_mem_imp ?_
    intro left right hleft hright hnot last hlast first hfirst hgap
    rw [(hlossless left hleft).row.stop_of_getLast? hlast,
      (hlossless right hright).row.start_of_head? hfirst] at hgap
    exact absurd hgap hnot

theorem QueryGroup.StartsWithLooseOr.mem_conditions {group : QueryGroup}
    (h : group.StartsWithLooseOr input) (hgroup : group ∈ tree.groups) :
    ∃ span, .raw "or" span ∈ tree.conditions := by
  obtain ⟨before, -, -, -, -, -, -, -, hfirst⟩ := h
  obtain ⟨orGroup, horGroup, hhead⟩ := Option.bind_eq_some_iff.mp hfirst
  refine ⟨_, List.mem_flatMap.mpr ⟨orGroup, ?_, List.mem_of_head? hhead⟩⟩
  exact List.mem_flatMap.mpr ⟨group, hgroup, List.mem_of_head? horGroup⟩

end Leaves

theorem isChain_of_parse {input : String} {tree : SyntaxTree}
    (h : SyntaxTree.parse input = .ok tree) :
    tree.groups.IsChain
      (Rule.Neighbours Grammar.andQuery Grammar.space input.toList) := by
  obtain ⟨stop, hresult⟩ := Grammar.parse_eq_ok_iff.mp h
  obtain ⟨_, ⟨hgroups, -⟩, -⟩ :=
    Grammar.andQueries_eq_some_iff_openRow.mp hresult
  exact hgroups.isChain Grammar.takes_andQuery Grammar.takes_space_andQuery
    (Cursor.isIn_ofText input)

/-- A further group without fields starts with a loose `or`. Where the unquoted
word is no condition, every further group has fields, and conditions with only
space between them are in one or-group. -/
theorem group_start_of_parse {input : String} {tree : SyntaxTree}
    (h : SyntaxTree.parse input = .ok tree) :
    (∀ group ∈ tree.groups.tail, group.fields = none →
        group.StartsWithLooseOr input.toList) ∧
      ((∀ span, .raw "or" span ∉ tree.conditions) →
        (∀ group ∈ tree.groups.tail, group.fields ≠ none) ∧
          ∀ left right, [left, right] <:+: tree.conditions →
            IsGap input.toList left.span.stop right.span.start →
            ∃ group ∈ tree.orGroups, [left, right] <:+: group.conditions) := by
  have hchain := isChain_of_parse h
  have hloose : ∀ group ∈ tree.groups.tail, group.fields = none →
      group.StartsWithLooseOr input.toList := by
    intro group hgroup
    obtain ⟨left, hneighbours⟩ := exists_rel_of_mem_tail hchain hgroup
    exact hneighbours.group_start.1
  refine ⟨hloose, fun hnone => ?_⟩
  have hfields : ∀ group ∈ tree.groups.tail, group.fields ≠ none := by
    intro group hgroup hempty
    obtain ⟨span, hmem⟩ :=
      (hloose group hgroup hempty).mem_conditions (List.mem_of_mem_tail hgroup)
    exact hnone span hmem
  have hstart :=
    hchain.imp_of_mem_tail_imp fun left right _ hright hneighbours =>
    hneighbours.group_start.2 (hfields right hright)
  obtain ⟨stop, hresult⟩ := Grammar.parse_eq_ok_iff.mp h
  obtain ⟨-, -, hgroups, -⟩ :=
    Grammar.andQueries_lossless (Cursor.isIn_ofText input) hresult
  refine ⟨hfields, fun left right hinfix hgap => ?_⟩
  obtain ⟨before, after, hsplit⟩ := hinfix
  have hjoined := List.isChain_iff_forall_rel_of_append_cons_cons.mp
    (isChain_conditions hgroups hstart)
  exact hjoined (by simpa using hsplit.symm) hgap

/-- An `or` before fields joins nothing, and a quoted one is a condition like
others. -/
theorem group_start_of_parse_loose_and_quoted :
    (∃ tree, SyntaxTree.parse "a or f:b" = .ok tree ∧
      ∃ group ∈ tree.groups.tail, group.fields = none ∧
        group.StartsWithLooseOr "a or f:b".toList) ∧
    ∃ tree, SyntaxTree.parse "é f:b \"or\"" = .ok tree ∧
      (∀ span, .raw "or" span ∉ tree.conditions) ∧
      (∀ group ∈ tree.groups.tail, group.fields ≠ none) ∧
      ∃ group ∈ tree.orGroups,
        [.raw "b" ⟨5, 6⟩, .quoted "or" '"' ⟨7, 11⟩] <:+: group.conditions := by
  have hloose : SyntaxTree.parse "a or f:b" = .ok
      ⟨[⟨none, ⟨[⟨[.raw "a" ⟨0, 1⟩], ⟨0, 1⟩⟩], ⟨0, 1⟩⟩, ⟨0, 1⟩⟩,
        ⟨none, ⟨[⟨[.raw "or" ⟨2, 4⟩], ⟨2, 4⟩⟩], ⟨2, 4⟩⟩, ⟨2, 4⟩⟩,
        ⟨some ⟨[⟨"f", ⟨5, 6⟩⟩], ⟨5, 7⟩⟩,
          ⟨[⟨[.raw "b" ⟨7, 8⟩], ⟨7, 8⟩⟩], ⟨7, 8⟩⟩, ⟨5, 8⟩⟩], ⟨0, 8⟩⟩ := by
    decide +kernel
  have hquoted : SyntaxTree.parse "é f:b \"or\"" =
      .ok ⟨[⟨none, ⟨[⟨[.raw "é" ⟨0, 2⟩], ⟨0, 2⟩⟩], ⟨0, 2⟩⟩, ⟨0, 2⟩⟩,
        ⟨some ⟨[⟨"f", ⟨3, 4⟩⟩], ⟨3, 5⟩⟩,
          ⟨[⟨[.raw "b" ⟨5, 6⟩, .quoted "or" '"' ⟨7, 11⟩], ⟨5, 11⟩⟩], ⟨5, 11⟩⟩,
          ⟨3, 11⟩⟩], ⟨0, 11⟩⟩ := by
    decide +kernel
  refine ⟨⟨_, hloose, _, .head _, rfl,
    (group_start_of_parse hloose).1 _ (.head _) rfl⟩, _, hquoted, ?_⟩
  have hnone : ∀ span, Condition.raw "or" span ∉
      [.raw "é" ⟨0, 2⟩, .raw "b" ⟨5, 6⟩, .quoted "or" '"' ⟨7, 11⟩] := by
    simp
  obtain ⟨hfields, hjoined⟩ := (group_start_of_parse hquoted).2 hnone
  refine ⟨hnone, hfields, hjoined _ _ ⟨[.raw "é" ⟨0, 2⟩], [], rfl⟩ ?_⟩
  exact ⟨[' '], by decide, by simp [isSpace]⟩

end TermSearch
