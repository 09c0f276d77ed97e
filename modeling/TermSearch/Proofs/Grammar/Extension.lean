import TermSearch.Proofs.Grammar.ReadBack
import TermSearch.Proofs.Grammar.Row

namespace TermSearch

/-! Space after a text. A rule is steady at a place if it reads the same from
there when space is written after the text. Up to conditions and field names
every rule is steady; from there on it matters whether the space that a rule
reads ends before the text does. -/

namespace Cursor

variable {more : List Char}

/-- Space ends a run of other characters, as the end of the text does. -/
theorem run_extend_of_isBoundary {allowed : Char → Bool}
    (hmore : Written.IsBoundary more)
    (hallowed : ∀ c, isSpace c = true → allowed c = false) (cursor : Cursor) :
    (cursor.extend more).run allowed = cursor.run allowed ∧
      (cursor.extend more).afterRun allowed =
        (cursor.afterRun allowed).extend more := by
  by_cases h : (cursor.afterRun allowed).rest = []
  · apply run_extend
    rw [h, List.nil_append]
    exact fun c hc => hallowed c (hmore c hc)
  · exact run_extend_of_ne_nil h more

theorem after?_extend {word : List Char} (hmore : Written.IsBoundary more)
    (hword : ∀ c ∈ word, isSpace c = false) (cursor : Cursor) :
    (cursor.extend more).after? word =
      (cursor.after? word).map (·.extend more) := by
  cases hafter : cursor.after? word with
  | some stop =>
      exact after?_eq_some_iff.mpr ((after?_eq_some_iff.mp hafter).extend more)
  | none =>
      rw [after?_eq_none_iff] at hafter
      rw [Option.map_none, after?_eq_none_iff]
      intro hprefix
      rcases List.prefix_or_prefix_of_prefix hprefix
        (List.prefix_append cursor.rest more) with
        hinside | ⟨beyond, rfl⟩
      · exact hafter hinside
      · cases beyond with
        | nil => exact hafter (by simp)
        | cons c beyond =>
            obtain ⟨rest, hrest⟩ := (List.prefix_append_right_inj _).mp hprefix
            have hspace := hmore c (by simp [← hrest])
            rw [hword c (by simp)] at hspace
            cases hspace

theorem head?_extend_eq_some_iff {c : Char} (hmore : Written.IsBoundary more)
    (hc : isSpace c = false) (cursor : Cursor) :
    (cursor.extend more).rest.head? = some c ↔ cursor.rest.head? = some c := by
  cases hrest : cursor.rest with
  | nil =>
      have hhead : more.head? ≠ some c := fun hhead => by
        have hspace := hmore c hhead
        rw [hc] at hspace
        cases hspace
      simp [hrest, hhead]
  | cons d rest => simp [hrest]

end Cursor

namespace Rule

def IsSteadyAt (rule : Rule α) (gap : List Char) (cursor : Cursor) : Prop :=
  (rule (cursor.extend gap)).result =
    (rule cursor).result.map fun reading => (reading.1, reading.2.extend gap)

namespace IsSteadyAt

variable {gap : List Char} {cursor : Cursor}

theorem eq_none {rule : Rule α} (h : rule.IsSteadyAt gap cursor)
    (hnone : (rule cursor).result = none) :
    (rule (cursor.extend gap)).result = none := by
  rw [h, hnone, Option.map_none]

theorem eq_some {rule : Rule α} (h : rule.IsSteadyAt gap cursor) {value : α}
    {stop : Cursor} (hsome : (rule cursor).result = some (value, stop)) :
    (rule (cursor.extend gap)).result = some (value, stop.extend gap) := by
  rw [h, hsome, Option.map_some]

theorem of_eq_none {rule : Rule α} (h : (rule cursor).result = none)
    (hextend : (rule (cursor.extend gap)).result = none) :
    rule.IsSteadyAt gap cursor := by
  rw [IsSteadyAt, h, hextend, Option.map_none]

theorem of_result_eq {rule source : Rule α}
    (h : ∀ cursor, (rule cursor).result = (source cursor).result)
    (hsource : source.IsSteadyAt gap cursor) : rule.IsSteadyAt gap cursor := by
  rw [IsSteadyAt, h, h, hsource]

theorem bind {first : Rule α} {next : α → Rule β}
    (hfirst : first.IsSteadyAt gap cursor)
    (hnext : ∀ value stop, (first cursor).result = some (value, stop) →
      (next value).IsSteadyAt gap stop) :
    (first >>= next).IsSteadyAt gap cursor := by
  rw [IsSteadyAt, result_bind, result_bind, hfirst]
  cases hresult : (first cursor).result with
  | none => rfl
  | some reading => exact hnext reading.1 reading.2 hresult

theorem literal {word : List Char} (hgap : IsBlank gap)
    (hword : ∀ c ∈ word, isSpace c = false) (expected : String) :
    (Rule.literal word expected).IsSteadyAt gap cursor := by
  rw [IsSteadyAt, result_literal, result_literal,
    Cursor.after?_extend (Written.isBoundary_of_isBlank hgap) hword]
  cases cursor.after? word <;> rfl

end IsSteadyAt

section Rows

variable {item : Rule α} {separator : Rule Unit}

theorem IsSteadyAt.separated
    (htakes : (separator >>= fun _ => item).Takes (· ≠ [])) {gap : List Char}
    (hitem : ∀ cursor, item.IsSteadyAt gap cursor)
    (hstep : ∀ cursor, (separator >>= fun _ => item).IsSteadyAt gap cursor)
    (cursor : Cursor) :
    (Rule.separated item separator).IsSteadyAt gap cursor := by
  cases hresult : (Rule.separated item separator cursor).result with
  | none =>
      have hnone := (hitem cursor).eq_none (separated_eq_none_iff.mp hresult)
      exact .of_eq_none hresult (separated_eq_none_iff.mpr hnone)
  | some reading =>
      obtain ⟨values, stop⟩ := reading
      obtain ⟨hrow, hend⟩ := (separated_eq_some_iff_openRow htakes).mp hresult
      have hextend : OpenRow item separator (cursor.extend gap) values
          (stop.extend gap) := by
        clear hresult hend
        induction hrow with
        | first h => exact .first ((hitem _).eq_some h)
        | concat _ h ih => exact ih.concat ((hstep _).eq_some h)
      rw [IsSteadyAt, hresult, Option.map_some]
      exact (separated_eq_some_iff_openRow htakes).mpr
        ⟨hextend, (hstep _).eq_none hend⟩

end Rows

end Rule

namespace Grammar

variable {gap : List Char}

theorem isSteadyAt_identifier (hgap : IsBlank gap) (cursor : Cursor) :
    identifier.IsSteadyAt gap cursor := by
  obtain ⟨hrun, hafter⟩ := Cursor.run_extend_of_isBoundary
    (Written.isBoundary_of_isBlank hgap)
    (fun _ => isIdentifierChar_eq_false_of_isSpace) cursor
  rw [Rule.IsSteadyAt, result_identifier, result_identifier, hrun, hafter]
  split <;> rfl

theorem isSteadyAt_multiField (hgap : IsBlank gap) (cursor : Cursor) :
    multiField.IsSteadyAt gap cursor :=
  .separated takes_comma_identifier (isSteadyAt_identifier hgap)
    (fun _ => .bind (.literal hgap (by simp [isSpace]) _) fun _ _ _ =>
      isSteadyAt_identifier hgap _) cursor

theorem field_extend_eq_none (hgap : IsBlank gap) {cursor : Cursor}
    (h : (field cursor).result = none) :
    (field (cursor.extend gap)).result = none := by
  rw [result_field] at h ⊢
  rw [isSteadyAt_multiField hgap cursor]
  cases hnames : (multiField cursor).result with
  | none => rfl
  | some reading =>
      rw [hnames, Option.bind_some, Option.map_eq_none_iff] at h
      rw [Option.map_some, Option.bind_some, Cursor.after?_extend
        (Written.isBoundary_of_isBlank hgap) (by simp [isSpace]), h]
      rfl

theorem field_extend_eq_some (hgap : IsBlank gap) {cursor stop : Cursor}
    {list : FieldList} (h : (field cursor).result = some (list, stop))
    (hstop : stop.rest ≠ []) :
    (field (cursor.extend gap)).result = some (list, stop.extend gap) := by
  obtain ⟨names, next, colon, hnames, hcolon, rfl, rfl⟩ :=
    field_eq_some_iff.mp h
  refine field_eq_some_iff.mpr ⟨names, next.extend gap, colon.extend gap,
    (isSteadyAt_multiField hgap cursor).eq_some hnames,
    hcolon.extend gap, ?_, rfl⟩
  exact (Cursor.run_extend_of_ne_nil hstop gap).2.symm

/-- No quote is closed in the space. -/
theorem exists_rest_of_quoted (hgap : IsBlank gap)
    {text before rest : List Char} {quote : Char} (hquote : IsQuote quote)
    (h : text ++ gap = (before ++ [quote]) ++ rest) :
    ∃ right, text = (before ++ [quote]) ++ right := by
  rcases List.append_eq_append_iff.mp h with
    ⟨more, hsplit, hmore⟩ | ⟨right, hright, -⟩
  · refine ⟨[], ?_⟩
    rcases List.eq_nil_or_concat more with rfl | ⟨init, last, rfl⟩
    · rw [hsplit, List.append_nil, List.append_nil]
    · rw [List.concat_eq_append, ← List.append_assoc] at hsplit
      obtain ⟨-, hlast⟩ := List.append_inj' hsplit rfl
      cases hlast
      have hspace := hgap.2 quote (by simp [hmore])
      rcases hquote with rfl | rfl <;> cases hspace
  · exact ⟨right, hright⟩

theorem isSteadyAt_quotedString (hgap : IsBlank gap) (cursor : Cursor) :
    quotedString.IsSteadyAt gap cursor := by
  cases hresult : (quotedString cursor).result with
  | some reading =>
      rw [Rule.IsSteadyAt, hresult, Option.map_some]
      obtain ⟨quote, body, text, hquote, hbody, hreads, hcondition⟩ :=
        quotedString_eq_some_iff.mp hresult
      exact quotedString_eq_some_iff.mpr
        ⟨quote, body, text, hquote, hbody, hreads.extend gap, hcondition⟩
  | none =>
      refine .of_eq_none hresult ?_
      rw [Option.eq_none_iff_forall_ne_some]
      rintro ⟨condition, stop⟩ hextend
      obtain ⟨quote, body, text, hquote, hbody, hreads, -⟩ :=
        quotedString_eq_some_iff.mp hextend
      have hrest := hreads.rest
      rw [← List.append_assoc] at hrest
      obtain ⟨right, hright⟩ := exists_rest_of_quoted hgap hquote hrest
      rw [List.append_assoc [quote]] at hright
      have hreads' : cursor.Reads ([quote] ++ (body ++ [quote]))
          ⟨cursor.position + byteSize ([quote] ++ (body ++ [quote])), right⟩ :=
        ⟨hright, rfl⟩
      have hread := quotedString_eq_some_iff.mpr
        ⟨quote, body, text, hquote, hbody, hreads', rfl⟩
      rw [hresult] at hread
      cases hread

theorem isSteadyAt_rawCondition (hgap : IsBlank gap) (cursor : Cursor) :
    rawCondition.IsSteadyAt gap cursor := by
  obtain ⟨hrun, hafter⟩ :=
    Cursor.run_extend_of_isBoundary (Written.isBoundary_of_isBlank hgap)
      (fun _ => isTermChar_eq_false_of_isSpace) cursor
  rw [Rule.IsSteadyAt, result_rawCondition, result_rawCondition, hrun, hafter]
  split <;> rfl

theorem isSteadyAt_condition (hgap : IsBlank gap) (cursor : Cursor) :
    condition.IsSteadyAt gap cursor := by
  rw [Rule.IsSteadyAt, result_condition,
    result_condition, isSteadyAt_quotedString hgap cursor,
    isSteadyAt_rawCondition hgap cursor, ← Option.map_or]
  cases (quotedString cursor).result.or (rawCondition cursor).result with
  | none => rfl
  | some reading =>
      have hcolon := Cursor.head?_extend_eq_some_iff (c := ':')
        (Written.isBoundary_of_isBlank hgap) (by decide) reading.2
      simp only [Option.map_some, Option.filter, bne_iff_ne, ne_eq, hcolon]
      split <;> rfl

/-! Space between words and conditions. -/

theorem isSteadyAt_space {cursor : Cursor}
    (h : (cursor.afterRun isSpace).rest ≠ []) (gap : List Char) :
    space.IsSteadyAt gap cursor := by
  obtain ⟨hrun, hafter⟩ := cursor.run_extend_of_ne_nil h gap
  rw [Rule.IsSteadyAt, result_space, result_space, hrun, hafter]
  split <;> rfl

/-- Where only space is left, nothing can be read behind it, with more space or
without. -/
theorem isSteadyAt_of_refuses {rule : Rule α} (hgap : IsBlank gap)
    (hrule : ∀ space : Written.Gap, rule.Refuses space.text) {cursor : Cursor}
    (h : (cursor.afterRun isSpace).rest = []) : rule.IsSteadyAt gap cursor := by
  have hspace : ∀ c ∈ cursor.rest, isSpace c = true :=
    List.dropWhile_eq_nil_iff.mp h
  have hextend : ∀ c ∈ cursor.rest ++ gap, isSpace c = true :=
    List.forall_mem_append.mpr ⟨hspace, hgap.2⟩
  exact .of_eq_none (hrule ⟨cursor.rest, hspace⟩ cursor.position)
    (hrule ⟨cursor.rest ++ gap, hextend⟩ cursor.position)

theorem isSteadyAt_space_bind (hgap : IsBlank gap) {rule : Rule α}
    (hnil : rule.Refuses []) (hrule : ∀ cursor, rule.IsSteadyAt gap cursor)
    (cursor : Cursor) : (space >>= fun _ => rule).IsSteadyAt gap cursor := by
  by_cases h : (cursor.afterRun isSpace).rest = []
  · exact isSteadyAt_of_refuses hgap
      (fun space => space.space_bind_refuses hnil) h
  · exact (isSteadyAt_space h gap).bind fun _ stop _ => hrule stop

theorem isSteadyAt_spacedWord_bind (hgap : IsBlank gap) {word : List Char}
    (hword : ∀ c ∈ word, isSpace c = false) (hne : word ≠ [])
    (expected : String) {rule : Rule α} (hnil : rule.Refuses [])
    (hrule : ∀ cursor, rule.IsSteadyAt gap cursor) (cursor : Cursor) :
    ((do space; Rule.literal word expected; space : Rule Unit) >>=
      fun _ => rule).IsSteadyAt gap cursor := by
  have hafter : (Rule.literal word expected >>=
      fun _ => space >>= fun _ => rule).Refuses [] := by
    refine Rule.Refuses.bind fun position => ?_
    rw [Rule.result_literal, Cursor.after?_eq_none_iff.mpr (by simpa using hne),
      Option.map_none]
  refine Rule.IsSteadyAt.of_result_eq ?_
    (isSteadyAt_space_bind hgap hafter (fun cursor => ?_) cursor)
  · intro cursor
    simp only [Rule.result_bind, Option.bind_assoc]
  · exact (Rule.IsSteadyAt.literal hgap hword expected).bind
      fun _ stop _ => isSteadyAt_space_bind hgap hnil hrule stop

end Grammar

end TermSearch
