import TermSearch.Grammar.Production

namespace TermSearch

/-! What rules read, apart from the attempts that they note. The result of a
combined rule is given by the results of its parts, and every reading is tied to
the text that lies between the place where it starts and the place where it
stops. -/

namespace Cursor

structure Reads (start : Cursor) (text : List Char) (stop : Cursor) : Prop where
  rest : start.rest = text ++ stop.rest
  position : stop.position = start.position + byteSize text

namespace Reads

theorem refl (cursor : Cursor) : cursor.Reads [] cursor := ⟨rfl, rfl⟩

theorem trans {start middle stop : Cursor} {left right : List Char}
    (hleft : start.Reads left middle) (hright : middle.Reads right stop) :
    start.Reads (left ++ right) stop := by
  constructor
  · rw [hleft.rest, hright.rest, List.append_assoc]
  · rw [hright.position, hleft.position, byteSize_append, Nat.add_assoc]

theorem afterRun (cursor : Cursor) (allowed : Char → Bool) :
    cursor.Reads (cursor.run allowed) (cursor.afterRun allowed) :=
  ⟨(cursor.run_append_afterRun allowed).symm, rfl⟩

theorem length_rest {start stop : Cursor} {text : List Char}
    (h : start.Reads text stop) :
    start.rest.length = text.length + stop.rest.length := by
  rw [h.rest, List.length_append]

end Reads

theorem after?_eq_some_iff {cursor stop : Cursor} {word : List Char} :
    cursor.after? word = some stop ↔ cursor.Reads word stop := by
  unfold after?
  constructor
  · intro h
    split at h
    · rename_i hword
      obtain ⟨rest, hrest⟩ := List.isPrefixOf_iff_prefix.mp hword
      cases h
      exact ⟨by simp [← hrest], rfl⟩
    · exact absurd h (by simp)
  · intro h
    have hword : word.isPrefixOf cursor.rest := by
      rw [h.rest]
      exact List.isPrefixOf_iff_prefix.mpr ⟨stop.rest, rfl⟩
    rw [if_pos hword, Option.some.injEq, h.rest, List.drop_left, ← h.position]

theorem after?_eq_none_iff {cursor : Cursor} {word : List Char} :
    cursor.after? word = none ↔ ¬ word <+: cursor.rest := by
  unfold after?
  rw [← List.isPrefixOf_iff_prefix]
  split <;> simp [*]

theorem all_run (cursor : Cursor) (allowed : Char → Bool) :
    ∀ c ∈ cursor.run allowed, allowed c = true :=
  List.all_eq_true.mp List.all_takeWhile

theorem head?_afterRun (cursor : Cursor) {allowed : Char → Bool} {c : Char}
    (h : c ∈ (cursor.afterRun allowed).rest.head?) : allowed c = false := by
  have hhead := List.head?_dropWhile_not allowed cursor.rest
  rwa [show (cursor.rest.dropWhile allowed).head? = some c from h] at hhead

theorem afterRun_eq_self (cursor : Cursor) {allowed : Char → Bool}
    (h : cursor.run allowed = []) : cursor.afterRun allowed = cursor := by
  have happend := cursor.run_append_afterRun allowed
  rw [h, List.nil_append] at happend
  exact congr (congrArg Cursor.mk (by simp [h])) happend

theorem run_mk (position : Nat) {text rest : List Char}
    {allowed : Char → Bool} (htext : ∀ c ∈ text, allowed c = true)
    (hrest : ∀ c ∈ rest.head?, allowed c = false) :
    (Cursor.mk position (text ++ rest)).run allowed = text := by
  unfold run
  rw [List.takeWhile_append_of_pos htext]
  cases rest with
  | nil => simp
  | cons c rest => simp [hrest c rfl]

theorem afterRun_mk (position : Nat) {text rest : List Char}
    {allowed : Char → Bool} (htext : ∀ c ∈ text, allowed c = true)
    (hrest : ∀ c ∈ rest.head?, allowed c = false) :
    (Cursor.mk position (text ++ rest)).afterRun allowed =
      ⟨position + byteSize text, rest⟩ := by
  unfold afterRun
  rw [run_mk position htext hrest, List.dropWhile_append_of_pos htext]
  cases rest with
  | nil => simp
  | cons c rest => simp [hrest c rfl]

def extend (cursor : Cursor) (more : List Char) : Cursor :=
  ⟨cursor.position, cursor.rest ++ more⟩

@[simp] theorem rest_extend (cursor : Cursor) (more : List Char) :
    (cursor.extend more).rest = cursor.rest ++ more := rfl

theorem Reads.extend {start stop : Cursor} {text : List Char}
    (h : start.Reads text stop) (more : List Char) :
    (start.extend more).Reads text (stop.extend more) :=
  ⟨by rw [rest_extend, h.rest, List.append_assoc, rest_extend], h.position⟩

theorem run_extend {cursor : Cursor} {allowed : Char → Bool}
    {more : List Char}
    (h : ∀ c ∈ ((cursor.afterRun allowed).rest ++ more).head?,
      allowed c = false) :
    (cursor.extend more).run allowed = cursor.run allowed ∧
      (cursor.extend more).afterRun allowed =
        (cursor.afterRun allowed).extend more := by
  have hextend : cursor.extend more = ⟨cursor.position,
      cursor.run allowed ++ ((cursor.afterRun allowed).rest ++ more)⟩ := by
    rw [← List.append_assoc, run_append_afterRun]
    rfl
  rw [hextend, run_mk _ (cursor.all_run allowed) h,
    afterRun_mk _ (cursor.all_run allowed) h]
  exact ⟨rfl, rfl⟩

theorem run_extend_of_ne_nil {cursor : Cursor} {allowed : Char → Bool}
    (h : (cursor.afterRun allowed).rest ≠ []) (more : List Char) :
    (cursor.extend more).run allowed = cursor.run allowed ∧
      (cursor.extend more).afterRun allowed =
        (cursor.afterRun allowed).extend more := by
  apply run_extend
  intro c hc
  obtain ⟨d, rest, hrest⟩ := List.exists_cons_of_ne_nil h
  rw [hrest] at hc
  apply cursor.head?_afterRun
  rwa [hrest]

end Cursor

namespace Rule

theorem result_bind (first : Rule α) (next : α → Rule β) (cursor : Cursor) :
    ((first >>= next) cursor).result =
      (first cursor).result.bind fun reading =>
        (next reading.1 reading.2).result :=
  result_andThen first next cursor

theorem result_choice (first second : Rule α) (cursor : Cursor) :
    ((first <|> second) cursor).result =
      (first cursor).result.or (second cursor).result :=
  result_orElse first (fun _ => second) cursor

theorem result_map (change : α → β) (rule : Rule α) (cursor : Cursor) :
    ((change <$> rule) cursor).result =
      (rule cursor).result.map fun reading =>
        (change reading.1, reading.2) := by
  change ((rule >>= fun value => pure (change value)) cursor).result = _
  rw [result_bind]
  cases (rule cursor).result <;> rfl

theorem result_optional (rule : Rule α) (cursor : Cursor) :
    (rule.optional cursor).result =
      some ((rule cursor).result.elim (none, cursor) fun reading =>
        (some reading.1, reading.2)) := by
  unfold optional
  rw [result_choice, result_map]
  cases (rule cursor).result <;> rfl

theorem result_literal (word : List Char) (expected : String)
    (cursor : Cursor) :
    (literal word expected cursor).result =
      (cursor.after? word).map fun stop => ((), stop) := by
  unfold literal
  cases cursor.after? word <;> rfl

@[simp] theorem result_upcoming (cursor : Cursor) :
    (upcoming cursor).result = some (cursor.rest, cursor) := rfl

@[simp] theorem result_run (allowed : Char → Bool) (cursor : Cursor) :
    (run allowed cursor).result =
      some (cursor.run allowed, cursor.afterRun allowed) := rfl

end Rule

/-! A rule takes texts of a form if every text that it reads has that form. -/

def Rule.Takes (rule : Rule α) (form : List Char → Prop) : Prop :=
  ∀ ⦃start : Cursor⦄ ⦃value : α⦄ ⦃stop : Cursor⦄,
    (rule start).result = some (value, stop) →
    ∃ text, form text ∧ start.Reads text stop

namespace Rule.Takes

variable {form other : List Char → Prop}

theorem mono {rule : Rule α} (hrule : rule.Takes form)
    (h : ∀ text, form text → other text) : rule.Takes other := by
  intro start value stop hresult
  obtain ⟨text, htext, hreads⟩ := hrule hresult
  exact ⟨text, h text htext, hreads⟩

theorem of_result_map {rule : Rule α} {source : Rule β}
    (hsource : source.Takes form) {change : Cursor → β × Cursor → α}
    (h : ∀ cursor, (rule cursor).result =
      (source cursor).result.map fun reading =>
        (change cursor reading, reading.2)) :
    rule.Takes form := by
  intro start value stop hresult
  rw [h, Option.map_eq_some_iff] at hresult
  obtain ⟨reading, hreading, hpair⟩ := hresult
  cases hpair
  exact hsource hreading

theorem literal (word : List Char) (expected : String) :
    (Rule.literal word expected).Takes (· = word) := by
  intro start value stop hresult
  rw [result_literal, Option.map_eq_some_iff] at hresult
  obtain ⟨_, hstop, hpair⟩ := hresult
  cases hpair
  exact ⟨word, rfl, Cursor.after?_eq_some_iff.mp hstop⟩

theorem choice {first second : Rule α} (hfirst : first.Takes form)
    (hsecond : second.Takes form) : (first <|> second).Takes form := by
  intro start value stop hresult
  rw [result_choice, Option.or_eq_some_iff] at hresult
  rcases hresult with hresult | ⟨-, hresult⟩
  · exact hfirst hresult
  · exact hsecond hresult

theorem bind {first : Rule α} {next : α → Rule β} (hfirst : first.Takes form)
    (hnext : ∀ value, (next value).Takes other) :
    (first >>= next).Takes fun text =>
      ∃ left right, form left ∧ other right ∧ text = left ++ right := by
  intro start value stop hresult
  rw [result_bind, Option.bind_eq_some_iff] at hresult
  obtain ⟨⟨taken, middle⟩, hleft, hright⟩ := hresult
  obtain ⟨left, hformLeft, hreadsLeft⟩ := hfirst hleft
  obtain ⟨right, hformRight, hreadsRight⟩ := hnext taken hright
  exact ⟨left ++ right, ⟨left, right, hformLeft, hformRight, rfl⟩,
    hreadsLeft.trans hreadsRight⟩

theorem bind_ne_nil {first : Rule α} {next : α → Rule β}
    (hfirst : first.Takes (· ≠ []))
    (hnext : ∀ value, (next value).Takes fun _ => True) :
    (first >>= next).Takes (· ≠ []) := by
  refine (hfirst.bind hnext).mono ?_
  intro text h
  obtain ⟨left, right, hleft, -, rfl⟩ := h
  simp [hleft]

end Rule.Takes

namespace Rule

/-! The items after the first one of a separated row. The row ends where no
separator with an item after it can be read. -/

inductive Further (item : Rule α) (separator : Rule Unit) :
    Cursor → List α → Cursor → Prop where
  | done {cursor : Cursor}
      (hnone : ((separator >>= fun _ => item) cursor).result = none) :
      Further item separator cursor [] cursor
  | more {cursor middle next stop : Cursor} {value : α} {values : List α}
      (hseparator : (separator cursor).result = some ((), middle))
      (hitem : (item middle).result = some (value, next))
      (hmore : Further item separator next values stop) :
      Further item separator cursor (value :: values) stop

section Separated

variable {item : Rule α} {separator : Rule Unit}

theorem furtherItems_of_none {cursor : Cursor}
    (h : ((separator >>= fun _ => item) cursor).result = none) :
    furtherItems item separator cursor =
      (([], cursor), ((separator >>= fun _ => item) cursor).attempts) := by
  rw [furtherItems]
  rw [bind_eq_andThen] at h ⊢
  split
  · simp [*]
  · simp_all

theorem furtherItems_of_some
    (htakes : (separator >>= fun _ => item).Takes (· ≠ []))
    {cursor stop : Cursor} {value : α}
    (h : ((separator >>= fun _ => item) cursor).result = some (value, stop)) :
    furtherItems item separator cursor =
      ((value :: (furtherItems item separator stop).1.1,
        (furtherItems item separator stop).1.2),
        ((separator >>= fun _ => item) cursor).attempts ++
          (furtherItems item separator stop).2) := by
  obtain ⟨text, htext, hreads⟩ := htakes h
  have hshorter : stop.rest.length < cursor.rest.length := by
    rw [hreads.length_rest]
    exact Nat.lt_add_of_pos_left (List.length_pos_iff.mpr htext)
  rw [furtherItems]
  rw [bind_eq_andThen] at h ⊢
  split
  · simp_all
  · rename_i hstep
    rw [hstep] at h
    cases h
    rw [if_pos hshorter, hstep]

theorem further_furtherItems
    (htakes : (separator >>= fun _ => item).Takes (· ≠ [])) (cursor : Cursor) :
    Further item separator cursor (furtherItems item separator cursor).1.1
      (furtherItems item separator cursor).1.2 := by
  fun_induction furtherItems item separator cursor with
  | case1 cursor attempts hstep => exact .done (by rw [bind_eq_andThen, hstep])
  | case2 cursor value stop attempts hstep hshorter more ih =>
      have hresult : ((separator >>= fun _ => item) cursor).result =
          some (value, stop) := by
        rw [bind_eq_andThen, hstep]
      rw [result_bind, Option.bind_eq_some_iff] at hresult
      obtain ⟨⟨_, middle⟩, hseparator, hitem⟩ := hresult
      exact .more hseparator hitem ih
  | case3 cursor value stop attempts hstep hnot =>
      have hresult : ((separator >>= fun _ => item) cursor).result =
          some (value, stop) := by
        rw [bind_eq_andThen, hstep]
      obtain ⟨text, htext, hreads⟩ := htakes hresult
      have hpos := List.length_pos_iff.mpr htext
      have hlength := hreads.length_rest
      omega

theorem Further.unique {cursor stop other : Cursor} {values others : List α}
    (h : Further item separator cursor values stop)
    (hother : Further item separator cursor others other) :
    values = others ∧ stop = other := by
  induction h generalizing others with
  | done hnone =>
      cases hother with
      | done => exact ⟨rfl, rfl⟩
      | more hseparator hitem =>
          rw [result_bind, hseparator, Option.bind_some, hitem] at hnone
          cases hnone
  | more hseparator hitem _ ih =>
      cases hother with
      | done hnone =>
          rw [result_bind, hseparator, Option.bind_some, hitem] at hnone
          cases hnone
      | more hseparator' hitem' hmore =>
          rw [hseparator] at hseparator'
          cases hseparator'
          rw [hitem] at hitem'
          cases hitem'
          obtain ⟨rfl, rfl⟩ := ih hmore
          exact ⟨rfl, rfl⟩

theorem result_separated (item : Rule α) (separator : Rule Unit)
    (cursor : Cursor) :
    (separated item separator cursor).result =
      (item cursor).result.map fun reading =>
        (reading.1 :: (furtherItems item separator reading.2).1.1,
          (furtherItems item separator reading.2).1.2) := by
  refine (result_andThen item _ cursor).trans ?_
  cases (item cursor).result <;> rfl

theorem separated_eq_some_iff
    (htakes : (separator >>= fun _ => item).Takes (· ≠ []))
    {cursor stop : Cursor} {values : List α} :
    (separated item separator cursor).result = some (values, stop) ↔
      ∃ value next others, (item cursor).result = some (value, next) ∧
        Further item separator next others stop ∧
        values = value :: others := by
  rw [result_separated, Option.map_eq_some_iff]
  constructor
  · intro h
    obtain ⟨⟨value, next⟩, hitem, hvalues⟩ := h
    cases hvalues
    exact ⟨value, next, _, hitem, further_furtherItems htakes next, rfl⟩
  · intro h
    obtain ⟨value, next, others, hitem, hfurther, rfl⟩ := h
    obtain ⟨hothers, hstop⟩ :=
      (further_furtherItems htakes next).unique hfurther
    exact ⟨(value, next), hitem, by simp [hothers, hstop]⟩

theorem separated_eq_none_iff {cursor : Cursor} :
    (separated item separator cursor).result = none ↔
      (item cursor).result = none := by
  rw [result_separated, Option.map_eq_none_iff]

/-- The rule reads a row and makes a node of its items and the bytes that it
covers. -/
def IsRowOf (rule : Rule β) (make : List α → Span → β) (item : Rule α)
    (separator : Rule Unit) : Prop :=
  ∀ cursor, (rule cursor).result =
    (separated item separator cursor).result.map fun reading =>
      (make reading.1 ⟨cursor.position, reading.2.position⟩, reading.2)

theorem IsRowOf.eq_none_iff {rule : Rule β} {make : List α → Span → β}
    (h : rule.IsRowOf make item separator) {cursor : Cursor} :
    (rule cursor).result = none ↔ (item cursor).result = none := by
  rw [h, Option.map_eq_none_iff, separated_eq_none_iff]

theorem Takes.separated {form : List Char → Prop} (hitem : item.Takes form)
    (hseparator : separator.Takes form) (hnil : ¬ form [])
    (happend : ∀ left right, form left → form right → form (left ++ right)) :
    (Rule.separated item separator).Takes form := by
  have hne : ∀ text, form text → text ≠ [] :=
    fun text htext hempty => hnil (hempty ▸ htext)
  have htakes : (separator >>= fun _ => item).Takes (· ≠ []) :=
    (hseparator.mono hne).bind_ne_nil fun _ => hitem.mono fun _ _ => trivial
  have hfurther : ∀ {cursor stop : Cursor} {values : List α},
      Further item separator cursor values stop →
      ∀ {start : Cursor} {text : List Char}, form text →
        start.Reads text cursor →
        ∃ more, form more ∧ start.Reads more stop := by
    intro cursor stop values h
    induction h with
    | done => exact fun htext hreads => ⟨_, htext, hreads⟩
    | more hbetween hvalue _ ih =>
        intro start text htext hreads
        obtain ⟨left, hleft, hreadsLeft⟩ := hseparator hbetween
        obtain ⟨right, hright, hreadsRight⟩ := hitem hvalue
        exact ih (happend _ _ (happend _ _ htext hleft) hright)
          ((hreads.trans hreadsLeft).trans hreadsRight)
  intro start values stop hresult
  obtain ⟨value, next, others, hvalue, hothers, -⟩ :=
    (separated_eq_some_iff htakes).mp hresult
  obtain ⟨text, htext, hreads⟩ := hitem hvalue
  exact hfurther hothers htext hreads

theorem Takes.separated_ne_nil (hitem : item.Takes (· ≠ []))
    (hseparator : separator.Takes (· ≠ [])) :
    (Rule.separated item separator).Takes (· ≠ []) :=
  hitem.separated hseparator (by simp) fun left right hleft _ => by simp [hleft]

theorem IsRowOf.takes_ne_nil {rule : Rule β} {make : List α → Span → β}
    (hrule : rule.IsRowOf make item separator) (hitem : item.Takes (· ≠ []))
    (hseparator : separator.Takes (· ≠ [])) : rule.Takes (· ≠ []) :=
  (hitem.separated_ne_nil hseparator).of_result_map hrule

end Separated

end Rule

end TermSearch
