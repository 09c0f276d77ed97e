import Mathlib.Data.List.Basic
import Mathlib.Data.List.TakeWhile
import TermSearch.Proofs.Grammar.Written

namespace TermSearch

/-! Every written query is read as what it says. A rule reads its own text
before any rest that cannot go on with it, and each level of the grammar says
which rests these are: the rest after an or-group, for one, refuses a further
condition. -/

/-- Wherever it starts, the rule reads the text before the rest as a node of
that view. -/
def Rule.ReadsAs (rule : Rule α) (view : α → γ) (value : γ)
    (text rest : List Char) : Prop :=
  ∀ position, ∃ node,
    (rule ⟨position, text ++ rest⟩).result =
        some (node, ⟨position + byteSize text, rest⟩) ∧
      view node = value

def Rule.Refuses (rule : Rule α) (text : List Char) : Prop :=
  ∀ position, (rule ⟨position, text⟩).result = none

namespace Rule

theorem ReadsAs.bind {first : Rule α} {next : Rule β} {view : β → γ} {value : γ}
    {before : α → δ} {taken : δ} {left right rest : List Char}
    (hfirst : first.ReadsAs before taken left (right ++ rest))
    (hnext : next.ReadsAs view value right rest) :
    (first >>= fun _ => next).ReadsAs view value (left ++ right) rest := by
  intro position
  obtain ⟨_, hleft, -⟩ := hfirst position
  obtain ⟨node, hright, hnode⟩ := hnext (position + byteSize left)
  refine ⟨node, ?_, hnode⟩
  rw [result_bind, List.append_assoc, hleft, Option.bind_some, hright,
    byteSize_append, Nat.add_assoc]

theorem ReadsAs.choice_left {first : Rule α} {view : α → γ} {value : γ}
    {text rest : List Char} (h : first.ReadsAs view value text rest)
    (second : Rule α) : (first <|> second).ReadsAs view value text rest := by
  intro position
  obtain ⟨node, hresult, hnode⟩ := h position
  exact ⟨node, by rw [result_choice, hresult, Option.some_or], hnode⟩

theorem ReadsAs.choice_right {first second : Rule α} {view : α → γ} {value : γ}
    {text rest : List Char} (hfirst : first.Refuses (text ++ rest))
    (hsecond : second.ReadsAs view value text rest) :
    (first <|> second).ReadsAs view value text rest := by
  intro position
  obtain ⟨node, hresult, hnode⟩ := hsecond position
  exact ⟨node,
    by rw [result_choice, hfirst position, Option.none_or, hresult], hnode⟩

theorem Refuses.bind {first : Rule α} {next : α → Rule β} {text : List Char}
    (h : first.Refuses text) : (first >>= next).Refuses text := by
  intro position
  rw [result_bind, h position, Option.bind_none]

theorem ReadsAs.bind_refuses {first : Rule α} {next : Rule β} {view : α → γ}
    {value : γ} {text rest : List Char}
    (hfirst : first.ReadsAs view value text rest) (hnext : next.Refuses rest) :
    (first >>= fun _ => next).Refuses (text ++ rest) := by
  intro position
  obtain ⟨node, hresult, -⟩ := hfirst position
  rw [result_bind, hresult, Option.bind_some]
  exact hnext _

theorem literal_readsAs (word : List Char) (expected : String)
    (rest : List Char) : (literal word expected).ReadsAs id () word rest := by
  intro position
  have hreads : (Cursor.mk position (word ++ rest)).Reads word
      ⟨position + byteSize word, rest⟩ :=
    ⟨rfl, rfl⟩
  refine ⟨(), ?_, rfl⟩
  rw [result_literal, Cursor.after?_eq_some_iff.mpr hreads]
  rfl

theorem IsRowOf.readsAs {rule : Rule β} {make : List α → Span → β}
    {item : Rule α} {separator : Rule Unit}
    (hrule : rule.IsRowOf make item separator) {view : α → γ}
    {values : List γ} {text rest : List Char}
    (hrow : (Rule.separated item separator).ReadsAs (List.map view) values text
      rest)
    {rowView : β → List γ}
    (hview : ∀ nodes whole, rowView (make nodes whole) = nodes.map view) :
    rule.ReadsAs rowView values text rest := by
  intro position
  obtain ⟨nodes, hresult, hvalues⟩ := hrow position
  refine ⟨make nodes ⟨position, position + byteSize text⟩, ?_,
    by rw [hview, hvalues]⟩
  rw [hrule, hresult, Option.map_some]

end Rule

/-! Rows of items. -/

namespace Written

section Rows

variable {item : Rule α} {separator : Rule Unit} {view : α → γ}
  {renderSeparator : σ → List Char} {renderItem : β → List Char}
  {content : β → γ} {closes : List Char → Prop}

/-- The parts of a row are read back before every rest that closes an item, and
a further item closes the one before it. -/
structure ReadsParts (item : Rule α) (separator : Rule Unit) (view : α → γ)
    (renderSeparator : σ → List Char) (renderItem : β → List Char)
    (content : β → γ) (closes : List Char → Prop) : Prop where
  separator : ∀ between value rest, closes rest →
    separator.ReadsAs id () (renderSeparator between) (renderItem value ++ rest)
  item : ∀ value rest, closes rest →
    item.ReadsAs view (content value) (renderItem value) rest
  closes : ∀ between value rest, closes rest →
    closes (renderSeparator between ++ (renderItem value ++ rest))

namespace ReadsParts

variable {rest : List Char}

theorem closes_renderFurther
    (h : ReadsParts item separator view renderSeparator renderItem content
      closes)
    (further : List (σ × β)) (hrest : closes rest) :
    closes (Row.renderFurther renderSeparator renderItem further ++ rest) := by
  induction further with
  | nil => exact hrest
  | cons pair further ih =>
      rw [Row.renderFurther, List.append_assoc, List.append_assoc]
      exact h.closes pair.1 pair.2 _ ih

theorem further_renderFurther
    (h : ReadsParts item separator view renderSeparator renderItem content
      closes)
    (further : List (σ × β)) (hrest : closes rest)
    (hend : (separator >>= fun _ => item).Refuses rest) (position : Nat) :
    ∃ nodes,
      Rule.Further item separator
          ⟨position,
            Row.renderFurther renderSeparator renderItem further ++ rest⟩ nodes
          ⟨position +
            byteSize (Row.renderFurther renderSeparator renderItem further),
            rest⟩ ∧
        nodes.map view = further.map fun pair => content pair.2 := by
  induction further generalizing position with
  | nil => exact ⟨[], .done (hend _), rfl⟩
  | cons pair further ih =>
      have hcloses := h.closes_renderFurther further hrest
      obtain ⟨_, hseparator, -⟩ := h.separator pair.1 pair.2 _ hcloses position
      obtain ⟨node, hitem, hnode⟩ := h.item pair.2 _ hcloses
        (position + byteSize (renderSeparator pair.1))
      obtain ⟨nodes, hfurther, hnodes⟩ := ih (position +
        byteSize (renderSeparator pair.1) + byteSize (renderItem pair.2))
      refine ⟨node :: nodes, ?_,
        by rw [List.map_cons, List.map_cons, hnode, hnodes]⟩
      simp only [Row.renderFurther, List.append_assoc, byteSize_append,
        ← Nat.add_assoc]
      exact .more hseparator hitem hfurther

theorem separated
    (h : ReadsParts item separator view renderSeparator renderItem content
      closes)
    (htakes : (separator >>= fun _ => item).Takes (· ≠ []))
    {first : List Char} {value : γ}
    (hfirst : ∀ rest, closes rest → item.ReadsAs view value first rest)
    (further : List (σ × β)) (hrest : closes rest)
    (hend : (separator >>= fun _ => item).Refuses rest) :
    (Rule.separated item separator).ReadsAs (List.map view)
      (value :: further.map fun pair => content pair.2)
      (first ++ Row.renderFurther renderSeparator renderItem further) rest := by
  intro position
  have hcloses := h.closes_renderFurther further hrest
  obtain ⟨node, hitem, hnode⟩ := hfirst _ hcloses position
  obtain ⟨nodes, hfurther, hnodes⟩ := h.further_renderFurther further hrest hend
    (position + byteSize first)
  refine ⟨node :: nodes, ?_, by rw [List.map_cons, hnode, hnodes]⟩
  rw [Rule.separated_eq_some_iff htakes, List.append_assoc, byteSize_append,
    ← Nat.add_assoc]
  exact ⟨node, _, nodes, hitem, hfurther, rfl⟩

end ReadsParts

end Rows

/-! What the rests look like. -/

def IsSolid (text : List Char) : Prop := ∀ c ∈ text.head?, isSpace c = false

def IsBoundary (text : List Char) : Prop := ∀ c ∈ text.head?, isSpace c = true

def StartsWithWord (word text : List Char) : Prop :=
  ∃ c more, text = word ++ c :: more ∧ isSpace c = true

theorem IsSolid.append {left : List Char} (h : IsSolid left) (hne : left ≠ [])
    (right : List Char) : IsSolid (left ++ right) := by
  unfold IsSolid
  rw [List.head?_append_of_ne_nil _ hne]
  exact h

theorem isBoundary_of_isBlank {text : List Char} (h : IsBlank text) :
    IsBoundary text :=
  fun c hc => h.2 c (List.mem_of_mem_head? hc)

theorem isBoundary_append_of_isBlank {text : List Char} (h : IsBlank text)
    (rest : List Char) : IsBoundary (text ++ rest) := by
  unfold IsBoundary
  rw [List.head?_append_of_ne_nil _ h.1]
  exact fun c hc => h.2 c (List.mem_of_mem_head? hc)

theorem isTermChar_eq_false_of_isBoundary {rest : List Char}
    (h : IsBoundary rest) : ∀ c ∈ rest.head?, isTermChar c = false :=
  fun c hc => isTermChar_eq_false_of_isSpace (h c hc)

/-- A run of term characters that ends before a character of another kind starts
with a word only if it is that word. -/
theorem eq_of_startsWithWord {word run rest : List Char}
    (hword : ∀ c ∈ word, isTermChar c = true)
    (hrun : ∀ c ∈ run, isTermChar c = true)
    (hrest : ∀ c ∈ rest.head?, isTermChar c = false)
    (h : StartsWithWord word (run ++ rest)) :
    run = word ∧ ∃ c ∈ rest.head?, isSpace c = true := by
  obtain ⟨c, more, happend, hspace⟩ := h
  have hmore : ∀ d ∈ (c :: more).head?, isTermChar d = false := by
    intro d hd
    cases hd
    exact isTermChar_eq_false_of_isSpace hspace
  have hleft := Cursor.run_mk 0 hrun hrest
  have hright := Cursor.run_mk 0 hword hmore
  rw [← happend, hleft] at hright
  subst hright
  rw [List.append_cancel_left_eq] at happend
  exact ⟨rfl, c, by simp [happend], hspace⟩

theorem space_readsAs {text rest : List Char} (htext : IsBlank text)
    (hrest : IsSolid rest) : Grammar.space.ReadsAs id () text rest := by
  intro position
  refine ⟨(), ?_, rfl⟩
  rw [Grammar.space_eq_some_iff, Cursor.run_mk _ htext.2 hrest,
    Cursor.afterRun_mk _ htext.2 hrest]
  exact ⟨htext.1, rfl⟩

theorem space_refuses {text : List Char} (h : IsSolid text) :
    Grammar.space.Refuses text := by
  intro position
  have hrun : (Cursor.mk position text).run isSpace = [] :=
    Cursor.run_mk position (List.forall_mem_nil _) h
  rw [Grammar.result_space, if_pos hrun]

theorem word_refuses {word rest : List Char} (expected : String)
    (h : ¬ StartsWithWord word rest) :
    (Rule.literal word expected >>= fun _ => Grammar.space).Refuses rest := by
  intro position
  rw [Rule.result_bind, Rule.result_literal]
  cases hafter : (Cursor.mk position rest).after? word with
  | none => rfl
  | some stop =>
      obtain ⟨hrest, -⟩ := Cursor.after?_eq_some_iff.mp hafter
      have hsolid : IsSolid stop.rest := by
        intro c hc
        obtain ⟨more, hmore⟩ := List.head?_eq_some_iff.mp hc
        rw [Bool.eq_false_iff]
        exact fun hspace => h ⟨c, more, by rw [← hmore]; exact hrest, hspace⟩
      exact space_refuses hsolid stop.position

theorem spacedWord_readsAs {word before after rest : List Char}
    (expected : String) (hbefore : IsBlank before) (hword : IsSolid word)
    (hne : word ≠ []) (hafter : IsBlank after) (hrest : IsSolid rest) :
    (do Grammar.space; Rule.literal word expected; Grammar.space :
      Rule Unit).ReadsAs id () (before ++ (word ++ after)) rest := by
  have hsolid : IsSolid ((word ++ after) ++ rest) := by
    rw [List.append_assoc]
    exact hword.append hne _
  exact (space_readsAs hbefore hsolid).bind
    ((Rule.literal_readsAs word expected (after ++ rest)).bind
      (space_readsAs hafter hrest))

theorem orOp_readsAs_word {before after rest : List Char}
    (hbefore : IsBlank before) (hafter : IsBlank after) (hrest : IsSolid rest) :
    Grammar.orOp.ReadsAs id () (before ++ (['o', 'r'] ++ after)) rest :=
  (spacedWord_readsAs Expected.orWord hbefore (by simp [IsSolid, isSpace])
    (by simp) hafter hrest).choice_left Grammar.space

theorem orOp_readsAs_blank {text rest : List Char} (htext : IsBlank text)
    (hrest : IsSolid rest) (hword : ¬ StartsWithWord ['o', 'r'] rest) :
    Grammar.orOp.ReadsAs id () text rest :=
  .choice_right ((space_readsAs htext hrest).bind_refuses
    (word_refuses Expected.orWord hword)) (space_readsAs htext hrest)

theorem andOp_readsAs {before after rest : List Char} (hbefore : IsBlank before)
    (hafter : IsBlank after) (hrest : IsSolid rest) :
    Grammar.andOp.ReadsAs id () (before ++ (reservedWord ++ after)) rest :=
  spacedWord_readsAs Expected.andWord hbefore
    (by simp [IsSolid, isSpace, reservedWord]) (by simp [reservedWord]) hafter
    hrest

theorem andOp_refuses {text rest : List Char} (htext : IsBlank text)
    (hrest : IsSolid rest) (hword : ¬ StartsWithWord reservedWord rest) :
    Grammar.andOp.Refuses (text ++ rest) :=
  (space_readsAs htext hrest).bind_refuses (word_refuses Expected.andWord hword)

/-! Conditions. -/

theorem not_head?_colon_of_isBoundary {rest : List Char} (h : IsBoundary rest) :
    rest.head? ≠ some ':' := by
  intro hcolon
  exact absurd (h ':' hcolon) (by decide)

theorem rawCondition_readsAs {text rest : List Char} (hne : text ≠ [])
    (htext : ∀ c ∈ text, isTermChar c = true) (hword : text ≠ reservedWord)
    (hrest : ∀ c ∈ rest.head?, isTermChar c = false) :
    Grammar.rawCondition.ReadsAs Condition.content (.raw (String.ofList text))
      text rest := by
  intro position
  refine ⟨.raw (String.ofList text) ⟨position, position + byteSize text⟩, ?_,
    rfl⟩
  rw [Grammar.rawCondition_eq_some_iff, Cursor.run_mk _ htext hrest,
    Cursor.afterRun_mk _ htext hrest]
  exact ⟨hne, hword, rfl, rfl⟩

theorem quotedString_readsAs (quote : Quote) (text : String)
    (rest : List Char) :
    Grammar.quotedString.ReadsAs Condition.content (.quoted text quote.char)
      (Operand.quoted quote text).render rest := by
  intro position
  refine ⟨.quoted text quote.char
    ⟨position, position + byteSize (Operand.quoted quote text).render⟩, ?_, rfl⟩
  rw [Grammar.quotedString_eq_some_iff]
  refine ⟨quote.char, escape quote.char text.toList, text.toList,
    quote.isQuote_char, escapedAs_escape quote.char text.toList, ⟨rfl, rfl⟩, ?_⟩
  rw [String.ofList_toList]

theorem condition_readsAs (operand : Operand) {rest : List Char}
    (hrest : IsBoundary rest) :
    Grammar.condition.ReadsAs Condition.content operand.content operand.render
      rest := by
  intro position
  have hcolon := not_head?_colon_of_isBoundary hrest
  cases operand with
  | bare token =>
      obtain ⟨node, hresult, hnode⟩ :=
        rawCondition_readsAs token.ne_nil token.all_isTermChar
          token.ne_and (isTermChar_eq_false_of_isBoundary hrest) position
      have hquoted :
          (Grammar.quotedString ⟨position, token.text ++ rest⟩).result =
            none := by
        apply Grammar.quotedString_eq_none
        rw [List.head?_append_of_ne_nil _ token.ne_nil]
        exact token.not_isQuote_head
      exact ⟨node, Grammar.condition_eq_some_iff.mpr
        ⟨.inr ⟨hquoted, hresult⟩, hcolon⟩, hnode⟩
  | quoted quote text =>
      obtain ⟨node, hresult, hnode⟩ :=
        quotedString_readsAs quote text rest position
      exact ⟨node, Grammar.condition_eq_some_iff.mpr ⟨.inl hresult, hcolon⟩,
        hnode⟩

theorem condition_refuses {text : List Char}
    (hquote : ∀ c ∈ text.head?, ¬ IsQuote c)
    (hraw : ∀ position reading,
      (Grammar.rawCondition ⟨position, text⟩).result = some reading →
      reading.2.rest.head? = some ':') :
    Grammar.condition.Refuses text := by
  intro position
  rw [Option.eq_none_iff_forall_ne_some]
  intro reading hresult
  obtain ⟨hquoted | ⟨-, hread⟩, hcolon⟩ :=
    Grammar.condition_eq_some_iff.mp hresult
  · have hnone : (Grammar.quotedString ⟨position, text⟩).result = none :=
      Grammar.quotedString_eq_none hquote
    rw [hnone] at hquoted
    cases hquoted
  · exact hcolon (hraw position reading hread)

theorem condition_refuses_nil : Grammar.condition.Refuses [] :=
  condition_refuses (by simp) fun _ _ h => by cases h

theorem condition_refuses_reservedWord {rest : List Char}
    (hrest : IsBoundary rest) :
    Grammar.condition.Refuses (reservedWord ++ rest) := by
  have hrun : ∀ position,
      (Cursor.mk position (reservedWord ++ rest)).run isTermChar =
        reservedWord := fun position =>
    Cursor.run_mk position isTermChar_reservedWord
      (isTermChar_eq_false_of_isBoundary hrest)
  apply condition_refuses
  · simp [reservedWord, IsQuote]
  · intro position reading hread
    obtain ⟨-, hword, -⟩ := Grammar.rawCondition_eq_some_iff.mp hread
    exact absurd (hrun position) hword

theorem condition_refuses_names {names : List Char} (hnames : IsNames names)
    (rest : List Char) : Grammar.condition.Refuses (names ++ ':' :: rest) := by
  have hstop : ∀ position,
      (Cursor.mk position (names ++ ':' :: rest)).afterRun isTermChar =
        ⟨position + byteSize names, ':' :: rest⟩ := fun position =>
    Cursor.afterRun_mk position hnames.all_isTermChar (by simp [isTermChar])
  apply condition_refuses
  · rw [List.head?_append_of_ne_nil _ hnames.1]
    exact fun c hc => hnames.not_isQuote c (List.mem_of_mem_head? hc)
  · intro position reading hread
    obtain ⟨-, -, hafter, -⟩ := Grammar.rawCondition_eq_some_iff.mp hread
    rw [hafter, hstop]
    rfl

namespace Operand

theorem render_ne_nil (operand : Operand) : operand.render ≠ [] := by
  cases operand with
  | bare token => exact token.ne_nil
  | quoted quote text => simp [render]

theorem isSolid_render (operand : Operand) : IsSolid operand.render := by
  intro c hc
  cases operand with
  | bare token =>
      exact ((isTermChar_iff c).mp
        (token.all_isTermChar c (List.mem_of_mem_head? hc))).1
  | quoted quote text =>
      cases hc
      cases quote <;> decide

theorem not_startsWithWord (operand : Operand) {rest : List Char}
    (hrest : IsBoundary rest) :
    ¬ StartsWithWord ['o', 'r'] (operand.render ++ rest) := by
  intro h
  cases operand with
  | bare token =>
      exact token.ne_or (eq_of_startsWithWord isTermChar_or token.all_isTermChar
        (isTermChar_eq_false_of_isBoundary hrest) h).1
  | quoted quote text =>
      obtain ⟨c, more, happend, -⟩ := h
      cases quote <;> cases congrArg List.head? happend

end Operand

/-! Or-groups: a rest closes one if no condition can be read on from there. -/

structure ClosesAlternatives (rest : List Char) : Prop where
  isBoundary : IsBoundary rest
  refuses : (Grammar.orOp >>= fun _ => Grammar.condition).Refuses rest

theorem closesAlternatives_of_blank {text rest : List Char}
    (htext : IsBlank text) (hrest : IsSolid rest)
    (hword : ¬ StartsWithWord ['o', 'r'] rest)
    (hrefuses : Grammar.condition.Refuses rest) :
    ClosesAlternatives (text ++ rest) :=
  ⟨isBoundary_append_of_isBlank htext rest,
    (orOp_readsAs_blank htext hrest hword).bind_refuses hrefuses⟩

theorem OrSeparator.isBoundary_render (between : OrSeparator)
    (rest : List Char) : IsBoundary (between.render ++ rest) := by
  cases between with
  | blank space => exact isBoundary_append_of_isBlank space.isBlank rest
  | word before after =>
      rw [OrSeparator.render, List.append_assoc]
      exact isBoundary_append_of_isBlank before.isBlank _

theorem readsParts_condition :
    ReadsParts Grammar.condition Grammar.orOp Condition.content
      OrSeparator.render Operand.render Operand.content IsBoundary where
  separator between operand rest hrest := by
    have hsolid := operand.isSolid_render.append operand.render_ne_nil rest
    cases between with
    | blank space =>
        exact orOp_readsAs_blank space.isBlank hsolid
          (operand.not_startsWithWord hrest)
    | word before after =>
        exact orOp_readsAs_word before.isBlank after.isBlank hsolid
  item operand rest hrest := condition_readsAs operand hrest
  closes between _ _ _ := between.isBoundary_render _

namespace Alternatives

theorem render_ne_nil (row : Alternatives) : row.render ≠ [] := by
  simp [render, Row.render, row.first.render_ne_nil]

theorem isSolid_render (row : Alternatives) : IsSolid row.render :=
  row.first.isSolid_render.append row.first.render_ne_nil _

theorem readsAs (row : Alternatives) {rest : List Char}
    (hrest : ClosesAlternatives rest) :
    Grammar.orConditions.ReadsAs OrGroup.content row.content row.render
      rest := by
  have hrow := readsParts_condition.separated Grammar.takes_orOp_condition
    (fun rest hrest => condition_readsAs row.first hrest) row.further
    hrest.isBoundary hrest.refuses
  rw [content, Row.items, List.map_cons, List.map_map]
  exact Grammar.isRowOf_orConditions.readsAs hrow fun _ _ => rfl

end Alternatives

/-! Or-groups joined by `and`. -/

structure ClosesRequirements (rest : List Char) : Prop where
  closesAlternatives : ClosesAlternatives rest
  refuses : (Grammar.andOp >>= fun _ => Grammar.orConditions).Refuses rest

theorem AndSeparator.closesAlternatives_render (between : AndSeparator)
    (rest : List Char) : ClosesAlternatives (between.render ++ rest) := by
  rw [AndSeparator.render, List.append_assoc, List.append_assoc]
  apply closesAlternatives_of_blank between.before.isBlank
  · simp [IsSolid, reservedWord, isSpace]
  · intro h
    obtain ⟨c, more, happend, -⟩ := h
    cases congrArg List.head? happend
  · exact condition_refuses_reservedWord
      (isBoundary_append_of_isBlank between.after.isBlank rest)

theorem readsParts_orConditions :
    ReadsParts Grammar.orConditions Grammar.andOp
      OrGroup.content AndSeparator.render
      Alternatives.render Alternatives.content ClosesAlternatives where
  separator between row rest _ :=
    andOp_readsAs between.before.isBlank between.after.isBlank
      (row.isSolid_render.append row.render_ne_nil rest)
  item row _ hrest := row.readsAs hrest
  closes between _ _ _ := between.closesAlternatives_render _

namespace Requirements

theorem render_ne_nil (row : Requirements) : row.render ≠ [] := by
  simp [render, Row.render, row.first.render_ne_nil]

theorem isSolid_render (row : Requirements) : IsSolid row.render :=
  row.first.isSolid_render.append row.first.render_ne_nil _

theorem readsAs (row : Requirements) {rest : List Char}
    (hrest : ClosesRequirements rest) :
    Grammar.andConditions.ReadsAs Conditions.content row.content row.render
      rest := by
  have hrow :=
    readsParts_orConditions.separated Grammar.takes_andOp_orConditions
      (fun rest hrest => row.first.readsAs hrest) row.further
      hrest.closesAlternatives hrest.refuses
  rw [content, Row.items, List.map_cons, List.map_map]
  exact Grammar.isRowOf_andConditions.readsAs hrow fun _ _ => rfl

end Requirements

/-! Fields before a colon. -/

theorem identifier_readsAs (identifier : Identifier) {rest : List Char}
    (hrest : ∀ c ∈ rest.head?, isIdentifierChar c = false) :
    Grammar.identifier.ReadsAs FieldName.name identifier.name identifier.text
      rest := by
  intro position
  refine ⟨⟨identifier.name, ⟨position, position + byteSize identifier.text⟩⟩,
    ?_, rfl⟩
  rw [Grammar.identifier_eq_some_iff,
    Cursor.run_mk _ identifier.all_isIdentifierChar hrest,
    Cursor.afterRun_mk _ identifier.all_isIdentifierChar hrest]
  exact ⟨identifier.ne_nil, rfl, rfl⟩

theorem readsParts_identifier :
    ReadsParts Grammar.identifier (Rule.literal [','] Expected.comma)
      FieldName.name (fun _ : Unit => [',']) Identifier.text Identifier.name
      fun rest => ∀ c ∈ rest.head?, isIdentifierChar c = false where
  separator _ _ _ _ := Rule.literal_readsAs _ _ _
  item identifier _ hrest := identifier_readsAs identifier hrest
  closes _ _ _ _ := by simp [isIdentifierChar]

theorem Identifier.isNames_text (identifier : Identifier) :
    IsNames identifier.text :=
  ⟨identifier.ne_nil, fun c hc => .inl (identifier.all_isIdentifierChar c hc)⟩

namespace Fields

theorem isNames_renderNames (fields : Fields) : IsNames fields.renderNames := by
  have hfurther : ∀ (further : List (Unit × Identifier)) {text : List Char},
      IsNames text →
      IsNames
        (text ++
          Row.renderFurther (fun _ => [',']) Identifier.text further) := by
    intro further
    induction further with
    | nil =>
        intro text htext
        rw [Row.renderFurther, List.append_nil]
        exact htext
    | cons pair further ih =>
        intro text htext
        have hcomma : IsNames [','] := ⟨by simp, by simp⟩
        rw [Row.renderFurther, ← List.append_assoc, ← List.append_assoc]
        exact ih ((htext.append hcomma).append pair.2.isNames_text)
  exact hfurther fields.names.further fields.names.first.isNames_text

theorem render_append (fields : Fields) (rest : List Char) :
    fields.render ++ rest =
      fields.renderNames ++ ':' :: (fields.gap.text ++ rest) := by
  simp [render]

theorem isSolid_render_append (fields : Fields) (rest : List Char) :
    IsSolid (fields.render ++ rest) := by
  rw [render_append]
  have hnames := fields.isNames_renderNames
  refine IsSolid.append ?_ hnames.1 _
  intro c hc
  exact ((isTermChar_iff c).mp
    (hnames.all_isTermChar c (List.mem_of_mem_head? hc))).1

/-- The colon keeps the names from being a word of their own. -/
theorem not_startsWithWord (fields : Fields) {word : List Char}
    (hword : ∀ c ∈ word, isTermChar c = true) (rest : List Char) :
    ¬ StartsWithWord word (fields.render ++ rest) := by
  intro h
  rw [render_append] at h
  obtain ⟨-, c, hc, hspace⟩ :=
    eq_of_startsWithWord hword fields.isNames_renderNames.all_isTermChar
      (by simp [isTermChar]) h
  cases hc
  exact absurd hspace (by decide)

theorem multiField_readsAs (fields : Fields) (rest : List Char) :
    Grammar.multiField.ReadsAs (List.map FieldName.name) fields.content
      fields.renderNames (':' :: rest) := by
  have hend : (Rule.literal [','] Expected.comma >>=
      fun _ => Grammar.identifier).Refuses (':' :: rest) := by
    refine Rule.Refuses.bind fun position => ?_
    rw [Rule.result_literal, Cursor.after?_eq_none_iff.mpr (by simp)]
    rfl
  have hreads := readsParts_identifier.separated Grammar.takes_comma_identifier
    (fun rest hrest => identifier_readsAs fields.names.first hrest)
    fields.names.further (by simp [isIdentifierChar]) hend
  rw [content, Row.items, List.map_cons, List.map_map]
  exact hreads

theorem readsAs (fields : Fields) {rest : List Char} (hrest : IsSolid rest) :
    Grammar.field.ReadsAs FieldList.content fields.content fields.render
      rest := by
  intro position
  obtain ⟨names, hnames, hcontent⟩ :=
    fields.multiField_readsAs (fields.gap.text ++ rest) position
  let colon : Cursor :=
    ⟨position + byteSize fields.renderNames + byteSize [':'],
      fields.gap.text ++ rest⟩
  refine ⟨⟨names, ⟨position, colon.position⟩⟩, ?_, hcontent⟩
  rw [Grammar.field_eq_some_iff, render_append]
  refine ⟨names, _, colon, hnames, ⟨rfl, rfl⟩, ?_, rfl⟩
  rw [Cursor.afterRun_mk _ fields.gap.all_isSpace hrest, render,
    byteSize_append, byteSize_append]
  simp only [Nat.add_assoc]

end Fields

theorem append_ne_names {term rest : List Char}
    (hterm : ∀ c ∈ term, isTermChar c = true) (hrest : IsBoundary rest)
    {names : List Char} (hnames : IsNames names) (more : List Char) :
    term ++ rest ≠ names ++ ':' :: more := by
  intro h
  have hleft := Cursor.run_mk 0 hterm (isTermChar_eq_false_of_isBoundary hrest)
  have hright : (Cursor.mk 0 (names ++ ':' :: more)).run isTermChar = names :=
    Cursor.run_mk 0 hnames.all_isTermChar (by simp [isTermChar])
  rw [h, hright] at hleft
  subst hleft
  rw [List.append_cancel_left_eq] at h
  exact not_head?_colon_of_isBoundary hrest (by rw [h]; rfl)

theorem Operand.render_append_ne (operand : Operand) {rest : List Char}
    (hrest : IsBoundary rest) {names : List Char} (hnames : IsNames names)
    (more : List Char) : operand.render ++ rest ≠ names ++ ':' :: more := by
  cases operand with
  | bare token => exact append_ne_names token.all_isTermChar hrest hnames more
  | quoted quote text =>
      intro h
      have hhead := congrArg List.head? h
      rw [List.head?_append_of_ne_nil _ hnames.1] at hhead
      exact hnames.not_isQuote quote.char (List.mem_of_mem_head? hhead.symm)
        quote.isQuote_char

theorem field_refuses_of_ne {text : List Char}
    (h : ∀ names, IsNames names → ∀ more, text ≠ names ++ ':' :: more) :
    Grammar.field.Refuses text := by
  intro position
  rw [Option.eq_none_iff_forall_ne_some]
  intro reading hresult
  obtain ⟨list, next, colon, hlist, hcolon, -⟩ :=
    Grammar.field_eq_some_iff.mp hresult
  obtain ⟨names, hnames, hreads⟩ := Grammar.takes_multiField hlist
  exact h names hnames colon.rest (by simpa using (hreads.trans hcolon).rest)

namespace Requirements

theorem field_refuses (row : Requirements) {rest : List Char}
    (hrest : ClosesRequirements rest) :
    Grammar.field.Refuses (row.render ++ rest) := by
  have hfirst := readsParts_orConditions.closes_renderFurther row.further
    hrest.closesAlternatives
  have hoperand := readsParts_condition.closes_renderFurther row.first.further
    hfirst.isBoundary
  apply field_refuses_of_ne
  intro names hnames more
  simp only [render, Alternatives.render, Row.render, List.append_assoc]
  exact row.first.first.render_append_ne hoperand hnames more

end Requirements

/-! Groups, and the whole query. -/

theorem andQuery_readsAs_prefixed (group : PrefixedGroup) {rest : List Char}
    (hrest : ClosesRequirements rest) :
    Grammar.andQuery.ReadsAs QueryGroup.content group.content group.render
      rest := by
  intro position
  have hsolid :=
    group.conditions.isSolid_render.append group.conditions.render_ne_nil rest
  obtain ⟨list, hlist, hfields⟩ := group.fields.readsAs hsolid position
  obtain ⟨conditions, hconditions, hcontent⟩ := group.conditions.readsAs hrest
    (position + byteSize group.fields.render)
  refine ⟨⟨some list, conditions, ⟨position, position + byteSize group.render⟩⟩,
    ?_, ?_⟩
  · rw [Grammar.andQuery_eq_some_iff, PrefixedGroup.render, List.append_assoc,
      byteSize_append, ← Nat.add_assoc]
    exact ⟨rfl, .inl ⟨list, _, hlist, rfl, hconditions⟩⟩
  · rw [QueryGroup.content, Option.map_some, hfields, hcontent,
      PrefixedGroup.content]

theorem andQuery_readsAs_plain (row : Requirements) {rest : List Char}
    (hrest : ClosesRequirements rest) :
    Grammar.andQuery.ReadsAs QueryGroup.content ⟨none, row.content⟩ row.render
      rest := by
  intro position
  obtain ⟨conditions, hconditions, hcontent⟩ := row.readsAs hrest position
  refine ⟨⟨none, conditions, ⟨position, position + byteSize row.render⟩⟩, ?_,
    ?_⟩
  · rw [Grammar.andQuery_eq_some_iff]
    exact ⟨rfl, .inr ⟨row.field_refuses hrest position, rfl, hconditions⟩⟩
  · rw [QueryGroup.content, Option.map_none, hcontent]

theorem FirstGroup.readsAs (group : FirstGroup) {rest : List Char}
    (hrest : ClosesRequirements rest) :
    Grammar.andQuery.ReadsAs QueryGroup.content group.content group.render
      rest := by
  cases group with
  | plain conditions => exact andQuery_readsAs_plain conditions hrest
  | prefixed group => exact andQuery_readsAs_prefixed group hrest

theorem closesRequirements_of_fields (space : Blank) (fields : Fields)
    (rest : List Char) :
    ClosesRequirements (space.text ++ (fields.render ++ rest)) := by
  have hsolid := fields.isSolid_render_append rest
  refine ⟨closesAlternatives_of_blank space.isBlank hsolid
    (fields.not_startsWithWord isTermChar_or rest) ?_, ?_⟩
  · rw [Fields.render_append]
    exact condition_refuses_names fields.isNames_renderNames _
  · exact (andOp_refuses space.isBlank hsolid
      (fields.not_startsWithWord isTermChar_reservedWord rest)).bind

theorem readsParts_andQuery :
    ReadsParts Grammar.andQuery Grammar.space QueryGroup.content Blank.text
      PrefixedGroup.render PrefixedGroup.content ClosesRequirements where
  separator between group rest _ := by
    refine space_readsAs between.isBlank ?_
    rw [PrefixedGroup.render, List.append_assoc]
    exact group.fields.isSolid_render_append _
  item group _ hrest := andQuery_readsAs_prefixed group hrest
  closes between group rest _ := by
    rw [PrefixedGroup.render, List.append_assoc]
    exact closesRequirements_of_fields between group.fields _

/-! Nothing can be read where the input ends, so space at the end closes
everything. -/

theorem isSolid_nil : IsSolid [] := by simp [IsSolid]

theorem not_startsWithWord_nil (word : List Char) :
    ¬ StartsWithWord word [] := by
  intro h
  obtain ⟨c, more, happend, -⟩ := h
  simp at happend

theorem orConditions_refuses_nil : Grammar.orConditions.Refuses [] := by
  intro position
  rw [Grammar.isRowOf_orConditions.eq_none_iff, condition_refuses_nil]

theorem field_refuses_nil : Grammar.field.Refuses [] := by
  intro position
  have hnames : (Grammar.multiField ⟨position, []⟩).result = none :=
    Rule.separated_eq_none_iff.mpr (by rw [Grammar.result_identifier]; rfl)
  rw [Grammar.result_field, hnames, Option.bind_none]

theorem andQuery_refuses_nil : Grammar.andQuery.Refuses [] := by
  intro position
  have hconditions : (Grammar.andConditions ⟨position, []⟩).result = none := by
    rw [Grammar.isRowOf_andConditions.eq_none_iff, orConditions_refuses_nil]
  rw [Grammar.result_andQuery, field_refuses_nil, hconditions]
  rfl

namespace Gap

theorem eq_nil_or_isBlank (gap : Gap) : gap.text = [] ∨ IsBlank gap.text := by
  by_cases h : gap.text = []
  · exact .inl h
  · exact .inr ⟨h, gap.all_isSpace⟩

theorem closesAlternatives (gap : Gap) : ClosesAlternatives gap.text := by
  rcases gap.eq_nil_or_isBlank with hnil | hblank
  · rw [hnil]
    refine ⟨by simp [IsBoundary], Rule.Refuses.bind fun position => ?_⟩
    rw [Grammar.result_orOp, space_refuses isSolid_nil]
    rfl
  · have h :=
      closesAlternatives_of_blank hblank isSolid_nil (not_startsWithWord_nil _)
        condition_refuses_nil
    rwa [List.append_nil] at h

theorem closesRequirements (gap : Gap) : ClosesRequirements gap.text := by
  refine ⟨gap.closesAlternatives, Rule.Refuses.bind ?_⟩
  rcases gap.eq_nil_or_isBlank with hnil | hblank
  · rw [hnil]
    intro position
    rw [Grammar.result_andOp, space_refuses isSolid_nil]
    rfl
  · have h := andOp_refuses hblank isSolid_nil (not_startsWithWord_nil _)
    rwa [List.append_nil] at h

theorem space_bind_refuses (gap : Gap) {rule : Rule α}
    (hrule : rule.Refuses []) :
    (Grammar.space >>= fun _ => rule).Refuses gap.text := by
  rcases gap.eq_nil_or_isBlank with hnil | hblank
  · rw [hnil]
    exact (space_refuses isSolid_nil).bind
  · have h := (space_readsAs hblank isSolid_nil).bind_refuses hrule
    rwa [List.append_nil] at h

theorem space_andQuery_refuses (gap : Gap) :
    (Grammar.space >>= fun _ => Grammar.andQuery).Refuses gap.text :=
  gap.space_bind_refuses andQuery_refuses_nil

end Gap

theorem Query.readsAs (query : Query) :
    Grammar.andQueries.ReadsAs SyntaxTree.content query.content
      query.render.toList [] := by
  intro position
  obtain ⟨groups, hgroups, hcontent⟩ :=
    readsParts_andQuery.separated Grammar.takes_space_andQuery
      (fun rest hrest => query.first.readsAs hrest) query.further
      query.trailing.closesRequirements
      query.trailing.space_andQuery_refuses position
  let stop : Cursor :=
    ⟨position + byteSize (query.first.render ++ Row.renderFurther Blank.text
      PrefixedGroup.render query.further), query.trailing.text⟩
  have hend : stop.afterRun isSpace =
      ⟨position + byteSize query.render.toList, []⟩ := by
    have hrun : stop =
        ⟨stop.position, query.trailing.text ++ []⟩ := by rw [List.append_nil]
    rw [hrun, Cursor.afterRun_mk _ query.trailing.all_isSpace (by simp),
      Query.render, String.toList_ofList, ← List.append_assoc,
      byteSize_append _ query.trailing.text, ← Nat.add_assoc]
  refine ⟨⟨groups, ⟨position, stop.position⟩⟩, ?_, hcontent⟩
  rw [List.append_nil, ← hend, Query.render, String.toList_ofList,
    ← List.append_assoc]
  exact Grammar.andQueries_eq_some_iff.mpr
    ⟨stop, hgroups, rfl, rfl, by rw [hend]⟩

/-- A query is accepted however it is written, and its tree says what was
written. -/
theorem parse_render (query : Query) :
    ∃ tree, SyntaxTree.parse query.render = .ok tree ∧
      tree.content = query.content := by
  obtain ⟨tree, hresult, hcontent⟩ := query.readsAs 0
  rw [List.append_nil] at hresult
  exact ⟨tree, Grammar.parse_eq_ok_iff.mpr ⟨_, hresult⟩, hcontent⟩

end Written

end TermSearch
