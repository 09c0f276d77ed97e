import TermSearch.Proofs.Grammar.Furthest
import TermSearch.Proofs.Grammar.Outlook

namespace TermSearch

/-! Where a query is refused. Every rule of the grammar has an outlook on every
text: the text can be completed, or the rule knows before the text ends what
becomes of it. What a refused query has before the reported position can
therefore be completed. -/

namespace Rule

theorem upcoming_bind (next : List Char → Rule α) (cursor : Cursor) :
    (upcoming >>= next) cursor = next cursor.rest cursor := rfl

theorem Outlook.of_head {rule : Rule α} (accepts : Option Char → Prop)
    (value : α) (expected : String) (hnil : accepts none)
    (haccepts : ∀ cursor, accepts cursor.rest.head? →
      rule cursor = ⟨some (value, cursor), []⟩)
    (hrefuses : ∀ cursor, ¬ accepts cursor.rest.head? →
      rule cursor = ⟨none, [⟨cursor.position, expected, []⟩]⟩)
    (position : Nat) (text : List Char) :
    rule.Outlook (· = []) position text := by
  cases text with
  | nil =>
      refine .viable [] value fun rest hrest => ?_
      subst hrest
      exact congrArg Outcome.result (haccepts ⟨position, []⟩ hnil)
  | cons c text =>
      have hpos : position < position + byteSize (c :: text) :=
        Nat.lt_add_of_pos_right (byteSize_pos (List.cons_ne_nil c text))
      by_cases hc : accepts (some c)
      · have hread (rest : List Char) :=
          haccepts ⟨position, c :: (text ++ rest)⟩ hc
        refine .complete [] (c :: text) value rfl (List.cons_ne_nil c text) ?_
          fun rest => congrArg Outcome.result (hread rest)
        intro rest attempt hattempt
        rw [List.cons_append, hread] at hattempt
        cases hattempt
      · have hmiss (rest : List Char) :=
          hrefuses ⟨position, c :: (text ++ rest)⟩ hc
        refine .refused ?_ fun rest => congrArg Outcome.result (hmiss rest)
        intro rest attempt hattempt
        rw [List.cons_append, hmiss, List.mem_singleton] at hattempt
        rw [hattempt]
        exact hpos

namespace CanFollow

variable {closed closes ends : List Char → Prop}

protected theorem pure (value : α) (h : ∀ rest, closes rest → closed rest) :
    (pure value : Rule α).CanFollow closed closes :=
  fun _ => ⟨[], value, fun rest hrest => ⟨h rest hrest, rfl⟩⟩

theorem bind {first : Rule α} {next : α → Rule β}
    (hfirst : first.CanFollow closed closes)
    (hnext : ∀ value, (next value).CanFollow closes ends) :
    (first >>= next).CanFollow closed ends := by
  intro position
  obtain ⟨left, value, hleft⟩ := hfirst position
  obtain ⟨right, taken, hright⟩ := hnext value (position + byteSize left)
  refine ⟨left ++ right, taken, fun rest hrest => ?_⟩
  obtain ⟨hcloses, hresult⟩ := hright rest hrest
  obtain ⟨hclosed, hresult'⟩ := hleft _ hcloses
  rw [List.append_assoc, result_bind, hresult', Option.bind_some, hresult,
    byteSize_append, Nat.add_assoc]
  exact ⟨hclosed, rfl⟩

theorem bind_pure {rule : Rule α} (h : rule.CanFollow closed closes)
    (change : α → β) :
    (rule >>= fun value => pure (change value)).CanFollow closed closes :=
  h.bind fun value => .pure (change value) fun _ hrest => hrest

theorem literal {word : List Char} (h : ∀ rest, closed (word ++ rest))
    (expected : String) :
    (Rule.literal word expected).CanFollow closed fun _ => True :=
  fun _ => ⟨word, (), fun rest _ => ⟨h rest, result_literal_append ..⟩⟩

protected theorem optional {rule : Rule α}
    (hrefuses : ∀ rest, closes rest → rule.Refuses rest)
    (h : ∀ rest, closes rest → closed rest) :
    rule.optional.CanFollow closed closes := by
  intro position
  refine ⟨[], none, fun rest hrest => ⟨h rest hrest, ?_⟩⟩
  rw [result_optional, List.nil_append, hrefuses rest hrest]
  rfl

theorem of_readsAs {rule : Rule α} {view : α → γ} {value : γ} {text : List Char}
    (h : rule.ReadsAs view value text []) (htext : closed text) :
    rule.CanFollow closed (· = []) := by
  intro position
  obtain ⟨node, hresult, -⟩ := h position
  refine ⟨text, node, fun rest hrest => ?_⟩
  subst hrest
  rw [List.append_nil] at hresult ⊢
  exact ⟨htext, hresult⟩

end CanFollow

end Rule

theorem EscapedAs.append {quote : Char} {left right value other : List Char}
    (hleft : EscapedAs quote left value)
    (hright : EscapedAs quote right other) :
    EscapedAs quote (left ++ right) (value ++ other) := by
  induction hleft with
  | nil => exact hright
  | escape c _ ih => exact .escape c ih
  | plain hquote hescape _ ih => exact .plain hquote hescape ih

namespace Grammar

open Written

/-- The part of a text that a quoted string takes ends with the text, at a
backslash with nothing after it or at the closing quote. -/
theorem exists_escapedAs (quote : Char) : ∀ text, ∃ body right value,
    EscapedAs quote body value ∧ text = body ++ right ∧
      (right = [] ∨ right = ['\\'] ∨ right.head? = some quote)
  | [] => ⟨[], [], [], .nil, rfl, .inl rfl⟩
  | c :: text => by
      by_cases hquote : c = quote
      · exact ⟨[], c :: text, [], .nil, rfl, .inr (.inr (by rw [hquote]; rfl))⟩
      by_cases hescape : c = '\\'
      · subst hescape
        cases text with
        | nil => exact ⟨[], ['\\'], [], .nil, rfl, .inr (.inl rfl)⟩
        | cons d text =>
            obtain ⟨body, right, value, hbody, rfl, hright⟩ :=
              exists_escapedAs quote text
            exact ⟨'\\' :: d :: body, right, d :: value, .escape d hbody,
              rfl, hright⟩
      · obtain ⟨body, right, value, hbody, rfl, hright⟩ :=
          exists_escapedAs quote text
        exact ⟨c :: body, right, c :: value, .plain hquote hescape hbody,
          rfl, hright⟩

/-! The rules that end at the first character of another kind. -/

/-- Of a longest run only the lack of it is noted, where the run would start. -/
theorem position_of_mem_of_run {first : Rule α} {next : α → Rule β}
    {allowed : Char → Bool} {cursor : Cursor} {value : α} {made : β}
    {expected : String} {attempt : Attempt}
    (h : attempt ∈ ((first >>= next) cursor).attempts)
    (hfirst : first cursor = ⟨some (value, cursor.afterRun allowed), []⟩)
    (hnext : next value =
      if (cursor.run allowed).isEmpty then Rule.missing expected
      else pure made) :
    attempt.position = cursor.position := by
  rcases Rule.mem_attempts_bind.mp h with h | ⟨taken, stop, hresult, h⟩
  · rw [hfirst] at h
    cases h
  · rw [hfirst] at hresult
    cases hresult
    rw [hnext] at h
    split at h
    · rename_i hnil
      rw [List.mem_singleton.mp h,
        cursor.afterRun_eq_self (List.isEmpty_iff.mp hnil)]
    · cases h

theorem position_of_mem_rawCondition {cursor : Cursor} {attempt : Attempt}
    (h : attempt ∈ (rawCondition cursor).attempts) :
    attempt.position = cursor.position := by
  obtain ⟨inner, hinner, rfl⟩ := List.mem_map.mp h
  rcases Rule.mem_attempts_bind.mp hinner with
    hinner | ⟨text, stop, hresult, hinner⟩
  · cases hinner
  · cases hresult
    simp only at hinner
    split at hinner
    · rw [List.mem_singleton.mp hinner]
      rfl
    · cases hinner

theorem outlook_space (position : Nat) (text : List Char) :
    space.Outlook IsSolid position text :=
  .of_run (· = []) (fun _ _ => ()) (c := ' ') rfl (by simp) result_space
    (fun _ _ h => position_of_mem_of_run h rfl rfl) position text

theorem outlook_identifier (position : Nat) (text : List Char) :
    identifier.Outlook
      (fun rest => ∀ c ∈ rest.head?, isIdentifierChar c = false) position
      text := by
  refine .of_run (· = []) (fun position name =>
    ⟨String.ofList name, ⟨position, position + byteSize name⟩⟩)
    (c := 'x') rfl (by simp) result_identifier ?_ position text
  exact fun _ _ h => position_of_mem_of_run h rfl rfl

theorem outlook_rawCondition (position : Nat) (text : List Char) :
    rawCondition.Outlook (· = []) position text := by
  have hfill : ∀ text : List Char,
      ¬ (text ++ ['x'] = [] ∨ text ++ ['x'] = reservedWord) := by
    intro text h
    rcases h with h | h
    · simp at h
    · simpa [reservedWord] using congrArg List.getLast? h
  refine .mono
    (.of_run (fun text => text = [] ∨ text = reservedWord) (fun position text =>
      .raw (String.ofList text) ⟨position, position + byteSize text⟩)
      (c := 'x') (by decide) hfill result_rawCondition
      (fun _ _ => position_of_mem_rawCondition) position text) ?_
  rintro rest rfl
  simp

/-! Names before a colon. -/

theorem canFollow_identifier :
    identifier.CanFollow (fun _ => True) fun rest => rest.head? = some ':' := by
  intro position
  refine ⟨['x'], ⟨"x", ⟨position, position + 1⟩⟩,
    fun rest hrest => ⟨trivial, ?_⟩⟩
  have hcolon : ∀ c ∈ rest.head?, isIdentifierChar c = false := by
    simp [hrest, isIdentifierChar]
  have hx : ∀ c ∈ ['x'], isIdentifierChar c = true := List.all_eq_true.mp rfl
  rw [identifier_eq_some_iff, Cursor.run_mk _ hx hcolon,
    Cursor.afterRun_mk _ hx hcolon]
  exact ⟨by simp, rfl, rfl⟩

theorem outlook_multiField (position : Nat) (text : List Char) :
    multiField.Outlook (fun rest => rest.head? = some ':') position text := by
  have hname (position : Nat) (text : List Char) :
      identifier.Outlook (fun rest => rest.head? = some ':') position text := by
    refine (outlook_identifier position text).mono fun rest hrest => ?_
    simp [hrest, isIdentifierChar]
  refine .named (.separated takes_comma_identifier hname
    (fun position text => ?_) ?_ ?_ position text) _
  · exact (Rule.Outlook.literal _ _ position text).bind
      (fun _ => canFollow_identifier) ⟨[], trivial⟩ fun _ => hname
  · intro rest hrest
    refine Rule.Refuses.bind fun position => ?_
    rw [Rule.result_literal, Cursor.after?_eq_none_iff.mpr, Option.map_none]
    rintro ⟨more, rfl⟩
    cases hrest
  · exact ⟨[':'], rfl⟩

theorem outlook_field (position : Nat) (text : List Char) :
    field.Outlook IsSolid position text := by
  refine .named (.bind (.spanned ?_ : Rule.Outlook _ (fun _ => True) position
    text) (fun _ => ?_) ⟨[], trivial⟩ fun _ position text => ?_) _
  · refine (outlook_multiField position text).bind (fun _ => ?_) ⟨[':'], rfl⟩
      fun _ position text => ?_
    · exact .bind_pure (.literal (fun _ => rfl) _) _
    · exact (Rule.Outlook.literal _ _ position text).bind_pure _
  · exact .bind_pure (.optional (fun _ => space_refuses) fun _ _ => trivial) _
  · exact (Rule.Outlook.optional (outlook_space position text)).bind_pure _

/-! Conditions. -/

theorem outlook_openingQuote (position : Nat) (text : List Char) :
    openingQuote.Outlook (fun _ => True) position text := by
  have hopening (word : List Char) (expected : String)
      (opening : Char × String) :
      Rule.Outlook (do
        Rule.literal word expected
        pure opening : Rule (Char × String)) (fun _ => True) position text :=
    (Rule.Outlook.literal _ _ position text).bind_pure _
  exact .choice (hopening _ _ _) (hopening _ _ _)

def closingQuote (opening : Char × String) : Rule (List Char) := fun cursor =>
  quotedRest opening.1 opening.2 cursor.position cursor.rest

theorem canFollow_closingQuote {opening : Char × String}
    (h : IsQuote opening.1) :
    (closingQuote opening).CanFollow (fun _ => True) fun _ => True :=
  fun position =>
  ⟨[opening.1], [], fun rest _ => ⟨trivial,
    quotedRest_of_escapedAs opening.2 h.ne_backslash .nil position rest⟩⟩

theorem outlook_closingQuote {opening : Char × String} (h : IsQuote opening.1)
    (position : Nat) (text : List Char) :
    (closingQuote opening).Outlook (fun _ => True) position text := by
  obtain ⟨quote, closing⟩ := opening
  have hread {body value : List Char} (hbody : EscapedAs quote body value)
      (rest : List Char) :=
    quotedRest_of_escapedAs closing h.ne_backslash hbody position rest
  obtain ⟨body, right, value, hbody, rfl, hend⟩ := exists_escapedAs quote text
  rcases hend with rfl | rfl | hquote
  · refine .viable [quote] value fun rest _ => ?_
    simpa [closingQuote] using hread hbody rest
  · -- the backslash stands for the character that is written after it
    refine .viable ['x', quote] (value ++ ['x']) fun rest _ => ?_
    simpa [closingQuote] using hread (hbody.append (.escape 'x' .nil)) rest
  · obtain ⟨right, rfl⟩ := List.head?_eq_some_iff.mp hquote
    by_cases hright : right = []
    · subst hright
      refine .viable [] value fun rest _ => ?_
      simpa [closingQuote] using hread hbody rest
    · refine .complete (body ++ [quote]) right value (by simp) hright ?_
        fun rest => ?_
      · intro rest attempt hattempt
        have hresult := hread hbody (right ++ rest)
        rcases quotedRest_closed_or_missed quote closing position
          (body ++ quote :: (right ++ rest)) with
          ⟨-, hattempts⟩ | ⟨expected, hmissed⟩
        · have hnil : (closingQuote (quote, closing)
              ⟨position, (body ++ quote :: right) ++ rest⟩).attempts = [] := by
            simpa [closingQuote] using hattempts
          rw [hnil] at hattempt
          cases hattempt
        · rw [hmissed] at hresult
          cases hresult
      · simpa [closingQuote] using hread hbody (right ++ rest)

theorem outlook_quotedString (position : Nat) (text : List Char) :
    quotedString.Outlook (fun _ => True) position text := by
  refine .named (.bind_pure (.spanned ?_) _) _
  refine (outlook_openingQuote position text).bind_of_result
    (fun opening start stop h => ?_) ⟨[], trivial⟩
  obtain ⟨hquote, -⟩ := openingQuote_eq_some h
  constructor
  · exact (canFollow_closingQuote hquote).bind_pure _
  · intro position text
    exact (outlook_closingQuote hquote position text).bind_pure _

/-- A condition that ends before a colon is refused. -/
theorem outlook_condition (position : Nat) (text : List Char) :
    condition.Outlook (· = []) position text := by
  have hquoted : quotedString.Outlook (· = []) position text :=
    (outlook_quotedString position text).mono fun _ _ => trivial
  refine .named (.bind (.choice hquoted (outlook_rawCondition position text))
    (fun value => ?_) ⟨[], rfl⟩ fun value position text => ?_) _
  · exact fun position => ⟨[], value, by rintro rest rfl; exact ⟨rfl, rfl⟩⟩
  · refine .of_head (· ≠ some ':') value Expected.noColon
      (by simp) (fun cursor h => ?_) (fun cursor h => ?_) position text
    · rw [Rule.upcoming_bind, if_neg h]
      rfl
    · rw [Rule.upcoming_bind, if_pos (not_not.mp h)]
      rfl

/-! What stands between conditions, or-groups and groups ends before solid
text. -/

theorem outlook_spacedWord {word : List Char} (expected : String)
    (hword : IsSolid word) (hne : word ≠ []) (position : Nat)
    (text : List Char) :
    Rule.Outlook (do space; Rule.literal word expected; space : Rule Unit)
      IsSolid position text := by
  have hspace : space.CanFollow (fun _ => True) IsSolid := by
    intro position
    have hblank : IsBlank [' '] := ⟨by simp, List.all_eq_true.mp rfl⟩
    refine ⟨[' '], (), fun rest hrest => ⟨trivial, ?_⟩⟩
    obtain ⟨_, hresult, -⟩ := space_readsAs hblank hrest position
    exact hresult
  refine (outlook_space position text).bind (fun _ => ?_) ⟨[], isSolid_nil⟩
    fun _ position text => ?_
  · exact .bind (.literal (fun rest => hword.append hne rest) _) fun _ => hspace
  · exact (Rule.Outlook.literal _ _ position text).bind
      (fun _ => hspace) ⟨[], trivial⟩ fun _ => outlook_space

theorem outlook_orOp (position : Nat) (text : List Char) :
    orOp.Outlook IsSolid position text :=
  .named (.choice
    (outlook_spacedWord _ (by simp [IsSolid, isSpace]) (by simp) position text)
    (outlook_space position text)) _

theorem outlook_andOp (position : Nat) (text : List Char) :
    andOp.Outlook IsSolid position text :=
  .named (outlook_spacedWord _ (by simp [IsSolid, isSpace, reservedWord])
    (by simp [reservedWord]) position text) _

theorem outlook_row {item : Rule α} {separator : Rule Unit}
    (htakes : (separator >>= fun _ => item).Takes (· ≠ []))
    (hitem : ∀ position text, item.Outlook (· = []) position text)
    (hfollow : item.CanFollow IsSolid (· = []))
    (hseparator : ∀ position text, separator.Outlook IsSolid position text)
    (hend : (separator >>= fun _ => item).Refuses []) (position : Nat)
    (text : List Char) :
    (Rule.separated item separator).Outlook (· = []) position text := by
  refine .separated htakes hitem (fun position text => ?_) ?_
    ⟨[], rfl⟩ position text
  · exact (hseparator position text).bind
      (fun _ => hfollow) ⟨[], isSolid_nil⟩ fun _ => hitem
  · rintro rest rfl
    exact hend

/-! Or-groups, rows of them, and groups. One letter can be written wherever a
condition has to follow. -/

def letter : Requirements :=
  ⟨⟨.bare
      ⟨['x'], by simp, List.all_eq_true.mp rfl, by decide, by decide,
        by simp [IsQuote]⟩,
      []⟩, []⟩

theorem canFollow_condition : condition.CanFollow IsSolid (· = []) :=
  .of_readsAs (condition_readsAs letter.first.first (by simp [IsBoundary]))
    letter.first.first.isSolid_render

theorem outlook_orConditions (position : Nat) (text : List Char) :
    orConditions.Outlook (· = []) position text := by
  refine .named (.bind_pure (.spanned ?_) _) _
  exact outlook_row takes_orOp_condition outlook_condition canFollow_condition
    outlook_orOp (Gap.closesAlternatives ⟨[], by simp⟩).refuses position text

theorem canFollow_orConditions : orConditions.CanFollow IsSolid (· = []) :=
  .of_readsAs (letter.first.readsAs (Gap.closesAlternatives ⟨[], by simp⟩))
    letter.first.isSolid_render

theorem outlook_andConditions (position : Nat) (text : List Char) :
    andConditions.Outlook (· = []) position text := by
  refine .named (.bind_pure (.spanned ?_) _) _
  exact outlook_row takes_andOp_orConditions
    outlook_orConditions canFollow_orConditions
    outlook_andOp (Gap.closesRequirements ⟨[], by simp⟩).refuses position text

theorem outlook_andQuery (position : Nat) (text : List Char) :
    andQuery.Outlook (· = []) position text := by
  refine .named (.bind_pure (.spanned ?_) _) _
  have hfollow : andConditions.CanFollow IsSolid (· = []) :=
    .of_readsAs (letter.readsAs (Gap.closesRequirements ⟨[], by simp⟩))
      letter.isSolid_render
  refine (Rule.Outlook.optional (outlook_field position text)).bind
    (fun _ => ?_) ⟨[], isSolid_nil⟩ fun _ position text => ?_
  · exact hfollow.bind_pure _
  · exact (outlook_andConditions position text).bind_pure _

theorem outlook_endOfInput (position : Nat) (text : List Char) :
    endOfInput.Outlook (· = []) position text := by
  have hunfold (cursor : Cursor) : endOfInput cursor =
      (if cursor.rest.isEmpty then pure ()
      else Rule.missing Expected.endOfInput : Rule Unit) cursor := rfl
  refine .of_head (· = none) () Expected.endOfInput rfl
    (fun cursor h => ?_) (fun cursor h => ?_) position text
  · rw [hunfold, if_pos (List.isEmpty_iff.mpr (List.head?_eq_none_iff.mp h))]
    rfl
  · rw [hunfold,
      if_neg (mt List.isEmpty_iff.mp (mt List.head?_eq_none_iff.mpr h))]
    rfl

theorem outlook_andQueries (position : Nat) (text : List Char) :
    andQueries.Outlook (· = []) position text := by
  have hend (closed : List Char → Prop) (h : closed []) (tree : SyntaxTree) :
      (endOfInput >>= fun _ => pure tree).CanFollow closed (· = []) := by
    refine fun position => ⟨[], tree, ?_⟩
    rintro rest rfl
    exact ⟨h, rfl⟩
  refine .named (.bind (.spanned ?_ : Rule.Outlook _ (· = []) position text)
    (fun _ => ?_) ⟨[], rfl⟩ fun _ position text => ?_) _
  · exact outlook_row takes_space_andQuery outlook_andQuery
      (.of_readsAs (andQuery_readsAs_plain letter
        (Gap.closesRequirements ⟨[], by simp⟩)) letter.isSolid_render)
      outlook_space (Gap.space_andQuery_refuses ⟨[], by simp⟩) position text
  · refine .bind (.optional ?_ fun _ h => h) fun _ => hend (· = []) rfl _
    rintro rest rfl
    exact space_refuses isSolid_nil
  · exact (Rule.Outlook.optional (outlook_space position text)).bind
      (fun _ => hend _ isSolid_nil _) ⟨[], isSolid_nil⟩
      fun _ position text => (outlook_endOfInput position text).bind_pure _

end Grammar

/-- Something can be written after the text that makes it a query. -/
def IsViable (text : List Char) : Prop :=
  ∃ more tree, SyntaxTree.parse (String.ofList (text ++ more)) = .ok tree

theorem IsViable.of_append {left right : List Char}
    (h : IsViable (left ++ right)) : IsViable left := by
  obtain ⟨more, tree, h⟩ := h
  exact ⟨right ++ more, tree, by rwa [← List.append_assoc]⟩

theorem isViable_of_attempt {before after : List Char} {attempt : Attempt}
    (hnone : (Grammar.andQueries ⟨0, before ++ after⟩).result = none)
    (hattempt : attempt ∈ (Grammar.andQueries ⟨0, before ++ after⟩).attempts)
    (hposition : attempt.position = byteSize before) : IsViable before := by
  cases Grammar.outlook_andQueries 0 before with
  | viable more tree h =>
      have hresult := h [] rfl
      rw [List.append_nil] at hresult
      refine ⟨more, tree,
        Grammar.parse_eq_ok_iff.mpr ⟨⟨0 + byteSize (before ++ more), []⟩, ?_⟩⟩
      rw [Cursor.ofText, String.toList_ofList]
      exact hresult
  | refused hquiet =>
      have hbefore := hquiet after attempt hattempt
      omega
  | complete left right value htext hright hquiet h =>
      rw [h] at hnone
      cases hnone

/-- What stands before the reported position can be completed to a query, so a
text that cannot be completed goes on behind that position. -/
theorem isViable_of_parse_error {input : String} {error : SyntaxError}
    (h : SyntaxTree.parse input = .error error) :
    (∃ before after, cutAt? error.position input.toList = some (before, after) ∧
        IsViable before) ∧
      ∀ before after, input.toList = before ++ after → ¬ IsViable before →
        error.position < byteSize before := by
  obtain ⟨hnone, rfl⟩ := Grammar.parse_eq_error_iff.mp h
  obtain ⟨attempt, hattempt, hposition⟩ :=
    Furthest.exists_position_eq_ofAttempts
      (Grammar.attempts_andQueries_ne_nil hnone)
  obtain ⟨before, place, hreads, hplace⟩ :=
    Grammar.ahead_of_mem_andQueries hattempt
  have hinput : input.toList = before ++ place.rest := hreads.rest
  have hsize : byteSize before = attempt.position := by
    rw [← hplace, hreads.position]
    exact (Nat.zero_add _).symm
  rw [Cursor.ofText, hinput] at hnone hattempt
  have hviable := isViable_of_attempt hnone hattempt hsize.symm
  simp only [← hposition, ← hsize]
  refine ⟨⟨before, place.rest, ?_, hviable⟩, fun other after hother hnot => ?_⟩
  · rw [hinput, cutAt?_byteSize]
  · rcases List.prefix_or_prefix_of_prefix ⟨place.rest, hinput.symm⟩
      ⟨after, hother.symm⟩ with
      ⟨right, rfl⟩ | ⟨right, rfl⟩
    · have hright : right ≠ [] := by
        rintro rfl
        rw [List.append_nil] at hnot
        exact hnot hviable
      rw [byteSize_append]
      exact Nat.lt_add_of_pos_right (byteSize_pos hright)
    · exact absurd hviable.of_append hnot

/-- The string is not closed, and everything up to the end of the input can
stay. -/
theorem isViable_of_parse_error_unclosed :
    ∃ error, SyntaxTree.parse "\"é:" = .error error ∧
      error.position = 4 ∧
      (∃ before after,
        cutAt? error.position "\"é:".toList = some (before, after) ∧
          IsViable before) ∧
      ∀ before after, "\"é:".toList = before ++ after →
        ¬ IsViable before → error.position < byteSize before := by
  have h : SyntaxTree.parse "\"é:" =
      .error ⟨4,
        [⟨Expected.closingDoubleQuote,
          ["and_queries", "and_query", "and_conditions", "or_conditions",
            "condition", "quoted_string"]⟩], "\"é:"⟩ := by
    decide +kernel
  exact ⟨_, h, rfl, isViable_of_parse_error h⟩

end TermSearch
