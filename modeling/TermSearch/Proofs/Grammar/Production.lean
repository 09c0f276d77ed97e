import TermSearch.Grammar.Parse
import TermSearch.Proofs.Grammar.Reading

namespace TermSearch

/-! What each rule of the grammar reads: the result of a rule in terms of the
rules that it calls, and the form of the texts that it takes. -/

def IsBlank (text : List Char) : Prop :=
  text ≠ [] ∧ ∀ c ∈ text, isSpace c = true

def IsSpacedWord (word text : List Char) : Prop :=
  ∃ before after, IsBlank before ∧ IsBlank after ∧
    text = before ++ word ++ after

def IsOrSeparator (text : List Char) : Prop :=
  IsSpacedWord ['o', 'r'] text ∨ IsBlank text

def IsAndSeparator : List Char → Prop :=
  IsSpacedWord reservedWord

theorem isTermChar_or : ∀ c ∈ ['o', 'r'], isTermChar c = true :=
  List.all_eq_true.mp rfl

theorem isTermChar_reservedWord : ∀ c ∈ reservedWord, isTermChar c = true :=
  List.all_eq_true.mp rfl

theorem IsSpacedWord.ne_nil {word text : List Char}
    (h : IsSpacedWord word text) : text ≠ [] := by
  obtain ⟨before, after, hbefore, -, rfl⟩ := h
  simp [hbefore.1]

theorem IsOrSeparator.ne_nil {text : List Char} (h : IsOrSeparator text) :
    text ≠ [] :=
  h.elim IsSpacedWord.ne_nil (·.1)

def IsQuote (c : Char) : Prop := c = '"' ∨ c = '\''

theorem IsQuote.ne_backslash {quote : Char} (h : IsQuote quote) :
    quote ≠ '\\' := by
  intro hquote
  subst hquote
  exact absurd h (by unfold IsQuote; decide)

def IsNames (text : List Char) : Prop :=
  text ≠ [] ∧ ∀ c ∈ text, isIdentifierChar c = true ∨ c = ','

theorem IsNames.append {left right : List Char} (hleft : IsNames left)
    (hright : IsNames right) : IsNames (left ++ right) :=
  ⟨by simp [hleft.1], List.forall_mem_append.mpr ⟨hleft.2, hright.2⟩⟩

theorem IsNames.all_isTermChar {names : List Char} (h : IsNames names) :
    ∀ c ∈ names, isTermChar c = true := by
  intro c hc
  rcases h.2 c hc with hidentifier | rfl
  · exact isTermChar_of_isIdentifierChar hidentifier
  · decide

theorem IsNames.not_isQuote {names : List Char} (h : IsNames names) :
    ∀ c ∈ names, ¬ IsQuote c := by
  intro c hc hquote
  rcases h.2 c hc with hidentifier | rfl
  · rcases hquote with rfl | rfl <;> exact absurd hidentifier (by decide)
  · exact absurd hquote (by unfold IsQuote; decide)

/-- What stands between two quotes, and the string that it writes: a backslash
stands for the character after it, and neither quote nor backslash stands for
itself. -/
inductive EscapedAs (quote : Char) : List Char → List Char → Prop where
  | nil : EscapedAs quote [] []
  | escape (c : Char) {body text : List Char}
      (hbody : EscapedAs quote body text) :
      EscapedAs quote ('\\' :: c :: body) (c :: text)
  | plain {c : Char} {body text : List Char} (hquote : c ≠ quote)
      (hescape : c ≠ '\\') (hbody : EscapedAs quote body text) :
      EscapedAs quote (c :: body) (c :: text)

namespace Grammar

theorem result_space (cursor : Cursor) :
    (space cursor).result =
      if cursor.run isSpace = [] then none
      else some ((), cursor.afterRun isSpace) := by
  unfold space
  rw [Rule.result_bind, Rule.result_run, Option.bind_some]
  split <;> simp_all

theorem space_eq_some_iff {cursor stop : Cursor} {value : Unit} :
    (space cursor).result = some (value, stop) ↔
      cursor.run isSpace ≠ [] ∧ stop = cursor.afterRun isSpace := by
  rw [result_space]
  split
  · simp_all
  · constructor
    · intro h
      cases h
      exact ⟨‹_›, rfl⟩
    · intro h
      obtain ⟨-, rfl⟩ := h
      rfl

theorem takes_space : space.Takes IsBlank := by
  intro start value stop hresult
  obtain ⟨hrun, rfl⟩ := space_eq_some_iff.mp hresult
  exact ⟨start.run isSpace, ⟨hrun, start.all_run isSpace⟩,
    .afterRun start isSpace⟩

theorem result_optional_space (cursor : Cursor) :
    ∃ taken, (space.optional cursor).result =
      some (taken, cursor.afterRun isSpace) := by
  rw [Rule.result_optional, result_space]
  by_cases hrun : cursor.run isSpace = []
  · exact ⟨none, by rw [if_pos hrun, cursor.afterRun_eq_self hrun]; rfl⟩
  · exact ⟨some (), by rw [if_neg hrun]; rfl⟩

theorem result_identifier (cursor : Cursor) :
    (identifier cursor).result =
      if cursor.run isIdentifierChar = [] then none
      else
        some (⟨String.ofList (cursor.run isIdentifierChar),
          ⟨cursor.position, (cursor.afterRun isIdentifierChar).position⟩⟩,
          cursor.afterRun isIdentifierChar) := by
  unfold identifier
  rw [Rule.result_bind, Rule.result_spanned, Rule.result_run, Option.map_some,
    Option.bind_some]
  split <;> simp_all

theorem identifier_eq_some_iff {cursor stop : Cursor} {field : FieldName} :
    (identifier cursor).result = some (field, stop) ↔
      cursor.run isIdentifierChar ≠ [] ∧
        stop = cursor.afterRun isIdentifierChar ∧
        field =
          ⟨String.ofList (cursor.run isIdentifierChar),
            ⟨cursor.position, stop.position⟩⟩ := by
  rw [result_identifier]
  split
  · simp_all
  · constructor
    · intro h
      cases h
      exact ⟨‹_›, rfl, rfl⟩
    · intro h
      obtain ⟨-, rfl, rfl⟩ := h
      rfl

theorem takes_identifier : identifier.Takes IsNames := by
  intro start field stop hresult
  obtain ⟨hrun, rfl, -⟩ := identifier_eq_some_iff.mp hresult
  refine ⟨start.run isIdentifierChar, ⟨hrun, ?_⟩,
    .afterRun start isIdentifierChar⟩
  exact fun c hc => .inl (start.all_run isIdentifierChar c hc)

theorem takes_comma_identifier :
    (Rule.literal [','] Expected.comma >>= fun _ => identifier).Takes
      (· ≠ []) :=
  Rule.Takes.bind_ne_nil ((Rule.Takes.literal _ _).mono (by simp))
    fun _ => takes_identifier.mono fun _ _ => trivial

theorem takes_multiField : multiField.Takes IsNames := by
  have hcomma : (Rule.literal [','] Expected.comma).Takes IsNames := by
    refine (Rule.Takes.literal _ _).mono ?_
    intro text htext
    exact htext ▸ ⟨by simp, by simp⟩
  exact takes_identifier.separated hcomma (fun h => h.1 rfl) fun _ _ =>
    IsNames.append

theorem result_field (cursor : Cursor) :
    (field cursor).result =
      (multiField cursor).result.bind fun reading =>
        (reading.2.after? [':']).map fun stop =>
          (⟨reading.1, ⟨cursor.position, stop.position⟩⟩,
            stop.afterRun isSpace) := by
  unfold field
  simp only [Rule.result_named, Rule.result_bind, Rule.result_spanned,
    Rule.result_literal]
  cases (multiField cursor).result with
  | none => rfl
  | some reading =>
      cases hcolon : reading.2.after? [':'] with
      | none => simp [hcolon]
      | some stop =>
          obtain ⟨taken, htaken⟩ := result_optional_space stop
          simp [hcolon, htaken]

theorem field_eq_some_iff {cursor stop : Cursor} {list : FieldList} :
    (field cursor).result = some (list, stop) ↔
      ∃ names next colon, (multiField cursor).result = some (names, next) ∧
        next.Reads [':'] colon ∧ stop = colon.afterRun isSpace ∧
        list = ⟨names, ⟨cursor.position, colon.position⟩⟩ := by
  simp only [result_field, Option.bind_eq_some_iff, Option.map_eq_some_iff,
    Cursor.after?_eq_some_iff]
  constructor
  · intro h
    obtain ⟨⟨names, next⟩, hnames, colon, hcolon, hpair⟩ := h
    cases hpair
    exact ⟨names, next, colon, hnames, hcolon, rfl, rfl⟩
  · intro h
    obtain ⟨names, next, colon, hnames, hcolon, rfl, rfl⟩ := h
    exact ⟨(names, next), hnames, colon, hcolon, rfl⟩

theorem result_rawCondition (cursor : Cursor) :
    (rawCondition cursor).result =
      if cursor.run isTermChar = [] ∨ cursor.run isTermChar = reservedWord then
        none
      else
        some (.raw (String.ofList (cursor.run isTermChar))
          ⟨cursor.position, (cursor.afterRun isTermChar).position⟩,
          cursor.afterRun isTermChar) := by
  unfold rawCondition
  rw [Rule.result_named, Rule.result_bind, Rule.result_upcoming,
    Option.bind_some]
  unfold Cursor.run
  split <;> rfl

theorem rawCondition_eq_some_iff {cursor stop : Cursor}
    {condition : Condition} :
    (rawCondition cursor).result = some (condition, stop) ↔
      cursor.run isTermChar ≠ [] ∧
        cursor.run isTermChar ≠ reservedWord ∧
        stop = cursor.afterRun isTermChar ∧
        condition =
          .raw (String.ofList (cursor.run isTermChar))
            ⟨cursor.position, stop.position⟩ := by
  rw [result_rawCondition]
  split
  · rename_i hrefused
    constructor
    · intro h
      cases h
    · intro h
      obtain ⟨hnil, hword, -⟩ := h
      exact absurd hrefused (by simp [hnil, hword])
  · rename_i haccepted
    rw [not_or] at haccepted
    constructor
    · intro h
      cases h
      exact ⟨haccepted.1, haccepted.2, rfl, rfl⟩
    · intro h
      obtain ⟨-, -, rfl, rfl⟩ := h
      rfl

theorem quotedRest_of_escapedAs {quote : Char} (closing : String)
    (hquote : quote ≠ '\\') {body text : List Char}
    (h : EscapedAs quote body text) (position : Nat) (rest : List Char) :
    (quotedRest quote closing position (body ++ quote :: rest)).result =
      some (text, ⟨position + byteSize (body ++ [quote]), rest⟩) := by
  induction h generalizing position with
  | nil =>
      rw [List.nil_append,
        quotedRest.eq_4 _ _ _ _ _ (by simp [hquote]) (by simp [hquote])]
      simp
  | escape c _ ih =>
      simp only [List.cons_append, quotedRest, ih, Option.map_some,
        byteSize_cons]
      simp only [Nat.add_assoc, show ('\\' : Char).utf8Size = 1 from rfl]
  | plain hne hescape _ ih =>
      rw [List.cons_append, quotedRest.eq_4 _ _ _ _ _
        (by simp [hescape]) (by simp [hescape]), if_neg hne]
      simp [ih, Nat.add_assoc]

theorem escapedAs_of_quotedRest {quote : Char} {closing : String}
    {position : Nat} {text rest : List Char} {stop : Cursor}
    (h : (quotedRest quote closing position rest).result = some (text, stop)) :
    ∃ body, EscapedAs quote body text ∧
      (Cursor.mk position rest).Reads (body ++ [quote]) stop := by
  fun_induction quotedRest quote closing position
    rest generalizing text stop with
  | case1 position => cases h
  | case2 position => cases h
  | case3 position c rest outcome =>
      rename_i ih
      obtain ⟨⟨taken, next⟩, htaken, hpair⟩ := Option.map_eq_some_iff.mp h
      cases hpair
      obtain ⟨body, hbody, hreads⟩ := ih htaken
      refine ⟨'\\' :: c :: body, .escape c hbody, ?_, ?_⟩
      · simpa using hreads.rest
      · rw [hreads.position]
        simp only [List.cons_append, byteSize_cons,
          show ('\\' : Char).utf8Size = 1 from rfl, Nat.add_assoc]
  | case4 position rest hdangling hescape =>
      cases h
      exact ⟨[], .nil, by simp, by simp⟩
  | case5 position c rest hdangling hescape hquote outcome =>
      rename_i ih
      obtain ⟨⟨taken, next⟩, htaken, hpair⟩ := Option.map_eq_some_iff.mp h
      cases hpair
      obtain ⟨body, hbody, hreads⟩ := ih htaken
      have hplain : c ≠ '\\' := by
        intro h
        subst h
        cases rest with
        | nil => exact hdangling rfl rfl
        | cons next rest => exact hescape next rest rfl rfl
      refine ⟨c :: body, .plain hquote hplain hbody, ?_, ?_⟩
      · simpa using hreads.rest
      · rw [hreads.position]
        simp [Nat.add_assoc]

theorem result_openingQuote (cursor : Cursor) :
    (openingQuote cursor).result =
      ((cursor.after? ['"']).map fun stop =>
        (('"', Expected.closingDoubleQuote), stop)).or
        ((cursor.after? ['\'']).map fun stop =>
          (('\'', Expected.closingSingleQuote), stop)) := by
  unfold openingQuote
  simp only [Rule.result_choice, Rule.result_bind, Rule.result_literal]
  cases cursor.after? ['"'] <;> cases cursor.after? ['\''] <;> rfl

theorem openingQuote_eq_some_iff {cursor stop : Cursor}
    {opening : Char × String} :
    (openingQuote cursor).result = some (opening, stop) ↔
      (opening = ('"', Expected.closingDoubleQuote) ∨
        opening = ('\'', Expected.closingSingleQuote)) ∧
        cursor.Reads [opening.1] stop := by
  rw [result_openingQuote]
  constructor
  · intro h
    rcases Option.or_eq_some_iff.mp h with h | ⟨-, h⟩
    · obtain ⟨next, hnext, hpair⟩ := Option.map_eq_some_iff.mp h
      cases hpair
      exact ⟨.inl rfl, Cursor.after?_eq_some_iff.mp hnext⟩
    · obtain ⟨next, hnext, hpair⟩ := Option.map_eq_some_iff.mp h
      cases hpair
      exact ⟨.inr rfl, Cursor.after?_eq_some_iff.mp hnext⟩
  · rintro ⟨rfl | rfl, hreads⟩
    · rw [Cursor.after?_eq_some_iff.mpr hreads]
      rfl
    · have hother : cursor.after? ['"'] = none := by
        rw [Cursor.after?_eq_none_iff, hreads.rest]
        simp
      rw [hother, Cursor.after?_eq_some_iff.mpr hreads]
      rfl

theorem openingQuote_eq_some {cursor stop : Cursor} {opening : Char × String}
    (h : (openingQuote cursor).result = some (opening, stop)) :
    IsQuote opening.1 ∧ cursor.Reads [opening.1] stop := by
  obtain ⟨rfl | rfl, hreads⟩ := openingQuote_eq_some_iff.mp h
  · exact ⟨.inl rfl, hreads⟩
  · exact ⟨.inr rfl, hreads⟩

theorem openingQuote_of_reads {cursor stop : Cursor} {quote : Char}
    (hquote : IsQuote quote) (h : cursor.Reads [quote] stop) :
    ∃ closing,
      (openingQuote cursor).result = some ((quote, closing), stop) := by
  rcases hquote with rfl | rfl
  · exact ⟨_, openingQuote_eq_some_iff.mpr ⟨.inl rfl, h⟩⟩
  · exact ⟨_, openingQuote_eq_some_iff.mpr ⟨.inr rfl, h⟩⟩

theorem result_quotedString (cursor : Cursor) :
    (quotedString cursor).result =
      (openingQuote cursor).result.bind fun opening =>
        (quotedRest opening.1.1 opening.1.2 opening.2.position
          opening.2.rest).result.map
          fun reading =>
            (.quoted (String.ofList reading.1) opening.1.1
              ⟨cursor.position, reading.2.position⟩, reading.2) := by
  unfold quotedString
  rw [Rule.result_named, Rule.result_bind, Rule.result_spanned,
    Rule.result_bind]
  cases (openingQuote cursor).result with
  | none => rfl
  | some opening =>
      obtain ⟨⟨quote, closing⟩, next⟩ := opening
      let readRest : Rule (List Char) := fun cursor =>
        quotedRest quote closing cursor.position cursor.rest
      change (Option.map _
        ((readRest >>= fun text => pure (text, quote)) next).result).bind _ =
        Option.map _ (readRest next).result
      rw [Rule.result_bind]
      cases (readRest next).result <;> rfl

theorem quotedString_eq_some_iff {cursor stop : Cursor}
    {condition : Condition} :
    (quotedString cursor).result = some (condition, stop) ↔
      ∃ quote body text, IsQuote quote ∧
        EscapedAs quote body text ∧
        cursor.Reads ([quote] ++ (body ++ [quote])) stop ∧
        condition =
          .quoted (String.ofList text) quote
            ⟨cursor.position, stop.position⟩ := by
  rw [result_quotedString, Option.bind_eq_some_iff]
  constructor
  · intro h
    obtain ⟨⟨⟨quote, closing⟩, next⟩, hopening, hrest⟩ := h
    obtain ⟨⟨text, _⟩, htext, hpair⟩ := Option.map_eq_some_iff.mp hrest
    cases hpair
    obtain ⟨hquote, hreads⟩ := openingQuote_eq_some hopening
    obtain ⟨body, hbody, hbodyReads⟩ := escapedAs_of_quotedRest htext
    exact ⟨quote, body, text, hquote, hbody, hreads.trans hbodyReads, rfl⟩
  · intro h
    obtain ⟨quote, body, text, hquote, hbody, hreads, rfl⟩ := h
    have hopen : cursor.Reads [quote]
        ⟨cursor.position + byteSize [quote], body ++ quote :: stop.rest⟩ :=
      ⟨by simp [hreads.rest], rfl⟩
    obtain ⟨closing, hopening⟩ := openingQuote_of_reads hquote hopen
    refine ⟨_, hopening, ?_⟩
    rw [quotedRest_of_escapedAs closing hquote.ne_backslash hbody]
    have hstop :
        (⟨cursor.position + byteSize [quote] + byteSize (body ++ [quote]),
          stop.rest⟩ : Cursor) = stop := by
      rw [Nat.add_assoc, ← byteSize_append, ← hreads.position]
    rw [Option.map_some, hstop]

theorem quotedString_eq_none {cursor : Cursor}
    (h : ∀ c ∈ cursor.rest.head?, ¬ IsQuote c) :
    (quotedString cursor).result = none := by
  rw [Option.eq_none_iff_forall_ne_some]
  rintro ⟨condition, stop⟩ hresult
  obtain ⟨quote, body, text, hquote, -, hreads, -⟩ :=
    quotedString_eq_some_iff.mp hresult
  exact h quote (by simp [hreads.rest]) hquote

theorem result_condition (cursor : Cursor) :
    (condition cursor).result =
      ((quotedString cursor).result.or (rawCondition cursor).result).filter
        fun reading => reading.2.rest.head? != some ':' := by
  unfold condition
  rw [Rule.result_named, Rule.result_bind, Rule.result_choice]
  cases (quotedString cursor).result.or (rawCondition cursor).result with
  | none => rfl
  | some reading =>
      rw [Option.bind_some, Rule.result_bind, Rule.result_upcoming,
        Option.bind_some]
      by_cases hcolon : reading.2.rest.head? = some ':' <;>
        simp [hcolon, Option.filter]

theorem result_orOp (cursor : Cursor) :
    (orOp cursor).result =
      ((space cursor).result.bind fun before =>
        (before.2.after? ['o', 'r']).bind fun word => (space word).result).or
        (space cursor).result := by
  unfold orOp
  simp only [Rule.result_named, Rule.result_choice, Rule.result_bind,
    Rule.result_literal]
  cases (space cursor).result with
  | none => rfl
  | some before => cases hword : before.2.after? ['o', 'r'] <;> simp [hword]

theorem result_andOp (cursor : Cursor) :
    (andOp cursor).result =
      (space cursor).result.bind fun before =>
        (before.2.after? reservedWord).bind fun word =>
          (space word).result := by
  unfold andOp
  simp only [Rule.result_named, Rule.result_bind, Rule.result_literal]
  cases (space cursor).result with
  | none => rfl
  | some before => cases hword : before.2.after? reservedWord <;> simp [hword]

theorem isRowOf_named_spanned (name : String) (make : List α → Span → β)
    (item : Rule α) (separator : Rule Unit) :
    (Rule.named name do
      let (values, span) ← Rule.spanned (Rule.separated item separator)
      pure (make values span)).IsRowOf make item separator := by
  intro cursor
  rw [Rule.result_named, Rule.result_bind, Rule.result_spanned]
  cases (Rule.separated item separator cursor).result <;> rfl

theorem isRowOf_orConditions : orConditions.IsRowOf OrGroup.mk condition orOp :=
  isRowOf_named_spanned "or_conditions" OrGroup.mk condition orOp

theorem isRowOf_andConditions :
    andConditions.IsRowOf Conditions.mk orConditions andOp :=
  isRowOf_named_spanned "and_conditions" Conditions.mk orConditions andOp

theorem result_andQuery (cursor : Cursor) :
    (andQuery cursor).result =
      match (field cursor).result with
      | none =>
          (andConditions cursor).result.map fun reading =>
            (⟨none, reading.1, ⟨cursor.position, reading.2.position⟩⟩,
              reading.2)
      | some (list, next) =>
          (andConditions next).result.map fun reading =>
            (⟨some list, reading.1, ⟨cursor.position, reading.2.position⟩⟩,
              reading.2) := by
  unfold andQuery
  simp only [Rule.result_named, Rule.result_bind, Rule.result_spanned,
    Rule.result_optional, Option.bind_some]
  cases (field cursor).result with
  | none =>
      simp only [Option.elim_none]
      cases (andConditions cursor).result <;> rfl
  | some reading =>
      simp only [Option.elim_some]
      cases (andConditions reading.2).result <;> rfl

theorem result_andQueries (cursor : Cursor) :
    (andQueries cursor).result =
      (Rule.separated andQuery space cursor).result.bind fun reading =>
        if (reading.2.afterRun isSpace).rest = [] then
          some (⟨reading.1, ⟨cursor.position, reading.2.position⟩⟩,
            reading.2.afterRun isSpace)
        else none := by
  unfold andQueries endOfInput
  simp only [Rule.result_named, Rule.result_bind, Rule.result_spanned]
  cases (Rule.separated andQuery space cursor).result with
  | none => rfl
  | some reading =>
      obtain ⟨taken, htaken⟩ := result_optional_space reading.2
      simp only [Option.map_some, Option.bind_some, htaken,
        Rule.result_upcoming]
      split <;> simp_all

theorem condition_eq_some_iff {cursor : Cursor} {reading : Condition × Cursor} :
    (condition cursor).result = some reading ↔
      ((quotedString cursor).result = some reading ∨
          (quotedString cursor).result = none ∧
            (rawCondition cursor).result = some reading) ∧
        reading.2.rest.head? ≠ some ':' := by
  rw [result_condition, Option.filter_eq_some_iff,
    Option.or_eq_some_iff, bne_iff_ne]

theorem parse_eq_ok_iff {input : String} {tree : SyntaxTree} :
    SyntaxTree.parse input = .ok tree ↔
      ∃ stop, (andQueries (.ofText input)).result = some (tree, stop) := by
  unfold SyntaxTree.parse
  cases hresult : (andQueries (.ofText input)).result with
  | none => simp [hresult]
  | some reading =>
      simp only [hresult, Except.ok.injEq, Option.some.injEq]
      exact ⟨fun h => ⟨reading.2, by rw [← h]⟩, fun ⟨stop, h⟩ => by rw [h]⟩

theorem andQueries_eq_some_iff {cursor stop : Cursor} {tree : SyntaxTree} :
    (andQueries cursor).result = some (tree, stop) ↔
      ∃ next,
        (Rule.separated andQuery space cursor).result =
            some (tree.groups, next) ∧
          tree.span = ⟨cursor.position, next.position⟩ ∧
          stop = next.afterRun isSpace ∧
          stop.rest = [] := by
  rw [result_andQueries, Option.bind_eq_some_iff]
  constructor
  · intro h
    obtain ⟨⟨groups, next⟩, hgroups, htree⟩ := h
    split at htree
    · rename_i hend
      cases htree
      exact ⟨next, hgroups, rfl, rfl, hend⟩
    · cases htree
  · intro h
    obtain ⟨next, hgroups, hspan, rfl, hend⟩ := h
    obtain ⟨groups, span⟩ := tree
    cases hspan
    exact ⟨(groups, next), hgroups, by rw [if_pos hend]⟩

theorem andQuery_eq_some_iff {cursor stop : Cursor} {group : QueryGroup} :
    (andQuery cursor).result = some (group, stop) ↔
      group.span = ⟨cursor.position, stop.position⟩ ∧
        ((∃ list next, (field cursor).result = some (list, next) ∧
            group.fields = some list ∧
            (andConditions next).result = some (group.conditions, stop)) ∨
          (field cursor).result = none ∧
            group.fields = none ∧
            (andConditions cursor).result = some (group.conditions, stop)) := by
  rw [result_andQuery]
  obtain ⟨fields, conditions, span⟩ := group
  cases (field cursor).result with
  | none =>
      rw [Option.map_eq_some_iff]
      constructor
      · intro h
        obtain ⟨reading, hreading, hpair⟩ := h
        cases hpair
        exact ⟨rfl, .inr ⟨rfl, rfl, hreading⟩⟩
      · intro h
        obtain ⟨hspan, ⟨list, next, hfield, -⟩ | ⟨-, hnone, hconditions⟩⟩ := h
        · cases hfield
        · cases hspan
          cases hnone
          exact ⟨_, hconditions, rfl⟩
  | some reading =>
      obtain ⟨list, next⟩ := reading
      rw [Option.map_eq_some_iff]
      constructor
      · intro h
        obtain ⟨reading, hreading, hpair⟩ := h
        cases hpair
        exact ⟨rfl, .inl ⟨list, next, rfl, rfl, hreading⟩⟩
      · intro h
        obtain ⟨hspan, ⟨_, _, hfield, hsome, hconditions⟩ | ⟨hfield, -⟩⟩ := h
        · cases hfield
          cases hspan
          cases hsome
          exact ⟨_, hconditions, rfl⟩
        · cases hfield

/-! The texts that the rules take. -/

theorem takes_quotedString : quotedString.Takes (· ≠ []) := by
  intro start condition stop hresult
  obtain ⟨quote, body, text, -, -, hreads, -⟩ :=
    quotedString_eq_some_iff.mp hresult
  exact ⟨_, by simp, hreads⟩

theorem takes_rawCondition : rawCondition.Takes (· ≠ []) := by
  intro start condition stop hresult
  obtain ⟨hrun, -, rfl, -⟩ := rawCondition_eq_some_iff.mp hresult
  exact ⟨start.run isTermChar, hrun, .afterRun start isTermChar⟩

theorem takes_condition : condition.Takes (· ≠ []) := by
  intro start condition stop hresult
  rcases condition_eq_some_iff.mp hresult with ⟨hquoted | ⟨-, hraw⟩, -⟩
  · exact takes_quotedString hquoted
  · exact takes_rawCondition hraw

theorem takes_spacedWord (word : List Char) (expected : String) :
    (do space; Rule.literal word expected; space : Rule Unit).Takes
      (IsSpacedWord word) := by
  have htakes := takes_space.bind fun _ =>
      (Rule.Takes.literal word expected).bind fun _ => takes_space
  refine htakes.mono ?_
  intro text h
  obtain ⟨before, _, hbefore, ⟨_, after, rfl, hafter, rfl⟩, rfl⟩ := h
  exact ⟨before, after, hbefore, hafter, by rw [List.append_assoc]⟩

theorem takes_orOp : orOp.Takes IsOrSeparator :=
  ((takes_spacedWord _ _).mono fun _ => .inl).choice
    (takes_space.mono fun _ => .inr)

theorem takes_andOp : andOp.Takes IsAndSeparator :=
  takes_spacedWord reservedWord Expected.andWord

theorem takes_orOp_condition : (orOp >>= fun _ => condition).Takes (· ≠ []) :=
  (takes_orOp.mono fun _ => IsOrSeparator.ne_nil).bind_ne_nil
    fun _ => takes_condition.mono fun _ _ => trivial

theorem takes_orConditions : orConditions.Takes (· ≠ []) :=
  isRowOf_orConditions.takes_ne_nil takes_condition
    (takes_orOp.mono fun _ => IsOrSeparator.ne_nil)

theorem takes_andOp_orConditions :
    (andOp >>= fun _ => orConditions).Takes (· ≠ []) :=
  (takes_andOp.mono fun _ => IsSpacedWord.ne_nil).bind_ne_nil
    fun _ => takes_orConditions.mono fun _ _ => trivial

theorem takes_andConditions : andConditions.Takes (· ≠ []) :=
  isRowOf_andConditions.takes_ne_nil takes_orConditions
    (takes_andOp.mono fun _ => IsSpacedWord.ne_nil)

theorem takes_field : field.Takes (· ≠ []) := by
  intro start list stop hresult
  obtain ⟨names, next, colon, hnames, hcolon, rfl, -⟩ :=
    field_eq_some_iff.mp hresult
  obtain ⟨text, htext, hreads⟩ := takes_multiField hnames
  exact ⟨_,
    by simp [htext.1], (hreads.trans hcolon).trans (.afterRun colon isSpace)⟩

theorem takes_andQuery : andQuery.Takes (· ≠ []) := by
  intro start group stop hresult
  rcases andQuery_eq_some_iff.mp hresult with
    ⟨-, ⟨list, next, hfield, -, hconditions⟩ | ⟨-, -, hconditions⟩⟩
  · obtain ⟨left, hleft, hreadsLeft⟩ := takes_field hfield
    obtain ⟨right, -, hreadsRight⟩ := takes_andConditions hconditions
    exact ⟨left ++ right, by simp [hleft], hreadsLeft.trans hreadsRight⟩
  · exact takes_andConditions hconditions

theorem takes_space_andQuery : (space >>= fun _ => andQuery).Takes (· ≠ []) :=
  (takes_space.mono fun _ => (·.1)).bind_ne_nil
    fun _ => takes_andQuery.mono fun _ _ => trivial

end Grammar

end TermSearch
