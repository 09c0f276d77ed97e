import TermSearch.Proofs.Grammar.Documented
import TermSearch.Proofs.Grammar.Lossless

namespace TermSearch

open Nonterminal

/-! Each rule of the grammar reads what its documented expression derives, and
fails where that expression fails. -/

namespace Nonterminal

/-! A quoted string is derived up to its closing quote. Without one the
repetition runs on to the end of the input and the quote that should follow is
missing. -/

section Quoted

variable {quote : Char}

theorem derives_backslash (position : Nat) (c : Char) (rest : List Char) :
    Derives documented (quotedCharacter quote) ⟨position, '\\' :: c :: rest⟩
      (some (ParseTree.leaves position ['\\', c],
        ⟨position + '\\'.utf8Size + c.utf8Size, rest⟩)) := by
  have hword : (Cursor.mk position ('\\' :: c :: rest)).Reads ['\\']
      ⟨position + '\\'.utf8Size, c :: rest⟩ := ⟨rfl, rfl⟩
  exact .choice_left (.sequence (.word hword) (.character rfl _ rest))

theorem derives_plain {c : Char} {rest : List Char} (hquote : c ≠ quote)
    (hescape : ∀ next, rest.head? = some next → c ≠ '\\') (position : Nat) :
    Derives documented (quotedCharacter quote) ⟨position, c :: rest⟩
      (some
        (ParseTree.leaves position [c], ⟨position + c.utf8Size, rest⟩)) := by
  have hbackslash : Derives documented (.sequence (.word ['\\']) .any)
      ⟨position, c :: rest⟩ none := by
    by_cases hc : c = '\\'
    · subst hc
      have hword : (Cursor.mk position ('\\' :: rest)).Reads ['\\']
          ⟨position + 1, rest⟩ :=
        ⟨rfl, rfl⟩
      refine .sequence_none_right (.word hword) (.character_none ?_)
      intro next hnext
      exact absurd rfl (hescape next hnext)
    · exact .sequence_none_left (.word_none (by simp [Ne.symm hc]))
  refine .choice_right hbackslash
    (.sequence (.absent (.character_none ?_)) (.character rfl _ _))
  simp [hquote]

theorem derives_at_quote (hquote : quote ≠ '\\') (position : Nat)
    (rest : List Char) :
    Derives documented (quotedCharacter quote) ⟨position, quote :: rest⟩
      none := by
  refine .choice_right
    (.sequence_none_left (.word_none (by simp [Ne.symm hquote]))) ?_
  exact .sequence_none_left (.absent_none (.exactly quote position rest))

theorem derives_at_end (position : Nat) :
    Derives documented (quotedCharacter quote) ⟨position, []⟩ none := by
  refine .choice_right (.sequence_none_left (.word_none (by simp))) ?_
  exact .sequence_none_right (.absent (.character_none (by simp)))
    (.character_none (by simp))

theorem derives_body (hquote : quote ≠ '\\') {body text : List Char}
    (h : EscapedAs quote body text) (position : Nat) (rest : List Char) :
    Derives documented (.many (quotedCharacter quote))
      ⟨position, body ++ quote :: rest⟩
      (some (ParseTree.leaves position body,
        ⟨position + byteSize body, quote :: rest⟩)) := by
  induction h generalizing position with
  | nil => exact .many_done (derives_at_quote hquote position rest)
  | escape c _ ih =>
      have hmore := Derives.many_more (derives_backslash position c _) (ih _)
      simpa only [ParseTree.leaves, List.cons_append, List.nil_append,
        byteSize_cons, Nat.add_assoc] using hmore
  | plain hne hescape _ ih =>
      have hmore :=
        Derives.many_more (derives_plain hne (fun _ _ => hescape) position)
          (ih _)
      simpa [ParseTree.leaves, Nat.add_assoc] using hmore

theorem derives_unclosed (hquote : quote ≠ '\\') {closing : String}
    {position : Nat} {rest : List Char}
    (h : (Grammar.quotedRest quote closing position rest).result = none) :
    ∃ parts stop,
      Derives documented (.many (quotedCharacter quote)) ⟨position, rest⟩
        (some (parts, ⟨stop, []⟩)) := by
  fun_induction Grammar.quotedRest quote closing position rest with
  | case1 position => exact ⟨[], position, .many_done (derives_at_end position)⟩
  | case2 position =>
      have hfirst :
          Derives documented (quotedCharacter quote) ⟨position, ['\\']⟩
            (some (ParseTree.leaves position ['\\'],
              ⟨position + '\\'.utf8Size, []⟩)) :=
        derives_plain (Ne.symm hquote) (by simp) position
      exact ⟨_, _, .many_more hfirst (.many_done (derives_at_end _))⟩
  | case3 position c rest outcome =>
      rename_i ih
      obtain ⟨parts, stop, hmore⟩ := ih (Option.map_eq_none_iff.mp h)
      exact ⟨_, stop, .many_more (derives_backslash position c rest) hmore⟩
  | case4 position rest hdangling hescape => cases h
  | case5 position c rest hdangling hescape hne outcome =>
      rename_i ih
      obtain ⟨parts, stop, hmore⟩ := ih (Option.map_eq_none_iff.mp h)
      refine ⟨_, stop, .many_more (derives_plain hne ?_ position) hmore⟩
      intro next hnext hc
      subst hc
      cases rest with
      | nil => cases hnext
      | cons first rest => exact hescape first rest rfl rfl

theorem derives_quoted (hquote : quote ≠ '\\') {body text : List Char}
    (h : EscapedAs quote body text) {cursor stop : Cursor}
    (hreads : cursor.Reads ([quote] ++ (body ++ [quote])) stop) :
    Derives documented (quoted quote) cursor
      (some (ParseTree.leaves cursor.position ([quote] ++ (body ++ [quote])),
        stop)) := by
  obtain ⟨position, rest⟩ := cursor
  obtain ⟨final, after⟩ := stop
  obtain ⟨hrest, hposition⟩ := hreads
  simp only [List.cons_append, List.nil_append, List.append_assoc]
    at hrest hposition
  subst hrest hposition
  have hbody := derives_body hquote h (position + quote.utf8Size) after
  have hall :=
    Derives.sequence (.exactly quote position (body ++ quote :: after))
      (.sequence hbody
        (.exactly quote (position + quote.utf8Size + byteSize body) after))
  simpa [quoted, ParseTree.leaves, ParseTree.leaves_append, Nat.add_assoc]
    using hall

theorem derives_quoted_unclosed (hquote : quote ≠ '\\') {closing : String}
    {cursor next : Cursor} (hopen : cursor.Reads [quote] next)
    (h : (Grammar.quotedRest quote closing next.position next.rest).result =
      none) :
    Derives documented (quoted quote) cursor none := by
  obtain ⟨position, rest⟩ := cursor
  obtain ⟨after, body⟩ := next
  obtain ⟨hrest, hposition⟩ := hopen
  simp only [List.cons_append, List.nil_append, byteSize_cons, byteSize_nil,
    Nat.add_zero] at hrest hposition
  subst hrest hposition
  obtain ⟨parts, stop, hbody⟩ := derives_unclosed hquote h
  exact .sequence_none_right (.exactly quote position body)
    (.sequence_none_right hbody (.character_none (by simp)))

theorem derives_quoted_none {cursor : Cursor}
    (h : ∀ c ∈ cursor.rest.head?, c ≠ quote) :
    Derives documented (quoted quote) cursor none :=
  .sequence_none_left (.character_none (by simpa using h))

end Quoted

/-! An unquoted condition is derived unless its whole run is the reserved
word. -/

theorem derives_reserved {cursor : Cursor}
    (h : cursor.run isTermChar = reservedWord) :
    ∃ parts stop, Derives documented reserved cursor (some (parts, stop)) := by
  have hreads := Cursor.Reads.afterRun cursor isTermChar
  rw [h] at hreads
  refine ⟨_, _, .sequence (.word hreads) (.absent (.character_none ?_))⟩
  exact fun c hc => cursor.head?_afterRun hc

theorem derives_reserved_none {cursor : Cursor}
    (h : cursor.run isTermChar ≠ reservedWord) :
    Derives documented reserved cursor none := by
  by_cases hword : reservedWord <+: cursor.rest
  · obtain ⟨rest, hrest⟩ := hword
    obtain ⟨position, text⟩ := cursor
    subst hrest
    have hreads : (Cursor.mk position (reservedWord ++ rest)).Reads reservedWord
        ⟨position + byteSize reservedWord, rest⟩ := ⟨rfl, rfl⟩
    refine .sequence_none_right (.word hreads) ?_
    cases rest with
    | nil =>
        exact absurd
          (Cursor.run_mk position isTermChar_reservedWord (by simp)) h
    | cons c rest =>
        cases hc : isTermChar c with
        | true => exact .absent_none (.character hc _ rest)
        | false =>
            have hend : ∀ d ∈ (c :: rest).head?, isTermChar d = false := by
              simp [hc]
            exact absurd (Cursor.run_mk position isTermChar_reservedWord hend) h
  · exact .sequence_none_left (.word_none hword)

end Nonterminal

namespace Grammar

theorem implements_space : space.Implements .space fun _ => some () :=
  Rule.implements_oneOrMore rfl result_space fun _ => rfl

theorem derives_optional_space (cursor : Cursor) :
    ∃ parts, Derives documented (.optional (.rule .space)) cursor
        (some (parts, cursor.afterRun isSpace)) ∧
      parts.filterMap ParseTree.queryGroup? = [] := by
  by_cases hrun : cursor.run isSpace = []
  · have hspace :
        (space cursor).result = none := by rw [result_space, if_pos hrun]
    rw [cursor.afterRun_eq_self hrun]
    exact ⟨[], .optional_none (.rule_none (implements_space.fails hspace)), rfl⟩
  · have hspace : (space cursor).result = some ((), cursor.afterRun isSpace) :=
      space_eq_some_iff.mpr ⟨hrun, rfl⟩
    obtain ⟨parts, hparts, -⟩ := implements_space.reads hspace
    exact ⟨_, .optional_some (.rule hparts), rfl⟩

theorem implements_identifier :
    identifier.Implements .identifier ParseTree.fieldName? := by
  refine Rule.implements_oneOrMore rfl result_identifier fun cursor => ?_
  rw [ParseTree.fieldName?, ParseTree.text_leaves]

theorem implements_multiField :
    multiField.Implements .multiField ParseTree.fieldNames? := by
  have hcomma : (Rule.literal [','] Expected.comma).Separates (.word [','])
      ParseTree.fieldName? :=
    Rule.separates_literal _ _ fun _ _ => rfl
  constructor
  · intro cursor stop names h
    obtain ⟨parts, hparts, hnames⟩ :=
      Rule.derives_separated implements_identifier hcomma
        takes_comma_identifier h
    exact ⟨parts, hparts, by rw [ParseTree.fieldNames?, hnames]⟩
  · intro cursor h
    exact Rule.derives_separated_none implements_identifier h

theorem implements_field : field.Implements .field ParseTree.fieldList? := by
  constructor
  · intro cursor stop list h
    obtain ⟨names, next, colon, hnames, hcolon, rfl, rfl⟩ :=
      field_eq_some_iff.mp h
    obtain ⟨parts, hparts, hfields⟩ := implements_multiField.reads hnames
    obtain ⟨gap, hgap, -⟩ := derives_optional_space colon
    refine ⟨_, .sequence (.rule hparts) (.sequence (.word hcolon) hgap), ?_⟩
    have hstop : colon.position = next.position + ':'.utf8Size :=
      hcolon.position
    simp [ParseTree.leaves, ParseTree.fieldList?, hfields, hstop]
  · intro cursor h
    rw [result_field] at h
    cases hnames : (multiField cursor).result with
    | none =>
        exact .sequence_none_left
          (.rule_none (implements_multiField.fails hnames))
    | some reading =>
        rw [hnames, Option.bind_some, Option.map_eq_none_iff] at h
        obtain ⟨parts, hparts, -⟩ := implements_multiField.reads hnames
        have hcolon := Cursor.after?_eq_none_iff.mp h
        exact .sequence_none_right (.rule hparts)
          (.sequence_none_left (.word_none hcolon))

theorem implements_rawCondition :
    rawCondition.Implements .rawCondition ParseTree.term? := by
  constructor
  · intro cursor stop condition h
    obtain ⟨hnil, hword, rfl, rfl⟩ := rawCondition_eq_some_iff.mp h
    refine ⟨_, .sequence (.absent (derives_reserved_none hword))
      (.oneOrMore_character hnil), ?_⟩
    rw [List.nil_append, ParseTree.term?, ParseTree.text_leaves]
  · intro cursor h
    rw [result_rawCondition] at h
    split at h
    · rename_i hrefused
      by_cases hword : cursor.run isTermChar = reservedWord
      · obtain ⟨parts, stop, hreserved⟩ := derives_reserved hword
        exact .sequence_none_left (.absent_none hreserved)
      · have hnil : cursor.run isTermChar = [] := hrefused.resolve_right hword
        exact .sequence_none_right (.absent (derives_reserved_none hword))
          (.oneOrMore_character_none hnil)
    · cases h

theorem derives_quotedString_none {cursor : Cursor}
    (h : (quotedString cursor).result = none) :
    Derives documented (documented .quotedString) cursor none := by
  by_cases hopening : ∃ c ∈ cursor.rest.head?, IsQuote c
  · obtain ⟨quote, hhead, hquote⟩ := hopening
    obtain ⟨rest, hrest⟩ := List.head?_eq_some_iff.mp hhead
    have hopen :
        cursor.Reads [quote] ⟨cursor.position + byteSize [quote], rest⟩ :=
      ⟨hrest, rfl⟩
    obtain ⟨closing, hresult⟩ := openingQuote_of_reads hquote hopen
    rw [result_quotedString, hresult, Option.bind_some, Option.map_eq_none_iff]
      at h
    have hunclosed := derives_quoted_unclosed hquote.ne_backslash hopen h
    rcases hquote with rfl | rfl
    · exact .choice_right hunclosed (derives_quoted_none (by simp [hrest]))
    · exact .choice_right (derives_quoted_none (by simp [hrest])) hunclosed
  · apply Derives.choice_right
    · exact derives_quoted_none fun c hc hquote => hopening ⟨c, hc, .inl hquote⟩
    · exact derives_quoted_none fun c hc hquote => hopening ⟨c, hc, .inr hquote⟩

theorem implements_quotedString :
    quotedString.Implements .quotedString ParseTree.term? := by
  refine ⟨?_, derives_quotedString_none⟩
  intro cursor stop condition h
  obtain ⟨quote, body, text, hquote, hbody, hreads, rfl⟩ :=
    quotedString_eq_some_iff.mp h
  have hderives := derives_quoted hquote.ne_backslash hbody hreads
  refine ⟨ParseTree.leaves cursor.position ([quote] ++ (body ++ [quote])), ?_,
    ?_⟩
  · rcases hquote with rfl | rfl
    · exact .choice_left hderives
    · refine .choice_right (derives_quoted_none ?_) hderives
      simp [hreads.rest]
  · rw [ParseTree.term?, ParseTree.text_leaves]
    simp [hbody.resolveEscapes_eq]

theorem derives_term {cursor stop : Cursor} {value : Condition}
    (h : (quotedString cursor).result.or (rawCondition cursor).result =
      some (value, stop)) :
    ∃ part,
      Derives documented (.choice (.rule .quotedString) (.rule .rawCondition))
          cursor (some ([part], stop)) ∧
        part.term? = some value := by
  rcases Option.or_eq_some_iff.mp h with hquoted | ⟨hquoted, hraw⟩
  · obtain ⟨parts, hparts, hterm⟩ := implements_quotedString.reads hquoted
    exact ⟨_, .choice_left (.rule hparts), hterm⟩
  · obtain ⟨parts, hparts, hterm⟩ := implements_rawCondition.reads hraw
    have hnone := Derives.rule_none (implements_quotedString.fails hquoted)
    exact ⟨_, .choice_right hnone (.rule hparts), hterm⟩

theorem derives_term_none {cursor : Cursor}
    (h : (quotedString cursor).result.or (rawCondition cursor).result = none) :
    Derives documented (.choice (.rule .quotedString) (.rule .rawCondition))
      cursor none := by
  obtain ⟨hquoted, hraw⟩ := Option.or_eq_none_iff.mp h
  apply Derives.choice_right
  · exact .rule_none (implements_quotedString.fails hquoted)
  · exact .rule_none (implements_rawCondition.fails hraw)

theorem implements_condition :
    condition.Implements .condition ParseTree.condition? := by
  constructor
  · intro cursor stop value h
    rw [result_condition, Option.filter_eq_some_iff, bne_iff_ne] at h
    obtain ⟨part, hpart, hterm⟩ := derives_term h.1
    refine ⟨_, .sequence hpart (.absent (.word_none ?_)), hterm⟩
    intro hcolon
    obtain ⟨rest, hrest⟩ := hcolon
    exact h.2 (by rw [← hrest]; rfl)
  · intro cursor h
    rw [result_condition] at h
    cases hvalue :
      (quotedString cursor).result.or (rawCondition cursor).result with
    | none => exact .sequence_none_left (derives_term_none hvalue)
    | some reading =>
        obtain ⟨part, hpart, -⟩ := derives_term hvalue
        rw [hvalue] at h
        have hhead :
            reading.2.rest.head? = some ':' := by simpa [Option.filter] using h
        obtain ⟨rest, hrest⟩ := List.head?_eq_some_iff.mp hhead
        have hreads :
            reading.2.Reads [':'] ⟨reading.2.position + byteSize [':'], rest⟩ :=
          ⟨hrest, rfl⟩
        exact .sequence_none_right hpart (.absent_none (.word hreads))

/-! The words between conditions, with space on both sides. -/

section SpacedWord

variable (word : List Char) {cursor : Cursor}

theorem derives_spacedWord {stop : Cursor}
    (h : ((space cursor).result.bind fun before =>
        (before.2.after? word).bind fun middle => (space middle).result) =
      some ((), stop)) :
    ∃ parts,
      Derives documented (spacedWord word) cursor (some (parts, stop)) := by
  obtain ⟨⟨_, before⟩, hbefore, hrest⟩ := Option.bind_eq_some_iff.mp h
  obtain ⟨middle, hmiddle, hafter⟩ := Option.bind_eq_some_iff.mp hrest
  obtain ⟨left, hleft, -⟩ := implements_space.reads hbefore
  obtain ⟨right, hright, -⟩ := implements_space.reads hafter
  exact ⟨_, .sequence (.rule hleft)
    (.sequence (.word (Cursor.after?_eq_some_iff.mp hmiddle)) (.rule hright))⟩

theorem derives_spacedWord_none
    (h : ((space cursor).result.bind fun before =>
      (before.2.after? word).bind fun middle => (space middle).result) = none) :
    Derives documented (spacedWord word) cursor none := by
  cases hbefore : (space cursor).result with
  | none =>
      exact .sequence_none_left (.rule_none (implements_space.fails hbefore))
  | some before =>
      obtain ⟨left, hleft, -⟩ := implements_space.reads hbefore
      refine .sequence_none_right (.rule hleft) ?_
      rw [hbefore, Option.bind_some] at h
      cases hword : before.2.after? word with
      | none =>
          exact .sequence_none_left
            (.word_none (Cursor.after?_eq_none_iff.mp hword))
      | some middle =>
          rw [hword, Option.bind_some] at h
          exact .sequence_none_right
            (.word (Cursor.after?_eq_some_iff.mp hword))
            (.rule_none (implements_space.fails h))

end SpacedWord

theorem implements_andOp : andOp.Implements .andOp fun _ => some () := by
  constructor
  · intro cursor stop value h
    rw [result_andOp] at h
    obtain ⟨parts, hparts⟩ := derives_spacedWord reservedWord h
    exact ⟨parts, hparts, rfl⟩
  · intro cursor h
    rw [result_andOp] at h
    exact derives_spacedWord_none reservedWord h

theorem implements_orOp : orOp.Implements .orOp fun _ => some () := by
  constructor
  · intro cursor stop value h
    rw [result_orOp, Option.or_eq_some_iff] at h
    rcases h with hword | ⟨hword, hspace⟩
    · obtain ⟨parts, hparts⟩ := derives_spacedWord ['o', 'r'] hword
      exact ⟨parts, .choice_left hparts, rfl⟩
    · obtain ⟨parts, hparts, -⟩ := implements_space.reads hspace
      exact ⟨_, .choice_right (derives_spacedWord_none ['o', 'r'] hword)
        (.rule hparts), rfl⟩
  · intro cursor h
    rw [result_orOp, Option.or_eq_none_iff] at h
    exact .choice_right (derives_spacedWord_none ['o', 'r'] h.1)
      (.rule_none (implements_space.fails h.2))

theorem implements_orConditions :
    orConditions.Implements .orConditions ParseTree.orGroup? :=
  isRowOf_orConditions.implements implements_condition
    (implements_orOp.separates fun _ _ => rfl) takes_orOp_condition rfl
    fun _ _ => rfl

theorem implements_andConditions :
    andConditions.Implements .andConditions ParseTree.conditions? :=
  isRowOf_andConditions.implements implements_orConditions
    (implements_andOp.separates fun _ _ => rfl) takes_andOp_orConditions rfl
    fun _ _ => rfl

theorem implements_andQuery :
    andQuery.Implements .query ParseTree.queryGroup? := by
  constructor
  · intro cursor stop group h
    obtain ⟨hspan, hgroup⟩ := andQuery_eq_some_iff.mp h
    obtain ⟨fields, conditions, span⟩ := group
    cases hspan
    rcases hgroup with
      ⟨list, next, hfield, rfl, hconditions⟩ | ⟨hfield, rfl, hconditions⟩
    · obtain ⟨names, hnames, hlist⟩ := implements_field.reads hfield
      obtain ⟨parts, hparts, hview⟩ :=
        implements_andConditions.reads hconditions
      refine ⟨_, .sequence (.optional_some (.rule hnames)) (.rule hparts), ?_⟩
      simp [ParseTree.queryGroup?, hlist, hview]
    · obtain ⟨parts, hparts, hview⟩ :=
        implements_andConditions.reads hconditions
      have hnone :=
        Derives.optional_none (.rule_none (implements_field.fails hfield))
      refine ⟨_, .sequence hnone (.rule hparts), ?_⟩
      simp [ParseTree.queryGroup?, hview]
  · intro cursor h
    rw [result_andQuery] at h
    split at h
    · rename_i hfield
      rw [Option.map_eq_none_iff] at h
      have hnone :=
        Derives.optional_none (.rule_none (implements_field.fails hfield))
      exact .sequence_none_right hnone
        (.rule_none (implements_andConditions.fails h))
    · rename_i hfield
      rw [Option.map_eq_none_iff] at h
      obtain ⟨names, hnames, -⟩ := implements_field.reads hfield
      exact .sequence_none_right (.optional_some (.rule hnames))
        (.rule_none (implements_andConditions.fails h))

theorem derives_andQueries {cursor next : Cursor} {groups : List QueryGroup}
    (h : (Rule.separated andQuery space cursor).result = some (groups, next)) :
    ∃ parts, Derives documented (documented .andQueries) cursor
        (some (parts, next.afterRun isSpace)) ∧
      parts.filterMap ParseTree.queryGroup? = groups := by
  obtain ⟨parts, hparts, hview⟩ := Rule.derives_separated implements_andQuery
    (implements_space.separates fun _ _ => rfl) takes_space_andQuery h
  obtain ⟨gap, hgap, hnothing⟩ := derives_optional_space next
  exact ⟨_, .sequence hparts hgap,
    by rw [List.filterMap_append, hview, hnothing, List.append_nil]⟩

end Grammar

/-! Accepted inputs are those that the documented grammar derives to their
end. -/

/-- The documented grammar matches the whole input with this derivation. -/
def DerivesWhole (input : String) (derivation : ParseTree Nonterminal) : Prop :=
  ∃ stop,
    Derives documented (.rule .andQueries) (.ofText input)
        (some ([derivation], stop)) ∧
      stop.rest = []

theorem DerivesWhole.unique {input : String}
    {derivation other : ParseTree Nonterminal}
    (h : DerivesWhole input derivation) (hother : DerivesWhole input other) :
    derivation = other := by
  obtain ⟨stop, hderives, -⟩ := h
  obtain ⟨_, hderives', -⟩ := hother
  cases hderives.unique hderives'
  rfl

theorem derivesWhole_of_parse {input : String} {tree : SyntaxTree}
    (h : SyntaxTree.parse input = .ok tree) :
    ∃ derivation, DerivesWhole input derivation ∧
      derivation.syntaxTree? = some tree := by
  obtain ⟨stop, hresult⟩ := Grammar.parse_eq_ok_iff.mp h
  obtain ⟨next, hgroups, hspan, rfl, hend⟩ :=
    Grammar.andQueries_eq_some_iff.mp hresult
  obtain ⟨parts, hparts, hview⟩ := Grammar.derives_andQueries hgroups
  refine ⟨_, ⟨_, .rule hparts, hend⟩, ?_⟩
  obtain ⟨-, hrow, -⟩ :=
    Grammar.andQueries_lossless (Cursor.isIn_ofText input) hresult
  have hstop := hrow.stop_eq
  simp only [List.getLast?_map, Option.map_eq_some_iff] at hstop
  obtain ⟨_, ⟨last, hlast, rfl⟩, hstop⟩ := hstop
  obtain ⟨groups, span⟩ := tree
  cases hspan
  simp only [ParseTree.syntaxTree?, hview, hlast, Option.map_some, hstop]

theorem parse_of_derivesWhole {input : String}
    {derivation : ParseTree Nonterminal} (h : DerivesWhole input derivation) :
    ∃ tree, SyntaxTree.parse input = .ok tree := by
  obtain ⟨stop, hderives, hend⟩ := h
  cases hgroups :
    (Rule.separated Grammar.andQuery Grammar.space (.ofText input)).result with
  | none =>
      have hrow : Derives documented (.row (.rule .query) (.rule .space))
          (.ofText input) none :=
        Rule.derives_separated_none Grammar.implements_andQuery hgroups
      cases hderives.unique (.rule_none (.sequence_none_left hrow))
  | some reading =>
      obtain ⟨parts, hparts, -⟩ := Grammar.derives_andQueries hgroups
      cases hderives.unique (.rule hparts)
      refine ⟨⟨reading.1, ⟨0, reading.2.position⟩⟩, ?_⟩
      apply Grammar.parse_eq_ok_iff.mpr
      refine ⟨reading.2.afterRun isSpace, ?_⟩
      exact Grammar.andQueries_eq_some_iff.mpr
        ⟨reading.2, hgroups, rfl, rfl, hend⟩

/-- Parsing answers with the tree that the derivation of the whole input builds,
and with an error where there is no such derivation. -/
theorem parse_iff_derivesWhole (input : String) :
    (∀ tree, SyntaxTree.parse input = .ok tree ↔
        ∃ derivation, DerivesWhole input derivation ∧
          derivation.syntaxTree? = some tree) ∧
      ((∃ error, SyntaxTree.parse input = .error error) ↔
        ∀ derivation, ¬ DerivesWhole input derivation) := by
  constructor
  · intro tree
    constructor
    · exact derivesWhole_of_parse
    · intro h
      obtain ⟨derivation, hwhole, htree⟩ := h
      obtain ⟨parsed, hparsed⟩ := parse_of_derivesWhole hwhole
      obtain ⟨other, hother, hbuilt⟩ := derivesWhole_of_parse hparsed
      rw [hwhole.unique hother, hbuilt] at htree
      cases htree
      exact hparsed
  · constructor
    · intro h derivation hwhole
      obtain ⟨error, herror⟩ := h
      obtain ⟨tree, htree⟩ := parse_of_derivesWhole hwhole
      rw [herror] at htree
      cases htree
    · intro h
      cases hparse : SyntaxTree.parse input with
      | error error => exact ⟨error, rfl⟩
      | ok tree =>
          obtain ⟨derivation, hwhole, -⟩ := derivesWhole_of_parse hparse
          exact absurd hwhole (h derivation)

end TermSearch
