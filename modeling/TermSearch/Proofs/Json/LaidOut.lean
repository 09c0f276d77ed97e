import TermSearch.Proofs.Json.Spelling

namespace TermSearch.Json

open Decimal

/-! Texts in which tokens stand one after another, with blanks between them as a
layout wants it. Cutting such a text into tokens forgets the layout, and without
the blanks outside of its strings the text is the one on a single line. -/

mutual
/-- The text without the blanks outside of its strings. -/
def stripped : List Char → List Char
  | [] => []
  | c :: rest =>
      if c = '"' then c :: strippedString rest
      else if isBlank c then stripped rest
      else c :: stripped rest

def strippedString : List Char → List Char
  | [] => []
  | '\\' :: c :: rest => '\\' :: c :: strippedString rest
  | c :: rest =>
      if c = '"' then c :: stripped rest else c :: strippedString rest
end

theorem stripped_blanks {blanks : List Char}
    (h : ∀ c ∈ blanks, isBlank c = true) (text : List Char) :
    stripped (blanks ++ text) = stripped text := by
  induction blanks with
  | nil => rfl
  | cons c blanks ih =>
      obtain ⟨hc, hblanks⟩ := List.forall_mem_cons.mp h
      have hquote : c ≠ '"' := by
        rintro rfl
        contradiction
      rw [List.cons_append, stripped, if_neg hquote, if_pos hc, ih hblanks]

theorem stripped_word {word : List Char}
    (h : ∀ c ∈ word, c ≠ '"' ∧ isBlank c = false) (text : List Char) :
    stripped (word ++ text) = word ++ stripped text := by
  induction word with
  | nil => rfl
  | cons c word ih =>
      obtain ⟨⟨hquote, hc⟩, hword⟩ := List.forall_mem_cons.mp h
      rw [List.cons_append, stripped, if_neg hquote, if_neg (by simp [hc]),
        ih hword, List.cons_append]

theorem strippedString_word {word : List Char}
    (h : ∀ c ∈ word, c ≠ '"' ∧ c ≠ '\\') (text : List Char) :
    strippedString (word ++ text) = word ++ strippedString text := by
  induction word with
  | nil => rfl
  | cons c word ih =>
      obtain ⟨⟨hquote, hbackslash⟩, hword⟩ := List.forall_mem_cons.mp h
      rw [List.cons_append, strippedString, if_neg hquote, ih hword,
        List.cons_append]
      intro _ _ heq
      exact absurd heq hbackslash

theorem ne_of_mem_hexPair {n : Nat} (h : n < 0x20) :
    ∀ c ∈ '0' :: '0' :: Text.hexPair n, c ≠ '"' ∧ c ≠ '\\' := by
  have hall : ∀ n < 0x20,
      ('0' :: '0' :: Text.hexPair n).all
          (fun c => decide (c ≠ '"' ∧ c ≠ '\\')) =
        true := by
    decide
  simpa only [List.all_eq_true, decide_eq_true_eq] using hall n h

theorem strippedString_escapeChar (c : Char) (text : List Char) :
    strippedString (escapeChar c ++ text) =
      escapeChar c ++ strippedString text := by
  rcases escapeChar_cases c with
    ⟨letter, -, -, hescape⟩ | ⟨hcontrol, hescape⟩ | ⟨hquote,
      hbackslash, -, hescape⟩
  · rw [hescape]
    rfl
  · rw [hescape]
    exact congrArg (fun rest => '\\' :: 'u' :: rest)
      (strippedString_word (ne_of_mem_hexPair hcontrol) text)
  · rw [hescape]
    exact strippedString_word (by simp [hquote, hbackslash]) text

theorem strippedString_escape (text rest : List Char) :
    strippedString (text.flatMap escapeChar ++ '"' :: rest) =
      text.flatMap escapeChar ++ '"' :: stripped rest := by
  induction text with
  | nil => rfl
  | cons c text ih =>
      rw [List.flatMap_cons, List.append_assoc, strippedString_escapeChar, ih,
        List.append_assoc]

theorem printed_of_mem_hexPair {n : Nat} (h : n < 0x20) :
    ∀ c ∈ '\\' :: 'u' :: '0' :: '0' :: Text.hexPair n, 0x20 ≤ c.toNat := by
  have hall : ∀ n < 0x20,
      ('\\' :: 'u' :: '0' :: '0' :: Text.hexPair n).all
          (fun c => decide (0x20 ≤ c.toNat)) =
        true := by
    decide
  simpa only [List.all_eq_true, decide_eq_true_eq] using hall n h

theorem printed_of_shortEscape? {letter c : Char}
    (h : shortEscape? letter = some c) : 0x20 ≤ letter.toNat := by
  have hletter : letter ∈ ['"', '\\', '/', 'b', 'f', 'n', 'r', 't'] := by
    grind [shortEscape?]
  have hall : ∀ letter ∈ ['"', '\\', '/', 'b', 'f', 'n', 'r', 't'],
      0x20 ≤ letter.toNat := by
    simp
  exact hall letter hletter

theorem printed_of_mem_escapeChar {c written : Char}
    (h : c ∈ escapeChar written) : 0x20 ≤ c.toNat := by
  rcases escapeChar_cases written with
    ⟨letter, -, hshort,
      hescape⟩ | ⟨hcontrol, hescape⟩ | ⟨-, -, hprinted, hescape⟩
  · rw [hescape] at h
    rcases List.mem_cons.mp h with rfl | h
    · decide
    · rw [List.mem_singleton.mp h]
      exact printed_of_shortEscape? hshort
  · rw [hescape] at h
    exact printed_of_mem_hexPair hcontrol c h
  · rw [hescape, List.mem_singleton] at h
    rw [h]
    exact Nat.le_of_not_lt hprinted

namespace Token

/-- No blank outside of a string is part of a token. -/
theorem stripped_spelled {token : Token} (h : token.IsPlain)
    (text : List Char) :
    stripped (token.spelled ++ text) = token.spelled ++ stripped text := by
  cases token with
  | opening bracket =>
      cases bracket <;>
        exact stripped_word (by simp [spelled, Bracket.opened, isBlank]) text
  | closing bracket =>
      cases bracket <;>
        exact stripped_word (by simp [spelled, Bracket.closed, isBlank]) text
  | comma => exact stripped_word (by simp [spelled, isBlank]) text
  | colon => exact stripped_word (by simp [spelled, isBlank]) text
  | null => exact stripped_word (by simp [spelled, isBlank]) text
  | bool value =>
      cases value <;> exact stripped_word (by simp [spelled, isBlank]) text
  | number numeral =>
      obtain ⟨n, rfl⟩ := h
      rw [spelled_ofNat]
      refine stripped_word (fun c hc => ?_) text
      have hdigit := isDigit_of_mem_toDigits hc
      refine ⟨?_, isBlank_eq_false_of_isDigit hdigit⟩
      rintro rfl
      contradiction
  | string text' =>
      obtain ⟨content, rfl⟩ := Option.isSome_iff_exists.mp h
      have hcontent := strippedString_escape content text
      simp only [spelled, List.cons_append, List.append_assoc, List.nil_append]
      rw [stripped, if_pos rfl, hcontent]
  | invalid => exact h.elim

theorem printed_of_mem_spelled {token : Token} (h : token.IsPlain) :
    ∀ c ∈ token.spelled, 0x20 ≤ c.toNat := by
  cases token with
  | opening bracket => cases bracket <;> simp [spelled, Bracket.opened]
  | closing bracket => cases bracket <;> simp [spelled, Bracket.closed]
  | comma => simp [spelled]
  | colon => simp [spelled]
  | null => simp [spelled]
  | bool value => cases value <;> simp [spelled]
  | number numeral =>
      obtain ⟨n, rfl⟩ := h
      intro c hc
      rw [spelled_ofNat] at hc
      have hdigit := isDigit_of_mem_toDigits hc
      simp only [Char.isDigit, Bool.and_eq_true, decide_eq_true_eq] at hdigit
      exact Nat.le_trans (by decide) hdigit.1
  | string text =>
      obtain ⟨content, rfl⟩ := Option.isSome_iff_exists.mp h
      intro c hc
      simp only [spelled, List.cons_append, List.mem_cons, List.mem_append,
        List.mem_flatMap, List.not_mem_nil, or_false] at hc
      rcases hc with rfl | ⟨written, -, hwritten⟩ | rfl
      · decide
      · exact printed_of_mem_escapeChar hwritten
      · decide
  | invalid => exact h.elim

end Token

/-- The text has the tokens one after another, with blanks before, between and
after them, and no number runs into what follows it. -/
inductive IsLaidOut : List Token → List Char → Prop
  | nil {blanks : List Char} (hblanks : ∀ c ∈ blanks, isBlank c = true) :
      IsLaidOut [] blanks
  | cons {blanks text : List Char} {token : Token} {tokens : List Token}
      (hblanks : ∀ c ∈ blanks, isBlank c = true) (hplain : token.IsPlain)
      (hend : token.IsNumber → EndsNumber text)
      (htext : IsLaidOut tokens text) :
      IsLaidOut (token :: tokens) (blanks ++ (token.spelled ++ text))

namespace IsLaidOut

variable {ts : List Token} {text : List Char}

theorem blanks_append (h : IsLaidOut ts text) {blanks : List Char}
    (hblanks : ∀ c ∈ blanks, isBlank c = true) :
    IsLaidOut ts (blanks ++ text) := by
  cases h with
  | nil hmore => exact .nil (List.forall_mem_append.mpr ⟨hblanks, hmore⟩)
  | cons hmore hplain hend htext =>
      rw [← List.append_assoc]
      exact .cons (List.forall_mem_append.mpr ⟨hblanks, hmore⟩) hplain hend
        htext

theorem isSpread (h : IsLaidOut ts text) : IsSpread ts text := by
  induction h with
  | nil hblanks => exact .nil hblanks
  | cons hblanks hplain _ _ ih => exact .cons hblanks hplain.spelling_spelled ih

/-- Whatever the layout, the text is cut into these tokens. -/
theorem tokens_eq (h : IsLaidOut ts text) : tokens text = ts := by
  induction h with
  | nil hblanks =>
      rw [tokens, List.dropWhile_eq_nil_iff.mpr hblanks]
  | @cons blanks text token ts hblanks hplain hend _ ih =>
      have hread := hplain.spelling_spelled.token?_append hend
      obtain ⟨c, rest, hspelled, hc, -⟩ :=
        hplain.spelling_spelled.exists_eq_cons
      rw [hspelled] at hread ⊢
      rw [tokens_cons hblanks hc hread, ih]

theorem stripped_eq (h : IsLaidOut ts text) :
    stripped text = ts.flatMap Token.spelled := by
  induction h with
  | nil hblanks => simpa [stripped] using stripped_blanks hblanks []
  | cons hblanks hplain _ _ ih =>
      rw [stripped_blanks hblanks, Token.stripped_spelled hplain, ih,
        List.flatMap_cons]

end IsLaidOut

/-- Tokens that can be written without two numbers running into one. -/
structure IsWritable (ts : List Token) : Prop where
  plain : ∀ token ∈ ts, token.IsPlain
  numbers : ts.IsChain fun token next => token.IsNumber → ¬ next.IsNumber

namespace IsWritable

variable {left right : List Token} {token : Token} {items : List (List Token)}

theorem nil : IsWritable [] :=
  ⟨List.forall_mem_nil _, .nil⟩

theorem singleton (h : token.IsPlain) : IsWritable [token] :=
  ⟨by simpa using h, .singleton _⟩

theorem append_cons (hleft : IsWritable left) (hplain : token.IsPlain)
    (htoken : ¬ token.IsNumber) (hright : IsWritable right) :
    IsWritable (left ++ token :: right) where
  plain := List.forall_mem_append.mpr
    ⟨hleft.plain, List.forall_mem_cons.mpr ⟨hplain, hright.plain⟩⟩
  numbers := NumbersApart.append hleft.numbers (.cons htoken hright.numbers)
    (by simpa using htoken)

theorem cons (hplain : token.IsPlain) (htoken : ¬ token.IsNumber)
    (hright : IsWritable right) : IsWritable (token :: right) :=
  nil.append_cons hplain htoken hright

theorem intercalate_comma (h : ∀ item ∈ items, IsWritable item) :
    IsWritable ([Token.comma].intercalate items) :=
  intercalate_comma_induction nil
    (fun _ _ hleft hright => hleft.append_cons trivial not_false hright) h

theorem array (h : ∀ item ∈ items, IsWritable item) :
    IsWritable (array items) :=
  .cons trivial not_false <|
    (intercalate_comma h).append_cons trivial not_false nil

theorem object {members : List (String × List Token)}
    (h : ∀ member ∈ members, IsWritable member.2) :
    IsWritable (object members) := by
  refine .cons trivial not_false <|
    (intercalate_comma ?_).append_cons trivial not_false nil
  rw [List.forall_mem_map]
  exact fun member hmember => .cons rfl not_false <| .cons trivial not_false <|
    h member hmember

end IsWritable

theorem isLaidOut_spread {gap : Nat → Token → Token → List Char}
    (hgap : ∀ depth token next, ∀ c ∈ gap depth token next, isBlank c = true)
    {ts : List Token} (h : IsWritable ts) (depth : Nat) :
    IsLaidOut ts (spread gap depth ts) := by
  induction ts generalizing depth with
  | nil => exact .nil (by simp [spread])
  | cons token ts ih =>
      have hplain := h.plain token List.mem_cons_self
      cases ts with
      | nil =>
          have hlast : IsLaidOut [] [] := .nil (by simp)
          simpa [spread] using IsLaidOut.cons (List.forall_mem_nil _) hplain
            (fun _ => hlast.isSpread.endsNumber (by simp)) hlast
      | cons next rest =>
          have hrest : IsWritable (next :: rest) :=
            ⟨(List.forall_mem_cons.mp h.plain).2,
              (List.isChain_cons_cons.mp h.numbers).2⟩
          have hafter := (ih hrest (token.depthAfter depth)).blanks_append
            (hgap (token.depthAfter depth) token next)
          have hend : token.IsNumber →
              ∀ other ∈ (next :: rest).head?, ¬ other.IsNumber := by
            rintro hnumber _ ⟨⟩
            exact (List.isChain_cons_cons.mp h.numbers).1 hnumber
          rw [spread, List.append_assoc]
          exact IsLaidOut.cons (List.forall_mem_nil _) hplain
            (fun hnumber => hafter.isSpread.endsNumber (hend hnumber)) hafter

theorem isBlank_of_mem_indentedGap {depth : Nat} {token next : Token} {c : Char}
    (h : c ∈ indentedGap depth token next) : isBlank c = true := by
  have hline : ∀ depth, c ∈ newLine depth → isBlank c = true := by
    intro depth hc
    rcases List.mem_cons.mp hc with rfl | hspace
    · rfl
    · rw [List.eq_of_mem_replicate hspace]
      rfl
  unfold indentedGap at h
  split at h
  · exact absurd h List.not_mem_nil
  · exact hline _ h
  · exact hline _ h
  · rw [List.mem_singleton.mp h]
    rfl
  · exact hline _ h
  · exact absurd h List.not_mem_nil

section Layouts

variable {ts : List Token}

theorem isLaidOut_compact (h : IsWritable ts) :
    IsLaidOut ts (compact ts).toList := by
  rw [compact, String.toList_ofList, ← spread_no_gap 0]
  exact @isLaidOut_spread (fun _ _ _ => []) (by simp) ts h 0

theorem isLaidOut_indented (h : IsWritable ts) :
    IsLaidOut ts (indented ts).toList := by
  rw [indented, String.toList_ofList]
  exact isLaidOut_spread (fun _ _ _ _ => isBlank_of_mem_indentedGap) h 0

theorem ofList_stripped_indented (h : IsWritable ts) :
    String.ofList (stripped (indented ts).toList) = compact ts :=
  congrArg String.ofList (isLaidOut_indented h).stripped_eq

/-- There is no control character on the single line, so no line break
either. -/
theorem printed_of_mem_compact (h : IsWritable ts) {c : Char}
    (hc : c ∈ (compact ts).toList) : 0x20 ≤ c.toNat := by
  rw [compact, String.toList_ofList] at hc
  obtain ⟨token, htoken, hspelled⟩ := List.mem_flatMap.mp hc
  exact Token.printed_of_mem_spelled (h.plain token htoken) c hspelled

end Layouts

end TermSearch.Json
