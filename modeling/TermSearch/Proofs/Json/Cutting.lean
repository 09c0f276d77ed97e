import TermSearch.Proofs.Json.Value

namespace TermSearch.Json

/-! A text that is cut into tokens, none of them invalid, has their words one
after another. -/

variable {text rest : List Char}

theorem digits?_eq_some {digits : List Char}
    (h : digits? text = some (digits, rest)) :
    IsDigits digits ∧ text = digits ++ rest := by
  unfold digits? at h
  split at h
  · cases h
  · rename_i hne
    cases h
    exact ⟨⟨hne, fun c hc => List.mem_takeWhile_imp hc⟩,
      List.takeWhile_append_dropWhile.symm⟩

theorem whole?_eq_some {whole : List Char}
    (h : whole? text = some (whole, rest)) :
    IsWhole whole ∧ text = whole ++ rest := by
  unfold whole? at h
  split at h
  · split at h
    · cases h
    · cases h
      exact ⟨⟨⟨List.cons_ne_nil _ _, List.forall_mem_singleton.mpr rfl⟩,
        fun _ => rfl⟩, rfl⟩
  · rename_i hzero
    obtain ⟨hdigits, rfl⟩ := digits?_eq_some h
    refine ⟨⟨hdigits, fun hhead => ?_⟩, rfl⟩
    obtain ⟨digits, rfl⟩ := List.head?_eq_some_iff.mp hhead
    exact absurd rfl (hzero (digits ++ rest))

theorem exists_digits {α : Type} (part : List Char → α) {read : α}
    (h : ((digits? text).map fun taken => (part taken.1, taken.2)) =
      some (read, rest)) :
    ∃ digits, IsDigits digits ∧ part digits = read ∧ text = digits ++ rest := by
  obtain ⟨⟨digits, after⟩, hdigits, heq⟩ := Option.map_eq_some_iff.mp h
  cases heq
  obtain ⟨hall, rfl⟩ := digits?_eq_some hdigits
  exact ⟨digits, hall, rfl, rfl⟩

theorem fraction?_eq_some {fraction : Option (List Char)}
    (h : fraction? text = some (fraction, rest)) :
    ∃ word, FractionSpelling fraction word ∧ text = word ++ rest := by
  unfold fraction? at h
  split at h
  · obtain ⟨digits, hdigits, rfl, rfl⟩ := exists_digits some h
    exact ⟨_, .present hdigits, rfl⟩
  · cases h
    exact ⟨[], .absent, rfl⟩

theorem exponent?_eq_some {exponent : Option (Bool × List Char)}
    (h : exponent? text = some (exponent, rest)) :
    ∃ word, ExponentSpelling exponent word ∧ text = word ++ rest := by
  revert h
  fun_cases exponent? text with
  | case1 | case4 =>
      intro h
      obtain ⟨digits, hdigits, rfl, rfl⟩ :=
        exists_digits (fun digits => some (true, digits)) h
      exact ⟨_, .down (by simp) hdigits, rfl⟩
  | case2 | case5 =>
      intro h
      obtain ⟨digits, hdigits, rfl, rfl⟩ :=
        exists_digits (fun digits => some (false, digits)) h
      exact ⟨_, .up (by simp) hdigits, rfl⟩
  | case3 | case6 =>
      intro h
      obtain ⟨digits, hdigits, rfl, rfl⟩ :=
        exists_digits (fun digits => some (false, digits)) h
      exact ⟨_, .plain (by simp) hdigits, rfl⟩
  | case7 =>
      intro h
      cases h
      exact ⟨[], .absent, rfl⟩

theorem numeral?_eq_some {negative : Bool} {numeral : Numeral}
    (h : numeral? negative text = some (numeral, rest)) :
    ∃ word, numeral.Spelling ((if negative then ['-'] else []) ++ word) ∧
      text = word ++ rest := by
  obtain ⟨⟨whole, afterWhole⟩, hreadWhole, h⟩ := Option.bind_eq_some_iff.mp h
  obtain ⟨⟨fraction, afterFraction⟩, hreadFraction, h⟩ :=
    Option.bind_eq_some_iff.mp h
  obtain ⟨⟨exponent, afterExponent⟩, hreadExponent, h⟩ :=
    Option.bind_eq_some_iff.mp h
  cases h
  obtain ⟨hwhole, rfl⟩ := whole?_eq_some hreadWhole
  obtain ⟨fractionWord, hfraction, rfl⟩ := fraction?_eq_some hreadFraction
  obtain ⟨exponentWord, hexponent, rfl⟩ := exponent?_eq_some hreadExponent
  exact ⟨whole ++ (fractionWord ++ exponentWord),
    .mk hwhole hfraction hexponent, by simp⟩

theorem stringRest_piece {piece : Piece} {word after : List Char}
    {pieces : List Piece} (hpiece : piece.Spelling word)
    (h : ((stringRest after).map fun read => (piece :: read.1, read.2)) =
      some (pieces, rest))
    (ih : ∀ {pieces}, stringRest after = some (pieces, rest) →
      ∃ words, List.Forall₂ Piece.Spelling pieces words ∧
        after = words.flatten ++ '"' :: rest) :
    ∃ words, List.Forall₂ Piece.Spelling pieces words ∧
      word ++ after = words.flatten ++ '"' :: rest := by
  obtain ⟨⟨more, end'⟩, hmore, heq⟩ := Option.map_eq_some_iff.mp h
  cases heq
  obtain ⟨words, hwords, rfl⟩ := ih hmore
  exact ⟨word :: words, .cons hpiece hwords, by simp⟩

theorem stringRest_eq_some {pieces : List Piece}
    (h : stringRest text = some (pieces, rest)) :
    ∃ words, List.Forall₂ Piece.Spelling pieces words ∧
      text = words.flatten ++ '"' :: rest := by
  fun_induction stringRest text generalizing pieces with
  | case1 | case3 | case5 | case7 => cases h
  | case2 =>
      cases h
      exact ⟨[], .nil, rfl⟩
  | case4 a b c d after unit hunit ih =>
      exact stringRest_piece (.unit hunit) h ih
  | case6 letter after _ c hshort ih =>
      exact stringRest_piece (.short hshort) h ih
  | case8 c after hquote _ _ hplain ih =>
      obtain ⟨hprinted, hbackslash⟩ := not_or.mp hplain
      exact stringRest_piece (.plain hquote hbackslash hprinted) h ih

theorem token?_eq_some {token : Token} (h : token? text = some (token, rest)) :
    ∃ word, token.Spelling word ∧ text = word ++ rest := by
  unfold token? at h
  split at h
  case h_10 =>
    obtain ⟨⟨pieces, after⟩, hread, heq⟩ := Option.map_eq_some_iff.mp h
    cases heq
    obtain ⟨words, hwords, rfl⟩ := stringRest_eq_some hread
    exact ⟨_, .string hwords, by simp⟩
  case h_11 =>
    obtain ⟨⟨numeral, after⟩, hread, heq⟩ := Option.map_eq_some_iff.mp h
    cases heq
    obtain ⟨word, hword, rfl⟩ := numeral?_eq_some hread
    exact ⟨_, .number hword, rfl⟩
  case h_12 =>
    obtain ⟨⟨numeral, after⟩, hread, heq⟩ := Option.map_eq_some_iff.mp h
    cases heq
    obtain ⟨word, hword, rfl⟩ := numeral?_eq_some hread
    exact ⟨_, .number hword, rfl⟩
  all_goals
    cases h
    exact ⟨_, .fixed trivial, rfl⟩

/-- A text is made up of the words of its tokens, with blanks around them. -/
theorem isSpread_tokens (h : .invalid ∉ tokens text) :
    IsSpread (tokens text) text := by
  fun_induction tokens text with
  | case1 text hdrop => exact .nil (List.dropWhile_eq_nil_iff.mp hdrop)
  | case2 | case4 => exact absurd List.mem_cons_self h
  | case3 text c more hdrop token after hread _ ih =>
      have htext : text = text.takeWhile isBlank ++ (c :: more) := by
        rw [← hdrop, List.takeWhile_append_dropWhile]
      obtain ⟨word, hword, hsplit⟩ := token?_eq_some hread
      rw [htext, hsplit]
      refine .cons (fun c hc => List.mem_takeWhile_imp hc) hword
        (ih fun hmem => ?_)
      exact h (List.mem_cons_of_mem _ hmem)

namespace Value

theorem invalid_not_mem_moreItems {items : List Value}
    (h : ∀ item ∈ items, .invalid ∉ item.tokens) :
    .invalid ∉ moreItems items := by
  induction items with
  | nil => simp [moreItems]
  | cons item items ih =>
      rw [List.forall_mem_cons] at h
      simp [moreItems, h.1, ih h.2]

theorem invalid_not_mem_moreMembers {members : List (Name × Value)}
    (h : ∀ member ∈ members, .invalid ∉ member.2.tokens) :
    .invalid ∉ moreMembers members := by
  induction members with
  | nil => simp [moreMembers]
  | cons member members ih =>
      rw [List.forall_mem_cons] at h
      simp [moreMembers, h.1, ih h.2]

theorem invalid_not_mem_tokens (value : Value) : .invalid ∉ value.tokens := by
  induction value with
  | scalar value => cases value <;> simp [tokens, Scalar.token]
  | array items ih =>
      have hitems := invalid_not_mem_moreItems ih
      cases items with
      | nil => simp [tokens, itemsTokens]
      | cons item items => simpa [tokens, itemsTokens, moreItems] using hitems
  | object members ih =>
      have hmembers := invalid_not_mem_moreMembers ih
      cases members with
      | nil => simp [tokens, membersTokens]
      | cons member members =>
          simpa [tokens, membersTokens, moreMembers] using hmembers

theorem isText_of_tokens_eq {value : Value} {text : String}
    (h : Json.tokens text.toList = value.tokens) : value.IsText text := by
  rw [IsText, ← h]
  exact isSpread_tokens (h ▸ value.invalid_not_mem_tokens)

end Value

end TermSearch.Json
