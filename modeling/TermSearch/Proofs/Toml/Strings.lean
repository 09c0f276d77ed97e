import Mathlib.Tactic.FinCases
import TermSearch.Toml.Quote
import TermSearch.Toml.Scan

namespace TermSearch.Toml

open Scan

/-! A written string is read back, whichever of its forms it has. -/

theorem isPlain_or_eq_newline {c : Char} (h : needsEscape c = false) :
    isPlain c = true ∨ c = '\n' := by
  by_cases htab : c = '\t'
  · exact .inl (by rw [htab]; rfl)
  · by_cases hnewline : c = '\n'
    · exact .inr hnewline
    · have hdelete : c.toNat = 0x7F → c = '\x7f' := fun h => by
        rw [← Char.ofNat_toNat c, h]
      simp only [needsEscape, Bool.or_eq_false_iff, Bool.and_eq_false_iff,
        decide_eq_false_iff_not, beq_eq_false_iff_ne] at h
      simp only [isPlain, Bool.or_eq_true, Bool.and_eq_true,
        decide_eq_true_eq, bne_iff_ne]
      refine .inl (.inr ⟨?_, fun heq => h.2 (hdelete heq)⟩)
      simp [htab, hnewline] at h
      omega

theorem ne_return_of_isPlain {c : Char} (h : isPlain c = true ∨ c = '\n') :
    c ≠ '\r' := by
  rintro rfl
  exact absurd h (by decide)

theorem codePoint?_upperHexPair {n : Nat} (h : n < 0x80) :
    codePoint? ('0' :: '0' :: upperHexPair n) = some (Char.ofNat n) := by
  revert n
  decide

def escapeLetters : List Char := ['b', 't', 'n', 'f', 'r', '"', '\\']

theorem escapeChar_cases (long : Bool) (c : Char) :
    (∃ letter ∈ escapeLetters, shortEscape? letter = some c ∧
        escapeChar long c = ['\\', letter]) ∨
      (c.toNat < 0x80 ∧
        escapeChar long c = '\\' :: 'u' :: '0' :: '0' :: upperHexPair c.toNat) ∨
      (c ≠ '\\' ∧
        (isPlain c = true ∨ long = true ∧ c = '\n') ∧
        escapeChar long c = [c]) := by
  by_cases hshort : c ∈ ['\x08', '\t', '\x0c', '\r', '\\']
  · refine .inl ?_
    fin_cases hshort
    exacts [⟨'b', by decide, rfl, rfl⟩,
      ⟨'t', by decide, rfl, rfl⟩, ⟨'f', by decide, rfl, rfl⟩,
      ⟨'r', by decide, rfl, rfl⟩, ⟨'\\', by decide, rfl, rfl⟩]
  · by_cases hnewline : c = '\n'
    · subst hnewline
      cases long with
      | false => exact .inl ⟨'n', by decide, rfl, rfl⟩
      | true => exact .inr (.inr ⟨by decide, .inr ⟨rfl, rfl⟩, rfl⟩)
    · simp only [List.mem_cons, List.not_mem_nil, or_false, not_or] at hshort
      obtain ⟨hb, ht, hf, hr, hbackslash⟩ := hshort
      have hrest : escapeChar long c =
          if needsEscape c then
            '\\' :: 'u' :: '0' :: '0' :: upperHexPair c.toNat
          else [c] := by
        simp only [escapeChar, hb, ht, hnewline, hf, hr, hbackslash, if_false]
      cases hescape : needsEscape c with
      | true =>
          refine .inr (.inl ⟨?_, hrest.trans (if_pos hescape)⟩)
          simp only [needsEscape, Bool.or_eq_true, Bool.and_eq_true,
            decide_eq_true_eq, beq_iff_eq] at hescape
          rcases hescape with ⟨⟨hcontrol, -⟩, -⟩ | rfl
          · omega
          · decide
      | false =>
          have hplain := (isPlain_or_eq_newline hescape).resolve_right hnewline
          exact .inr (.inr
            ⟨hbackslash, .inl hplain, hrest.trans (if_neg (by simp [hescape]))⟩)

/-- How the inside of a string is read: its text, and what comes after its
quotes. -/
abbrev Inside : Type := List Char → Option (List Char × List Char)

def Inside.Takes (read : Inside) (written : List Char) (c : Char) : Prop :=
  ∀ rest, read (written ++ rest) = (read rest).map (prepend c)

structure Inside.Unescapes (read : Inside) (long : Bool) : Prop where
  letter : ∀ {letter c}, letter ∈ escapeLetters →
    shortEscape? letter = some c → read.Takes ['\\', letter] c
  number : ∀ {a b c d scalar}, codePoint? [a, b, c, d] = some scalar →
    read.Takes ['\\', 'u', a, b, c, d] scalar
  plain : ∀ {c}, c ≠ '"' → c ≠ '\\' →
    (isPlain c = true ∨ long = true ∧ c = '\n') → read.Takes [c] c

theorem basicRest_unescapes : Inside.Unescapes basicRest false := by
  constructor
  · intro letter c hmem hletter rest
    have hread : basicRest ('\\' :: letter :: rest) =
        (shortEscape? letter).bind fun c => (basicRest rest).bind fun read =>
          some (prepend c read) := by
      rw [basicRest]
      · rfl
      · rintro _ _ _ rfl
        exact absurd hmem (by decide)
      · rintro _ _ _ _ _ rfl
        exact absurd hmem (by decide)
      · rintro _ _ _ _ _ _ _ _ _ rfl
        exact absurd hmem (by decide)
    rw [List.cons_append, List.singleton_append, hread, hletter]
    cases basicRest rest <;> rfl
  · intro a b c d scalar hscalar rest
    simp only [List.cons_append, List.nil_append]
    rw [basicRest, hscalar]
    cases basicRest rest <;> rfl
  · intro c hquote hbackslash hplain rest
    have hplain : isPlain c = true := hplain.resolve_right nofun
    rw [List.singleton_append, basicRest, if_pos ⟨hplain, hbackslash⟩]
    · exact hquote
    all_goals
      intros
      exact hbackslash ‹_›

theorem longBasicRest_unescapes :
    Inside.Unescapes (longBasicRest false) true := by
  constructor
  · intro letter c hmem hletter rest
    have hline : atLineEnd (letter :: rest) = false := by
      fin_cases hmem <;> rfl
    have hread : longBasicRest false ('\\' :: letter :: rest) =
        (shortEscape? letter).bind fun c =>
          (longBasicRest false rest).bind fun read =>
            some (prepend c read) := by
      rw [longBasicRest, if_neg (by rw [hline]; decide)]
      · rfl
      · rintro _ _ _ rfl
        exact absurd hmem (by decide)
      · rintro _ _ _ _ _ rfl
        exact absurd hmem (by decide)
      · rintro _ _ _ _ _ _ _ _ _ rfl
        exact absurd hmem (by decide)
    rw [List.cons_append, List.singleton_append, hread, hletter]
    cases longBasicRest false rest <;> rfl
  · intro a b c d scalar hscalar rest
    simp only [List.cons_append, List.nil_append]
    rw [longBasicRest, hscalar]
    cases longBasicRest false rest <;> rfl
  · intro c hquote hbackslash hplain rest
    have hplain : isPlain c = true ∨ c = '\n' := hplain.imp_right And.right
    have hreturn : c ≠ '\r' := ne_return_of_isPlain hplain
    rw [List.singleton_append, longBasicRest, if_neg (by simp),
      if_pos ⟨hplain, hbackslash⟩]
    · intro _ h
      exact absurd h hquote
    all_goals
      intros
      first
      | exact absurd ‹_› hbackslash
      | exact absurd ‹_› hreturn

theorem Inside.Unescapes.takes_quote {read : Inside} {long : Bool}
    (h : read.Unescapes long) : read.Takes ['\\', '"'] '"' :=
  h.letter (by decide) rfl

theorem Inside.Unescapes.takes_escapeChar {read : Inside} {long : Bool}
    (h : read.Unescapes long) {c : Char} (hquote : c ≠ '"') :
    read.Takes (escapeChar long c) c := by
  rcases escapeChar_cases long c with
    ⟨letter, hmem, hletter,
      hescape⟩ | ⟨hsmall, hescape⟩ | ⟨hbackslash, hplain, hescape⟩
  · rw [hescape]
    exact h.letter hmem hletter
  · rw [hescape]
    have hscalar := codePoint?_upperHexPair hsmall
    rw [Char.ofNat_toNat] at hscalar
    exact h.number hscalar
  · rw [hescape]
    exact h.plain hquote hbackslash hplain

/-- Nothing that is written for another character starts with a quote. -/
theorem escapeChar_eq_cons (long : Bool) {c : Char} (hquote : c ≠ '"') :
    ∃ first more, escapeChar long c = first :: more ∧ first ≠ '"' := by
  rcases escapeChar_cases long c with
    ⟨letter, -, -, hescape⟩ | ⟨-, hescape⟩ | ⟨-, -, hescape⟩
  · exact ⟨_, _, hescape, by decide⟩
  · exact ⟨_, _, hescape, by decide⟩
  · exact ⟨_, _, hescape, hquote⟩

theorem escaped_quote (long : Bool) {quotes : Nat}
    (h : ¬ (long = true ∧ quotes < 2)) (text : List Char) :
    escaped long quotes ('"' :: text) = '\\' :: '"' :: escaped long 0 text := by
  rw [escaped, if_pos rfl, if_neg h]

theorem escaped_cons (long : Bool) (quotes : Nat) {c : Char}
    (hquote : c ≠ '"') (text : List Char) :
    escaped long quotes (c :: text) =
      escapeChar long c ++ escaped long 0 text := by
  rw [escaped, if_neg hquote]
  split
  · rename_i heq
    rw [heq, List.singleton_append]
  · rfl

/-! Strings on one line. -/

theorem basicRest_escaped (text : List Char) (quotes : Nat) (rest : List Char) :
    basicRest (escaped false quotes text ++ '"' :: rest) =
      some (text, rest) := by
  induction text generalizing quotes with
  | nil => rfl
  | cons c text ih =>
      by_cases hquote : c = '"'
      · subst hquote
        rw [escaped_quote false (by simp)]
        have hread :=
          basicRest_unescapes.takes_quote (escaped false 0 text ++ '"' :: rest)
        rw [ih] at hread
        exact hread
      · rw [escaped_cons false quotes hquote, List.append_assoc,
          basicRest_unescapes.takes_escapeChar hquote, ih]
        rfl

theorem literalRest_plain {text : List Char}
    (h : ∀ c ∈ text, isPlain c = true ∧ c ≠ '\'') (rest : List Char) :
    literalRest (text ++ '\'' :: rest) = some (text, rest) := by
  induction text with
  | nil => rfl
  | cons c text ih =>
      obtain ⟨⟨hplain, hquote⟩, htext⟩ := List.forall_mem_cons.mp h
      rw [List.cons_append, literalRest, if_pos hplain, ih htext]
      · rfl
      · exact hquote

/-! Strings over several lines. Up to two quotes in a row belong to the text,
also right before the three that close the string. -/

structure Inside.ClosesWith (read : Inside) (quote : Char) : Prop where
  close : ∀ rest, read (quote :: quote :: quote :: rest) =
    some (closingQuotes quote rest)
  quote : ∀ {rest}, rest.take 2 ≠ [quote, quote] →
    read (quote :: rest) = (read rest).map (prepend quote)

theorem longBasicRest_closesWith :
    Inside.ClosesWith (longBasicRest false) '"' := by
  constructor
  · exact fun _ => rfl
  · intro rest hrest
    rw [longBasicRest, if_neg (by simp), if_pos (by decide)]
    · intro after _ heq
      exact hrest (by rw [heq]; rfl)
    all_goals simp

theorem longLiteralRest_closesWith :
    Inside.ClosesWith longLiteralRest '\'' := by
  constructor
  · exact fun _ => rfl
  · intro rest hrest
    rw [longLiteralRest, if_pos (by decide)]
    · intro after _ heq
      exact hrest (by rw [heq]; rfl)
    · simp

theorem longLiteralRest_takes {c : Char} (hquote : c ≠ '\'')
    (hplain : isPlain c = true ∨ c = '\n') :
    Inside.Takes longLiteralRest [c] c := by
  intro rest
  rw [List.singleton_append, longLiteralRest, if_pos hplain]
  · intro _ h
    exact absurd h hquote
  · intro _ h
    exact absurd h (ne_return_of_isPlain hplain)

theorem closingQuotes_replicate {quote : Char} {quotes : Nat}
    (hquotes : quotes ≤ 2) {rest : List Char}
    (hrest : rest.head? ≠ some quote) :
    closingQuotes quote (List.replicate quotes quote ++ rest) =
      (List.replicate quotes quote, rest) := by
  have hnone : closingQuotes quote rest = ([], rest) := by
    match rest with
    | [] => rfl
    | [a] => exact if_neg (by simpa using hrest)
    | a :: b :: rest => exact if_neg (by simpa using hrest)
  match quotes with
  | 0 => exact hnone
  | 1 =>
      match rest with
      | [] => exact if_pos rfl
      | b :: rest =>
        have hb : b ≠ quote := by simpa using hrest
        exact (if_pos rfl).trans (if_neg hb)
  | 2 => exact (if_pos rfl).trans (if_pos rfl)

/-- What is written for a text inside a long string, if some quotes stand right
before it. -/
inductive LongText (quote : Char) (read : Inside) :
    Nat → List Char → List Char → Prop
  | nil {quotes : Nat} (hquotes : quotes ≤ 2) : LongText quote read quotes [] []
  | quote {quotes : Nat} {written text : List Char} :
      LongText quote read (quotes + 1) written text →
      LongText quote read quotes (quote :: written) (quote :: text)
  | piece {quotes : Nat} {first c : Char}
      {more written text : List Char} (hquotes : quotes ≤ 2)
      (hfirst : first ≠ quote) (htakes : read.Takes (first :: more) c) :
      LongText quote read 0 written text →
        LongText quote read quotes (first :: more ++ written) (c :: text)

namespace LongText

variable {quote : Char} {read : Inside} {quotes : Nat}
  {written text : List Char}

theorem reads_quotes (hread : read.ClosesWith quote) (hquotes : quotes ≤ 2)
    {first : Char} (hfirst : first ≠ quote) (rest : List Char) :
    read (List.replicate quotes quote ++ first :: rest) =
      (read (first :: rest)).map fun found =>
        (List.replicate quotes quote ++ found.1, found.2) := by
  match quotes with
  | 0 => simp
  | 1 => exact hread.quote (by simp [hfirst])
  | 2 =>
      have hone : read (quote :: first :: rest) =
          (read (first :: rest)).map (prepend quote) :=
        hread.quote (by simp [hfirst])
      have htwo : read (quote :: quote :: first :: rest) =
          (read (quote :: first :: rest)).map (prepend quote) :=
        hread.quote (by simp [hfirst])
      rw [hone, Option.map_map] at htwo
      exact htwo

theorem reads_closing (hread : read.ClosesWith quote) (hquotes : quotes ≤ 2)
    {rest : List Char} (hrest : rest.head? ≠ some quote) :
    read (List.replicate quotes quote ++ quote :: quote :: quote :: rest) =
      some (List.replicate quotes quote, rest) := by
  have hmoved : List.replicate quotes quote ++ quote :: quote :: quote :: rest =
      quote :: quote :: quote :: (List.replicate quotes quote ++ rest) := by
    match quotes with
    | 0 | 1 | 2 => rfl
  rw [hmoved, hread.close, closingQuotes_replicate hquotes hrest]

/-- The text is read up to the closing quotes, and with it the quotes before
it. -/
theorem reads (h : LongText quote read quotes written text)
    (hread : read.ClosesWith quote) {rest : List Char}
    (hrest : rest.head? ≠ some quote) :
    read
        (List.replicate quotes quote ++
          (written ++ quote :: quote :: quote :: rest)) =
      some (List.replicate quotes quote ++ text, rest) := by
  -- what quotes are for can only be said where they end, so they wait in front
  -- of the rest
  induction h with
  | nil hquotes =>
      rw [List.nil_append, reads_closing hread hquotes hrest, List.append_nil]
  | quote _ ih =>
      rw [List.replicate_succ', List.append_assoc, List.append_assoc] at ih
      exact ih
  | piece hquotes hfirst htakes _ ih =>
      rw [List.append_assoc, List.cons_append,
        reads_quotes hread hquotes hfirst, ← List.cons_append, htakes]
      rw [List.replicate_zero, List.nil_append] at ih
      rw [ih]
      rfl

end LongText

theorem longText_escaped (text : List Char) {quotes : Nat}
    (hquotes : quotes ≤ 2) :
    LongText '"' (longBasicRest false) quotes (escaped true quotes text)
      text := by
  induction text generalizing quotes with
  | nil => exact .nil hquotes
  | cons c text ih =>
      by_cases hquote : c = '"'
      · subst hquote
        by_cases hmore : quotes < 2
        · have hwritten : escaped true quotes ('"' :: text) =
              '"' :: escaped true (quotes + 1) text := by
            rw [escaped, if_pos rfl, if_pos ⟨rfl, hmore⟩]
          rw [hwritten]
          exact .quote (ih hmore)
        · rw [escaped_quote true (by simp [hmore])]
          exact .piece hquotes (by decide) longBasicRest_unescapes.takes_quote
            (ih (Nat.zero_le 2))
      · obtain ⟨first, more, hescape, hfirst⟩ := escapeChar_eq_cons true hquote
        have htakes := longBasicRest_unescapes.takes_escapeChar hquote
        rw [escaped_cons true quotes hquote, hescape]
        rw [hescape] at htakes
        exact .piece hquotes hfirst htakes (ih (Nat.zero_le 2))

theorem longText_plain {text : List Char}
    (hplain : ∀ c ∈ text, isPlain c = true ∨ c = '\n') {quotes : Nat}
    (hquotes : longestRun '\'' quotes text < 3) :
    LongText '\'' longLiteralRest quotes text text := by
  induction text generalizing quotes with
  | nil => exact .nil (Nat.le_of_lt_succ hquotes)
  | cons c text ih =>
      obtain ⟨hc, htext⟩ := List.forall_mem_cons.mp hplain
      rw [longestRun] at hquotes
      by_cases hquote : c = '\''
      · rw [if_pos hquote] at hquotes
        rw [hquote]
        exact .quote (ih htext hquotes)
      · rw [if_neg hquote, Nat.max_lt] at hquotes
        exact .piece (Nat.le_of_lt_succ hquotes.1) hquote
          (longLiteralRest_takes hquote hc) (ih htext hquotes.2)

/-! Which form a text gets. -/

theorem le_longestRun (wanted : Char) (run : Nat) (text : List Char) :
    run ≤ longestRun wanted run text := by
  induction text generalizing run with
  | nil => exact Nat.le_refl run
  | cons c text ih =>
      rw [longestRun]
      split
      · exact Nat.le_of_succ_le (ih (run + 1))
      · exact Nat.le_max_left _ _

theorem not_mem_of_longestRun {wanted : Char} {run : Nat} {text : List Char}
    (h : longestRun wanted run text = 0) : wanted ∉ text := by
  induction text generalizing run with
  | nil => exact List.not_mem_nil
  | cons c text ih =>
      rw [longestRun] at h
      split at h
      · exact absurd (le_longestRun wanted (run + 1) text) (by omega)
      · rename_i hne
        rw [List.mem_cons, not_or]
        exact ⟨Ne.symm hne, ih (Nat.max_eq_zero_iff.mp h).2⟩

theorem isPlain_or_eq_newline_of_any {text : List Char}
    (h : text.any needsEscape = false) :
    ∀ c ∈ text, isPlain c = true ∨ c = '\n' :=
  fun c hmem =>
    isPlain_or_eq_newline (by simpa using List.any_eq_false.mp h c hmem)

/-- What a text needs for the form: without escapes it must hold no character
that ends the string or may not stand in it. -/
def Style.Holds (text : List Char) : Style → Prop
  | .basic | .longBasic => True
  | .literal => text ≠ [] ∧ ∀ c ∈ text, isPlain c = true ∧ c ≠ '\''
  | .longLiteral =>
      (∀ c ∈ text, isPlain c = true ∨ c = '\n') ∧ longestRun '\'' 0 text < 3

theorem style_holds (text : List Char) : (style text).Holds text := by
  unfold style
  dsimp only
  split
  · trivial
  · rename_i hbasic
    split
    · rename_i hliteral
      obtain ⟨hescapes, hlines, hsingle⟩ := hliteral
      refine ⟨?_, fun c hmem => ⟨?_, ?_⟩⟩
      · rintro rfl
        exact hbasic (by decide)
      · refine (isPlain_or_eq_newline_of_any (by simpa using hescapes) c
          hmem).resolve_right ?_
        rintro rfl
        simp [hmem] at hlines
      · rintro rfl
        exact not_mem_of_longestRun hsingle hmem
    · split
      · trivial
      · split
        · rename_i hlong
          exact ⟨isPlain_or_eq_newline_of_any (by simpa using hlong.1), hlong.2⟩
        · split <;> trivial

/-! Whole strings. -/

theorem string_basic {inside : List Char} (h : inside.take 2 ≠ ['"', '"']) :
    string ('"' :: inside) = basicRest inside := by
  unfold string
  split
  · rename_i heq
    cases heq
    exact absurd rfl h
  · rename_i heq
    cases heq
  · rfl

theorem string_literal {inside : List Char} (h : inside.take 2 ≠ ['\'', '\'']) :
    string ('\'' :: inside) = literalRest inside := by
  unfold string
  split
  · rename_i heq
    cases heq
  · rename_i heq
    cases heq
    exact absurd rfl h
  · rfl

theorem take_escaped_ne (text : List Char) {rest : List Char}
    (hrest : rest.head? ≠ some '"') :
    (escaped false 0 text ++ '"' :: rest).take 2 ≠ ['"', '"'] := by
  cases text with
  | nil =>
      cases rest with
      | nil => exact nofun
      | cons c rest => simpa [escaped] using hrest
  | cons c text =>
      by_cases hquote : c = '"'
      · subst hquote
        rw [escaped_quote false (by simp)]
        simp
      · obtain ⟨first, more, hescape, hfirst⟩ := escapeChar_eq_cons false hquote
        rw [escaped_cons false 0 hquote, hescape]
        simp [hfirst]

theorem take_literal_ne {text : List Char} (hne : text ≠ [])
    (htext : ∀ c ∈ text, isPlain c = true ∧ c ≠ '\'') (rest : List Char) :
    (text ++ '\'' :: rest).take 2 ≠ ['\'', '\''] := by
  cases text with
  | nil => exact absurd rfl hne
  | cons c text => simp [(htext c List.mem_cons_self).2]

theorem afterFirstLineEnd_longStart {text written : List Char}
    (h : ∀ c ∈ written.head?, c ≠ '\r' ∧ (c = '\n' → '\n' ∈ text)) :
    afterFirstLineEnd (longStart text ++ written) = written := by
  unfold longStart
  split
  · rfl
  · rename_i hlines
    cases written with
    | nil => rfl
    | cons c written =>
        obtain ⟨hreturn, hnewline⟩ := h c rfl
        rw [List.nil_append]
        unfold afterFirstLineEnd
        split
        · rename_i heq
          cases heq
          simp [hnewline] at hlines
        · rename_i heq
          cases heq
          exact absurd rfl hreturn
        · rfl

theorem head?_escaped (text rest : List Char) :
    ∀ c ∈ (escaped true 0 text ++ '"' :: rest).head?, c ≠ '\r' ∧
      (c = '\n' → '\n' ∈ text) := by
  cases text with
  | nil => simp [escaped]
  | cons c text =>
      by_cases hquote : c = '"'
      · simp [escaped, hquote]
      · rw [escaped_cons true 0 hquote]
        rcases escapeChar_cases true c with
          ⟨letter, -, -, hescape⟩ | ⟨-, hescape⟩ | ⟨-, hplain, hescape⟩
        · simp [hescape]
        · simp [hescape]
        · have hreturn : c ≠ '\r' :=
            ne_return_of_isPlain (hplain.imp_right And.right)
          simpa [hescape, hreturn] using fun h : c = '\n' => .inl h.symm

theorem head?_plain {text : List Char}
    (h : ∀ c ∈ text, isPlain c = true ∨ c = '\n') (rest : List Char) :
    ∀ c ∈ (text ++ '\'' :: rest).head?, c ≠ '\r' ∧
      (c = '\n' → '\n' ∈ text) := by
  cases text with
  | nil => simp
  | cons c text =>
      have hreturn : c ≠ '\r' := ne_return_of_isPlain (h c List.mem_cons_self)
      simpa [hreturn] using fun h : c = '\n' => .inl h.symm

def EndsString (text : List Char) : Prop :=
  ∀ c ∈ text.head?, c ≠ '"' ∧ c ≠ '\''

theorem string_quote (text : List Char) {rest : List Char}
    (hrest : EndsString rest) :
    string (quote text ++ rest) = some (text, rest) := by
  have hdouble : rest.head? ≠ some '"' := fun h => (hrest _ h).1 rfl
  have hsingle : rest.head? ≠ some '\'' := fun h => (hrest _ h).2 rfl
  have hholds := style_holds text
  unfold quote
  cases hstyle : style text with
  | basic =>
      have hread := basicRest_escaped text 0 rest
      rw [← string_basic (take_escaped_ne text hdouble)] at hread
      simpa using hread
  | literal =>
      rw [hstyle] at hholds
      obtain ⟨hne, htext⟩ := hholds
      have hread := literalRest_plain htext rest
      rw [← string_literal (take_literal_ne hne htext rest)] at hread
      simpa using hread
  | longBasic =>
      have hread := (longText_escaped text (Nat.zero_le 2)).reads
        longBasicRest_closesWith hdouble
      have hstart :=
        afterFirstLineEnd_longStart (head?_escaped text ('"' :: '"' :: rest))
      rw [List.replicate_zero, List.nil_append, ← hstart] at hread
      simpa [string] using hread
  | longLiteral =>
      rw [hstyle] at hholds
      obtain ⟨hplain, hruns⟩ := hholds
      have hread :=
        (longText_plain hplain hruns).reads longLiteralRest_closesWith hsingle
      have hstart :=
        afterFirstLineEnd_longStart (head?_plain hplain ('\'' :: '\'' :: rest))
      rw [List.replicate_zero, List.nil_append, ← hstart] at hread
      simpa [string] using hread

end TermSearch.Toml
