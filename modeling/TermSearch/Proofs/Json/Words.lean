import Mathlib.Data.List.Chain
import Mathlib.Data.List.TakeWhile
import TermSearch.Json.Layout
import TermSearch.Json.Lexer

namespace TermSearch.Json

/-! The words of JSON text: what may be written for a token, in every way in
which it may be written. Strings and brackets end by themselves; a number goes
on as long as it can, so it must not run into what follows. A text of words with
blanks before, between and after them is cut into their tokens, wherever the
blanks are, as long as no two numbers stand side by side. -/

/-! Blanks. -/

theorem isBlank_eq_false_of_isDigit {c : Char} (h : c.isDigit = true) :
    isBlank c = false := by
  simp only [isBlank, Bool.or_eq_false_iff, beq_eq_false_iff_ne]
  refine ⟨⟨⟨?_, ?_⟩, ?_⟩, ?_⟩
  all_goals
    rintro rfl
    contradiction

theorem ends_of_isBlank {c : Char} (h : isBlank c = true) :
    c.isDigit = false ∧ c ≠ '.' ∧ c ≠ 'e' ∧ c ≠ 'E' := by
  simp only [isBlank, Bool.or_eq_true, beq_iff_eq] at h
  rcases h with ((rfl | rfl) | rfl) | rfl <;> decide

/-! Strings. -/

theorem stringRest_short {letter c : Char} (hletter : letter ≠ 'u')
    (h : shortEscape? letter = some c) (rest : List Char) :
    stringRest ('\\' :: letter :: rest) =
      (stringRest rest).map fun read => (.char c :: read.1, read.2) := by
  rw [stringRest, h]
  intro _ _ _ _ _ hu
  exact absurd hu hletter

theorem stringRest_plain {c : Char} (hquote : c ≠ '"') (hbackslash : c ≠ '\\')
    (hprinted : ¬ c.toNat < 0x20) (rest : List Char) :
    stringRest (c :: rest) =
      (stringRest rest).map fun read => (.char c :: read.1, read.2) := by
  rw [stringRest, if_neg (not_or.mpr ⟨hprinted, hbackslash⟩)]
  · exact hquote
  · intro _ _ _ _ _ h
    exact absurd h hbackslash
  · intro _ _ h
    exact absurd h hbackslash

/-- A character stands for itself unless it is a quote, a backslash or a
control; it may be escaped by a letter; and four digits escape a unit of sixteen
bits. -/
inductive Piece.Spelling : Piece → List Char → Prop
  | plain {c : Char} (hquote : c ≠ '"') (hbackslash : c ≠ '\\')
      (hprinted : ¬ c.toNat < 0x20) : Spelling (.char c) [c]
  | short {letter c : Char} (h : shortEscape? letter = some c) :
      Spelling (.char c) ['\\', letter]
  | unit {a b c d : Char} {value : Nat}
      (h : Text.hexValue? [a, b, c, d] = some value) :
      Spelling (.unit value) ['\\', 'u', a, b, c, d]

theorem Piece.Spelling.stringRest_append {piece : Piece} {word : List Char}
    (h : piece.Spelling word) (rest : List Char) :
    stringRest (word ++ rest) =
      (stringRest rest).map fun read => (piece :: read.1, read.2) := by
  cases h with
  | plain hquote hbackslash hprinted =>
      exact stringRest_plain hquote hbackslash hprinted rest
  | @short letter c h =>
      refine stringRest_short ?_ h rest
      rintro rfl
      cases h
  | unit h =>
      simp only [List.cons_append, List.nil_append]
      rw [stringRest, h]

theorem stringRest_flatten {pieces : List Piece} {words : List (List Char)}
    (h : List.Forall₂ Piece.Spelling pieces words) (rest : List Char) :
    stringRest (words.flatten ++ '"' :: rest) = some (pieces, rest) := by
  induction h with
  | nil => rfl
  | cons hpiece _ ih =>
      rw [List.flatten_cons, List.append_assoc, hpiece.stringRest_append, ih]
      rfl

/-! Numbers. -/

def IsDigits (text : List Char) : Prop :=
  text ≠ [] ∧ ∀ c ∈ text, c.isDigit = true

def IsWhole (text : List Char) : Prop :=
  IsDigits text ∧ (text.head? = some '0' → text = ['0'])

inductive FractionSpelling : Option (List Char) → List Char → Prop
  | absent : FractionSpelling none []
  | present {digits : List Char} (h : IsDigits digits) :
      FractionSpelling (some digits) ('.' :: digits)

inductive ExponentSpelling : Option (Bool × List Char) → List Char → Prop
  | absent : ExponentSpelling none []
  | down {mark : Char} {digits : List Char} (hmark : mark = 'e' ∨ mark = 'E')
      (h : IsDigits digits) :
      ExponentSpelling (some (true, digits)) (mark :: '-' :: digits)
  | up {mark : Char} {digits : List Char} (hmark : mark = 'e' ∨ mark = 'E')
      (h : IsDigits digits) :
      ExponentSpelling (some (false, digits)) (mark :: '+' :: digits)
  | plain {mark : Char} {digits : List Char} (hmark : mark = 'e' ∨ mark = 'E')
      (h : IsDigits digits) :
      ExponentSpelling (some (false, digits)) (mark :: digits)

def EndsNumber (text : List Char) : Prop :=
  ∀ c ∈ text.head?, c.isDigit = false ∧ c ≠ '.' ∧ c ≠ 'e' ∧ c ≠ 'E'

def EndsDigits (text : List Char) : Prop :=
  ∀ c ∈ text.head?, c.isDigit = false

theorem EndsNumber.endsDigits {rest : List Char} (h : EndsNumber rest) :
    EndsDigits rest :=
  fun c hc => (h c hc).1

theorem IsDigits.digits?_append {digits rest : List Char}
    (h : IsDigits digits) (hrest : EndsDigits rest) :
    digits? (digits ++ rest) = some (digits, rest) := by
  have htake : rest.takeWhile Char.isDigit = [] := by
    cases rest with
    | nil => rfl
    | cons c rest => exact List.takeWhile_cons_of_neg (by simp [hrest c rfl])
  have hdrop : rest.dropWhile Char.isDigit = rest := by
    cases rest with
    | nil => rfl
    | cons c rest => exact List.dropWhile_cons_of_neg (by simp [hrest c rfl])
  rw [digits?, List.takeWhile_append_of_pos h.2,
    List.dropWhile_append_of_pos h.2, htake, hdrop, List.append_nil, if_neg h.1]

theorem IsWhole.whole?_append {whole rest : List Char} (h : IsWhole whole)
    (hrest : EndsDigits rest) :
    whole? (whole ++ rest) = some (whole, rest) := by
  unfold whole?
  split
  · rename_i after heq
    have hhead : whole.head? = some '0' := by
      rw [← List.head?_append_of_ne_nil _ h.1.1, heq]
      rfl
    obtain rfl := h.2 hhead
    rw [List.singleton_append, List.cons.injEq] at heq
    obtain ⟨-, rfl⟩ := heq
    have hnone : rest.head?.any Char.isDigit = false := by
      cases rest with
      | nil => rfl
      | cons c rest => exact hrest c rfl
    simp [hnone]
  · exact h.1.digits?_append hrest

theorem FractionSpelling.fraction?_append {fraction : Option (List Char)}
    {word rest : List Char} (h : FractionSpelling fraction word)
    (hrest : EndsDigits rest) (hpoint : rest.head? ≠ some '.') :
    fraction? (word ++ rest) = some (fraction, rest) := by
  cases h with
  | absent =>
      rw [List.nil_append]
      unfold fraction?
      split
      · exact absurd rfl hpoint
      · rfl
  | present h =>
      rw [List.cons_append, fraction?, h.digits?_append hrest]
      rfl

theorem exponent?_of_mark {mark : Char} {text : List Char}
    (hmark : mark = 'e' ∨ mark = 'E')
    (hsign : ∀ c ∈ text.head?, c ≠ '-' ∧ c ≠ '+') :
    exponent? (mark :: text) =
      (digits? text).map fun read => (some (false, read.1), read.2) := by
  rcases hmark with rfl | rfl
  all_goals
    simp only [exponent?]
    split
    · exact absurd rfl (hsign _ rfl).1
    · exact absurd rfl (hsign _ rfl).2
    · rfl

theorem EndsNumber.exponent?_eq {rest : List Char} (h : EndsNumber rest) :
    exponent? rest = some (none, rest) := by
  unfold exponent?
  split
  · exact absurd rfl (h 'e' rfl).2.2.1
  · exact absurd rfl (h 'E' rfl).2.2.2
  · rfl

theorem ExponentSpelling.exponent?_append
    {exponent : Option (Bool × List Char)} {word rest : List Char}
    (h : ExponentSpelling exponent word) (hrest : EndsNumber rest) :
    exponent? (word ++ rest) = some (exponent, rest) := by
  cases h with
  | absent => exact hrest.exponent?_eq
  | down hmark h =>
      have hread := h.digits?_append hrest.endsDigits
      rcases hmark with rfl | rfl <;>
        simp only [List.cons_append, exponent?, hread, Option.map_some]
  | up hmark h =>
      have hread := h.digits?_append hrest.endsDigits
      rcases hmark with rfl | rfl <;>
        simp only [List.cons_append, exponent?, hread, Option.map_some]
  | @plain mark digits hmark h =>
      have hread := h.digits?_append hrest.endsDigits
      have hsign : ∀ c ∈ (digits ++ rest).head?, c ≠ '-' ∧ c ≠ '+' := by
        intro c hc
        rw [List.head?_append_of_ne_nil _ h.1] at hc
        have hdigit := h.2 c (List.mem_of_mem_head? hc)
        constructor <;> (rintro rfl; contradiction)
      rw [List.cons_append, exponent?_of_mark hmark hsign, hread]
      rfl

/-- A number has digits before its point, and may have a point with digits after
it and an exponent. -/
inductive Numeral.Spelling (numeral : Numeral) : List Char → Prop
  | mk {fraction exponent : List Char} (hwhole : IsWhole numeral.whole)
      (hfraction : FractionSpelling numeral.fraction fraction)
      (hexponent : ExponentSpelling numeral.exponent exponent) :
      Spelling numeral ((if numeral.negative then ['-'] else []) ++
        (numeral.whole ++ (fraction ++ exponent)))

theorem ExponentSpelling.head?_ne {exponent : Option (Bool × List Char)}
    {word rest : List Char} (h : ExponentSpelling exponent word)
    (hrest : EndsNumber rest) :
    ∀ c ∈ (word ++ rest).head?, c.isDigit = false ∧ c ≠ '.' := by
  have hmark : ∀ {mark : Char}, mark = 'e' ∨ mark = 'E' →
      mark.isDigit = false ∧ mark ≠ '.' := by
    rintro _ (rfl | rfl) <;> decide
  cases h with
  | absent => exact fun c hc => ⟨(hrest c hc).1, (hrest c hc).2.1⟩
  | down h _ | up h _ | plain h _ =>
      rintro _ ⟨⟩
      exact hmark h

theorem FractionSpelling.endsDigits {fraction : Option (List Char)}
    {word rest : List Char} (h : FractionSpelling fraction word)
    (hrest : EndsDigits rest) : EndsDigits (word ++ rest) := by
  cases h with
  | absent => exact hrest
  | present =>
      rintro _ ⟨⟩
      decide

theorem numeral?_append {numeral : Numeral}
    {fraction exponent rest : List Char} (hwhole : IsWhole numeral.whole)
    (hfraction : FractionSpelling numeral.fraction fraction)
    (hexponent : ExponentSpelling numeral.exponent exponent)
    (hrest : EndsNumber rest) :
    numeral? numeral.negative
        (numeral.whole ++ (fraction ++ exponent) ++ rest) =
      some (numeral, rest) := by
  have hafter := hexponent.head?_ne hrest
  have hdigits : EndsDigits (exponent ++ rest) := fun c hc => (hafter c hc).1
  have hpoint : (exponent ++ rest).head? ≠ some '.' :=
    fun hc => (hafter '.' hc).2 rfl
  rw [List.append_assoc, List.append_assoc, numeral?,
    hwhole.whole?_append (hfraction.endsDigits hdigits)]
  change (fraction? (fraction ++ (exponent ++ rest))).bind _ = _
  rw [hfraction.fraction?_append hdigits hpoint]
  change (exponent? (exponent ++ rest)).bind _ = _
  rw [hexponent.exponent?_append hrest]
  rfl

namespace Token

def IsNumber : Token → Prop
  | .number _ => True
  | _ => False

def IsFixed : Token → Prop
  | .number _ | .string _ | .invalid => False
  | _ => True

theorem IsFixed.token?_append {token : Token} (h : token.IsFixed)
    (rest : List Char) :
    token? (token.spelled ++ rest) = some (token, rest) := by
  cases token with
  | opening bracket | closing bracket => cases bracket <;> rfl
  | bool value => cases value <;> rfl
  | comma | colon | null => rfl
  | number | string | invalid => exact h.elim

theorem IsFixed.exists_spelled_eq_cons {token : Token} (h : token.IsFixed) :
    ∃ c rest, token.spelled = c :: rest ∧ isBlank c = false ∧
      c.isDigit = false ∧ c ≠ '.' ∧ c ≠ 'e' ∧ c ≠ 'E' := by
  cases token with
  | opening bracket | closing bracket =>
      cases bracket <;> exact ⟨_, [], rfl, by decide⟩
  | bool value => cases value <;> exact ⟨_, _, rfl, by decide⟩
  | comma | colon | null => exact ⟨_, _, rfl, by decide⟩
  | number | string | invalid => exact h.elim

theorem token?_of_isDigit {digit : Char} (h : digit.isDigit = true)
    (rest : List Char) :
    token? (digit :: rest) =
      (numeral? false (digit :: rest)).map fun read =>
        (.number read.1, read.2) := by
  rw [token?]
  all_goals
    intro rest heq
    cases heq
    exact absurd h (by decide)

inductive Spelling : Token → List Char → Prop
  | fixed {token : Token} (h : token.IsFixed) : Spelling token token.spelled
  | number {numeral : Numeral} {word : List Char} (h : numeral.Spelling word) :
      Spelling (.number numeral) word
  | string {pieces : List Piece} {words : List (List Char)}
      (h : List.Forall₂ Piece.Spelling pieces words) :
      Spelling (.string (characters? pieces)) ('"' :: (words.flatten ++ ['"']))

namespace Spelling

variable {token : Token} {word : List Char}

/-- A word is read back if what comes next is not taken for a part of it. -/
theorem token?_append (h : token.Spelling word) {rest : List Char}
    (hrest : token.IsNumber → EndsNumber rest) :
    token? (word ++ rest) = some (token, rest) := by
  cases h with
  | fixed h => exact h.token?_append rest
  | @number numeral word h =>
      obtain @⟨fraction, exponent, hwhole, hfraction, hexponent⟩ := h
      have hread := numeral?_append hwhole hfraction hexponent (hrest trivial)
      cases hnegative : numeral.negative with
      | true =>
          rw [hnegative] at hread
          rw [if_pos rfl, List.append_assoc, List.singleton_append,
            token?, hread]
          rfl
      | false =>
          obtain ⟨digit, digits, hdigits⟩ :=
            List.exists_cons_of_ne_nil hwhole.1.1
          have hdigit : digit.isDigit = true :=
            hwhole.1.2 digit (hdigits ▸ List.mem_cons_self)
          rw [hnegative, hdigits] at hread
          rw [if_neg Bool.false_ne_true, List.nil_append, hdigits]
          simp only [List.cons_append] at hread ⊢
          rw [token?_of_isDigit hdigit, hread]
          rfl
  | string h =>
      rw [List.cons_append, List.append_assoc, List.singleton_append, token?,
        stringRest_flatten h]
      rfl

theorem exists_eq_cons (h : token.Spelling word) :
    ∃ c rest, word = c :: rest ∧ isBlank c = false ∧
      (token.IsNumber ∨ c.isDigit = false ∧ c ≠ '.' ∧ c ≠ 'e' ∧ c ≠ 'E') := by
  cases h with
  | fixed h =>
      obtain ⟨c, rest, hspelled, hc, hends⟩ := h.exists_spelled_eq_cons
      exact ⟨c, rest, hspelled, hc, .inr hends⟩
  | @number numeral word h =>
      obtain @⟨fraction, exponent, hwhole, -, -⟩ := h
      obtain ⟨digit, digits, hdigits⟩ := List.exists_cons_of_ne_nil hwhole.1.1
      have hdigit : digit.isDigit = true :=
        hwhole.1.2 digit (hdigits ▸ List.mem_cons_self)
      cases numeral.negative with
      | true => exact ⟨'-', _, rfl, by decide, .inl trivial⟩
      | false =>
          exact ⟨digit, digits ++ (fraction ++ exponent), by simp [hdigits],
            isBlank_eq_false_of_isDigit hdigit, .inl trivial⟩
  | string => exact ⟨'"', _, rfl, by decide, .inr (by decide)⟩

end Spelling

end Token

/-- A token is cut off with the blanks before it. -/
theorem tokens_cons {blanks more text : List Char} {c : Char} {token : Token}
    (hblanks : ∀ c ∈ blanks, isBlank c = true) (hc : isBlank c = false)
    (hread : token? (c :: more ++ text) = some (token, text)) :
    tokens (blanks ++ (c :: more ++ text)) = token :: tokens text := by
  have hdrop : (blanks ++ (c :: more ++ text)).dropWhile isBlank =
      c :: (more ++ text) := by
    rw [List.dropWhile_append_of_pos hblanks, List.cons_append,
      List.dropWhile_cons_of_neg (by simp [hc])]
  have hshorter : text.length < (blanks ++ (c :: more ++ text)).length := by
    simp only [List.length_append, List.length_cons]
    omega
  rw [List.cons_append] at hread
  rw [tokens, hdrop]
  simp only [hread, if_pos hshorter]

def NumbersApart (ts : List Token) : Prop :=
  ts.IsChain fun token next => token.IsNumber → ¬ next.IsNumber

namespace NumbersApart

variable {left right : List Token} {token : Token}

theorem singleton (token : Token) : NumbersApart [token] :=
  List.IsChain.singleton token

theorem append (hleft : NumbersApart left) (hright : NumbersApart right)
    (hnext : ∀ token ∈ right.head?, ¬ token.IsNumber) :
    NumbersApart (left ++ right) :=
  List.isChain_append.mpr ⟨hleft, hright, fun _ _ _ hmem _ => hnext _ hmem⟩

theorem cons (htoken : ¬ token.IsNumber) (hright : NumbersApart right) :
    NumbersApart (token :: right) :=
  List.isChain_cons.mpr ⟨fun _ _ h => absurd h htoken, hright⟩

end NumbersApart

/-- The text has the words of the tokens one after another, with blanks before,
between and after them. -/
inductive IsSpread : List Token → List Char → Prop
  | nil {blanks : List Char} (hblanks : ∀ c ∈ blanks, isBlank c = true) :
      IsSpread [] blanks
  | cons {blanks word text : List Char} {token : Token} {tokens : List Token}
      (hblanks : ∀ c ∈ blanks, isBlank c = true) (hword : token.Spelling word)
      (htext : IsSpread tokens text) :
      IsSpread (token :: tokens) (blanks ++ (word ++ text))

namespace IsSpread

variable {ts : List Token} {text : List Char}

theorem endsNumber (h : IsSpread ts text)
    (hnumber : ∀ token ∈ ts.head?, ¬ token.IsNumber) : EndsNumber text := by
  cases h with
  | nil hblanks =>
      exact fun c hc => ends_of_isBlank (hblanks c (List.mem_of_mem_head? hc))
  | @cons blanks word _ token _ hblanks hword =>
      cases blanks with
      | nil =>
          obtain ⟨c, rest, rfl, -, hends⟩ := hword.exists_eq_cons
          rintro _ ⟨⟩
          exact hends.resolve_left (hnumber token rfl)
      | cons c blanks =>
          rintro _ ⟨⟩
          exact ends_of_isBlank (hblanks c List.mem_cons_self)

theorem tokens_eq (h : IsSpread ts text) (hnumbers : NumbersApart ts) :
    tokens text = ts := by
  induction h with
  | nil hblanks => rw [tokens, List.dropWhile_eq_nil_iff.mpr hblanks]
  | @cons blanks word text token ts hblanks hword htext ih =>
      obtain ⟨hnext, hrest⟩ := List.isChain_cons.mp hnumbers
      obtain ⟨c, more, rfl, hc, -⟩ := hword.exists_eq_cons
      have hread := hword.token?_append fun hnumber =>
        htext.endsNumber fun next hmem => hnext next hmem hnumber
      rw [tokens_cons hblanks hc hread, ih hrest]

end IsSpread

end TermSearch.Json
