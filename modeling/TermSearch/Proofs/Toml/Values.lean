import TermSearch.Proofs.Decimal.Digits
import TermSearch.Proofs.Toml.Strings
import TermSearch.Toml.Document

namespace TermSearch.Toml

open Decimal Scan

/-! Written values are read back: strings, arrays of them, and natural
numbers. -/

theorem Scan.bind_of_eq_some {scan : Scan α} {next : α → Scan β}
    {text rest : List Char} {value : α} (h : scan text = some (value, rest)) :
    (scan >>= next) text = next value rest := by
  change Option.bind (scan text) _ = _
  rw [h]
  rfl

theorem Scan.get_bind (next : List Char → Scan β) (text : List Char) :
    (get >>= next) text = next text text := rfl

/-! What a value starts with tells its kind. -/

theorem isBlank_eq_false_of_isBareKeyChar {c : Char}
    (h : isBareKeyChar c = true) : isBlank c = false := by
  rw [Bool.eq_false_iff]
  intro hblank
  simp only [isBlank, Bool.or_eq_true, beq_iff_eq] at hblank
  rcases hblank with rfl | rfl <;> contradiction

def StartsValue (text : List Char) : Prop :=
  ∃ first more, text = first :: more ∧ isBlank first = false

theorem value_of_head {levels : Nat} {text : List Char}
    (hsquare : text.head? ≠ some '[') (hcurly : text.head? ≠ some '\x7b') :
    value levels text = unstructured text := by
  cases levels with
  | zero => rw [value]
  | succ levels =>
      rw [value, get_bind]
      refine congrFun ?_ text
      split
      · contradiction
      · contradiction
      · rfl

theorem unstructured_of_head {text : List Char}
    (hdouble : text.head? ≠ some '"') (hsingle : text.head? ≠ some '\'') :
    unstructured text =
      (do
        let text ← atom
        fun rest => (atomValue? text).map fun value =>
          (value, rest) : Scan Value) text := by
  rw [unstructured, get_bind]
  refine congrFun ?_ text
  split
  · contradiction
  · contradiction
  · rfl

/-! Strings. -/

theorem quote_eq_cons (text : List Char) :
    ∃ mark more, quote text = mark :: more ∧ (mark = '"' ∨ mark = '\'') := by
  unfold quote
  cases style text with
  | basic => exact ⟨'"', _, rfl, .inl rfl⟩
  | literal => exact ⟨'\'', _, rfl, .inr rfl⟩
  | longBasic => exact ⟨'"', _, rfl, .inl rfl⟩
  | longLiteral => exact ⟨'\'', _, rfl, .inr rfl⟩

theorem unstructured_of_mark {mark : Char} (hmark : mark = '"' ∨ mark = '\'')
    (text : List Char) :
    unstructured (mark :: text) =
      (do return .string (String.ofList (← string)) : Scan Value)
        (mark :: text) := by
  rcases hmark with rfl | rfl <;> rfl

theorem value_quote (levels : Nat) (text : List Char) {rest : List Char}
    (hrest : EndsString rest) :
    value levels (quote text ++ rest) =
      some (.string (String.ofList text), rest) := by
  have hread := string_quote text hrest
  obtain ⟨mark, more, hquote, hmark⟩ := quote_eq_cons text
  rw [hquote, List.cons_append] at hread ⊢
  have hopening : mark ≠ '[' ∧ mark ≠ '\x7b' := by
    rcases hmark with rfl | rfl <;> decide
  rw [value_of_head (by simp [hopening]) (by simp [hopening]),
    unstructured_of_mark hmark, bind_of_eq_some hread]
  rfl

/-! Arrays. -/

section Brackets

variable {close first : Char} {item : Scan α}
  {text inside after : List Char} {value : α}

theorem bracketed_close (hstart : afterTrivia false text = close :: after) :
    bracketed close item text = some ([], after) := by
  rw [bracketed, hstart]
  exact if_pos rfl

theorem bracketed_last (hstart : afterTrivia false text = first :: inside)
    (hfirst : first ≠ close)
    (hitem : item (first :: inside) = some (value, close :: after))
    (hclose : afterTrivia false (close :: after) = close :: after) :
    bracketed close item text = some ([value], after) := by
  rw [bracketed, hstart]
  simp only [if_neg hfirst, hitem, hclose, if_true]

theorem bracketed_item (hstart : afterTrivia false text = first :: inside)
    (hfirst : first ≠ close)
    (hitem : item (first :: inside) = some (value, ',' :: after))
    (hclose : ',' ≠ close) (hlength : after.length < text.length) :
    bracketed close item text =
      (bracketed close item after).map fun read =>
        (value :: read.1, read.2) := by
  have hcomma : afterTrivia false (',' :: after) = ',' :: after := rfl
  rw [bracketed, hstart]
  simp only [if_neg hfirst, hitem, hcomma, if_neg hclose, true_and,
    if_pos hlength]

end Brackets

def rows : List String → List Char
  | [] => [']']
  | text :: texts => ' ' :: ' ' :: ' ' :: ' ' ::
      (quote text.toList ++ ',' :: '\n' :: rows texts)

theorem toList_rows (texts : List String) :
    (String.join (texts.map fun text => "    " ++ quoted text ++ ",\n") ++
        "]").toList =
      rows texts := by
  induction texts with
  | nil => rfl
  | cons text texts ih => simp_all [rows, quoted]

theorem bracketed_rows (levels : Nat) (texts : List String) (rest : List Char) :
    bracketed ']' (value levels) ('\n' :: (rows texts ++ rest)) =
      some (texts.map .string, rest) := by
  induction texts with
  | nil => exact bracketed_close rfl
  | cons text texts ih =>
      have hends : EndsString (',' :: '\n' :: (rows texts ++ rest)) := by
        simp [EndsString]
      have hitem := value_quote levels text.toList hends
      obtain ⟨mark, more, hquote, hmark⟩ := quote_eq_cons text.toList
      have hstart : afterTrivia false ('\n' :: (rows (text :: texts) ++ rest)) =
          mark :: (more ++ ',' :: '\n' :: (rows texts ++ rest)) := by
        rw [rows, hquote]
        rcases hmark with rfl | rfl <;> simp [afterTrivia, isBlank]
      have hfirst : mark ≠ ']' := by rcases hmark with rfl | rfl <;> decide
      rw [hquote] at hitem
      have hlength : ('\n' :: (rows texts ++ rest)).length <
          ('\n' :: (rows (text :: texts) ++ rest)).length := by
        simp only [rows, List.length_cons, List.length_append]
        omega
      rw [bracketed_item hstart hfirst hitem (by decide) hlength, ih]
      simp

theorem value_square (levels : Nat) (inside : List Char) :
    value (levels + 1) ('[' :: inside) =
      (bracketed ']' (value levels) inside).map fun read =>
        (.array read.1, read.2) := by
  change Option.bind (bracketed ']' (value levels) inside) _ = _
  cases bracketed ']' (value levels) inside <;> rfl

theorem value_quotedArray (levels : Nat) (texts : List String)
    (rest : List Char) :
    value (levels + 1) ((quotedArray texts).toList ++ rest) =
      some (.array (texts.map .string), rest) := by
  match texts with
  | [] =>
      have hread :
          bracketed ']' (value levels) (']' :: rest) = some ([], rest) :=
        bracketed_close rfl
      exact (value_square levels (']' :: rest)).trans (by rw [hread]; rfl)
  | [only] =>
      have hends : EndsString (']' :: rest) := by simp [EndsString]
      have hitem := value_quote levels only.toList hends
      obtain ⟨mark, more, hquote, hmark⟩ := quote_eq_cons only.toList
      have hwritten : (quotedArray [only]).toList ++ rest =
          '[' :: (quote only.toList ++ ']' :: rest) := by
        simp [quotedArray, quoted]
      have hstart : afterTrivia false (mark :: (more ++ ']' :: rest)) =
          mark :: (more ++ ']' :: rest) := by
        rcases hmark with rfl | rfl <;> rfl
      have hfirst : mark ≠ ']' := by rcases hmark with rfl | rfl <;> decide
      rw [hwritten, value_square]
      rw [hquote] at hitem ⊢
      rw [List.cons_append, bracketed_last hstart hfirst hitem rfl]
      simp
  | first :: second :: texts =>
      have hwritten : (quotedArray (first :: second :: texts)).toList ++ rest =
          '[' :: '\n' :: (rows (first :: second :: texts) ++ rest) := by
        rw [← toList_rows]
        simp [quotedArray]
      rw [hwritten, value_square, bracketed_rows]
      rfl

theorem startsValue_quotedArray (texts : List String) :
    StartsValue (quotedArray texts).toList := by
  match texts with
  | [] | [_] | _ :: _ :: _ => exact ⟨'[', _, by simp [quotedArray]; rfl, rfl⟩

/-! Numbers. -/

theorem startsValue_toDigits (n : Nat) : StartsValue (Nat.toDigits 10 n) := by
  obtain ⟨digit, digits, hdigits, hdigit⟩ := exists_toDigits_eq_cons n
  refine ⟨digit, digits, hdigits, isBlank_eq_false_of_isBareKeyChar ?_⟩
  rw [isBareKeyChar, Char.isAlphanum, hdigit, Bool.or_true, Bool.true_or,
    Bool.true_or]

theorem dash_mem_of_isDate {text : List Char} (h : isDate text = true) :
    '-' ∈ text := by
  unfold isDate at h
  split at h
  · simp
  · contradiction

theorem colon_mem_of_isTimeWith {ending : List Char → Bool} {text : List Char}
    (h : isTimeWith ending text = true) : ':' ∈ text := by
  unfold isTimeWith at h
  split at h
  · simp
  · contradiction

theorem isMoment_eq_false {text : List Char} (hdash : '-' ∉ text)
    (hcolon : ':' ∉ text) : isMoment text = false := by
  have hdate : isDate text = false :=
    Bool.eq_false_iff.mpr fun h => hdash (dash_mem_of_isDate h)
  have htime : isTime text = false :=
    Bool.eq_false_iff.mpr fun h => hcolon (colon_mem_of_isTimeWith h)
  have hten : isDate (text.take 10) = false :=
    Bool.eq_false_iff.mpr fun h =>
      hdash (List.mem_of_mem_take (dash_mem_of_isDate h))
  simp only [isMoment, hdate, htime, hten, Bool.false_and, Bool.false_or]
  split <;> rfl

theorem ungrouped?_eq {text : List Char} (hne : text ≠ [])
    (h : ∀ c ∈ text, c.isDigit = true) :
    ungrouped? Char.isDigit text = some text := by
  induction text with
  | nil => exact absurd rfl hne
  | cons c text ih =>
      obtain ⟨hc, htext⟩ := List.forall_mem_cons.mp h
      cases text with
      | nil => exact if_pos hc
      | cons next text =>
          have hnext : next ≠ '_' := by
            rintro rfl
            exact absurd (htext '_' List.mem_cons_self) (by decide)
          rw [ungrouped?, if_pos hc, ih (by simp) htext]
          · rfl
          · exact hnext

theorem wholeDigits?_toDigits (n : Nat) :
    wholeDigits? (Nat.toDigits 10 n) = some (Nat.toDigits 10 n) := by
  have hdigits :=
    ungrouped?_eq Nat.toDigits_ne_nil fun _ => isDigit_of_mem_toDigits (n := n)
  have hzeros :
      ¬ ((Nat.toDigits 10 n).head? = some '0' ∧ Nat.toDigits 10 n ≠ ['0']) := by
    rintro ⟨hhead, hmore⟩
    rcases Nat.eq_zero_or_pos n with rfl | hpos
    · exact hmore (Nat.toDigits_zero 10)
    · exact head?_toDigits_ne hpos hhead
  rw [wholeDigits?, hdigits]
  exact if_neg hzeros

theorem bounded?_natCast {n : Nat} (h : n < 0x10000000000000000) :
    bounded? (n : Int) = some (n : Int) := by
  rw [bounded?, if_pos]
  omega

theorem integer?_of_wholeDigits {text : List Char}
    (hbase : ∀ c ∈ ['x', 'o', 'b'], text[1]? ≠ some c)
    (hsign : unsigned text = (false, text))
    (hdigits : wholeDigits? text = some text) :
    integer? text = bounded? (decimalValue text : Int) := by
  have hdecimal (check : Int → Option Int) :
      ((wholeDigits? text).bind fun digits =>
        check (if false = true then -(decimalValue digits : Int)
          else decimalValue digits)) =
      check (decimalValue text) := by
    rw [hdigits]
    rfl
  unfold integer?
  split
  · simp at hbase
  · simp at hbase
  · simp at hbase
  · rw [hsign]
    exact hdecimal bounded?

theorem integer?_toDigits {n : Nat} (h : n < 0x10000000000000000) :
    integer? (Nat.toDigits 10 n) = some (n : Int) := by
  have hvalue : decimalValue (Nat.toDigits 10 n) = n :=
    Nat.ofDigitChars_ten_toDigits
  have hother {c : Char} (hc : c.isDigit = false) {i : Nat} :
      (Nat.toDigits 10 n)[i]? ≠ some c := fun heq =>
    not_mem_toDigits hc n (List.mem_of_getElem? heq)
  have hbase : ∀ c ∈ ['x', 'o', 'b'], (Nat.toDigits 10 n)[1]? ≠ some c := by
    simp only [List.forall_mem_cons]
    exact ⟨hother (by decide), hother (by decide), hother (by decide),
      List.forall_mem_nil _⟩
  have hsign : unsigned (Nat.toDigits 10 n) = (false, Nat.toDigits 10 n) := by
    unfold unsigned
    split
    · rename_i heq
      exact absurd (heq ▸ List.mem_cons_self) (not_mem_toDigits (by decide) n)
    · rename_i heq
      exact absurd (heq ▸ List.mem_cons_self) (not_mem_toDigits (by decide) n)
    · rfl
  rw [integer?_of_wholeDigits hbase hsign (wholeDigits?_toDigits n), hvalue]
  exact bounded?_natCast h

theorem atomValue?_toDigits {n : Nat} (h : n < 0x10000000000000000) :
    atomValue? (Nat.toDigits 10 n) = some (.integer n) := by
  have hmoment : isMoment (Nat.toDigits 10 n) = false :=
    isMoment_eq_false (not_mem_toDigits (by decide) n)
      (not_mem_toDigits (by decide) n)
  have htrue : Nat.toDigits 10 n ≠ ['t', 'r', 'u', 'e'] := fun heq =>
    not_mem_toDigits (c := 't') (by decide) n (by simp [heq])
  have hfalse : Nat.toDigits 10 n ≠ ['f', 'a', 'l', 's', 'e'] := fun heq =>
    not_mem_toDigits (c := 'f') (by decide) n (by simp [heq])
  rw [atomValue?, if_neg htrue, if_neg hfalse, if_neg (by rw [hmoment]; decide),
    integer?_toDigits h]

theorem atom_of_newline {text : List Char}
    (h : ∀ c ∈ text, isAtomChar c = true) (rest : List Char) :
    atom (text ++ '\n' :: rest) = some (text, '\n' :: rest) := by
  have hrun :
      run isAtomChar (text ++ '\n' :: rest) = some (text, '\n' :: rest) := by
    unfold run
    rw [List.takeWhile_append_of_pos h, List.dropWhile_append_of_pos h]
    simp [isAtomChar]
  exact (bind_of_eq_some hrun).trans rfl

theorem value_toDigits (levels : Nat) {n : Nat} (h : n < 0x10000000000000000)
    (rest : List Char) :
    value levels (Nat.toDigits 10 n ++ '\n' :: rest) =
      some (.integer n, '\n' :: rest) := by
  have hchars : ∀ c ∈ Nat.toDigits 10 n, isAtomChar c = true := fun c hc => by
    simp [isAtomChar, Char.isAlphanum, isDigit_of_mem_toDigits hc]
  have hatom : atom (Nat.toDigits 10 n ++ '\n' :: rest) =
      some (Nat.toDigits 10 n, '\n' :: rest) :=
    atom_of_newline hchars rest
  have hhead : ∀ c : Char, c.isDigit = false →
      (Nat.toDigits 10 n ++ '\n' :: rest).head? ≠ some c := by
    obtain ⟨digit, digits, hdigits, hdigit⟩ := exists_toDigits_eq_cons n
    rintro c hc heq
    rw [hdigits] at heq
    cases heq
    rw [hc] at hdigit
    contradiction
  rw [value_of_head (hhead '[' (by decide)) (hhead '\x7b' (by decide)),
    unstructured_of_head (hhead '"' (by decide)) (hhead '\'' (by decide)),
    bind_of_eq_some hatom, atomValue?_toDigits h]
  rfl

end TermSearch.Toml
