import TermSearch.Proofs.Decimal.Digits
import TermSearch.Proofs.Text.Lines
import TermSearch.Text.Quoted

namespace TermSearch

/-! Written values that are told apart by their texts alone, wherever the text
goes on after them. Quoted strings and lists of them are written so. -/

/-- Neither the value nor the end of its text depends on what follows. -/
def IsPrefixCode (write : α → List Char) : Prop :=
  ∀ ⦃value other : α⦄ ⦃rest more : List Char⦄,
    write value ++ rest = write other ++ more → value = other ∧ rest = more

namespace IsPrefixCode

variable {write : α → List Char}

theorem injective (h : IsPrefixCode write) : Function.Injective write := by
  intro value other hequal
  exact (h (congrArg (· ++ []) hequal)).1

theorem comp (h : IsPrefixCode write) {part : β → α}
    (hpart : Function.Injective part) :
    IsPrefixCode fun value => write (part value) := by
  intro value other rest more hequal
  obtain ⟨hvalue, hrest⟩ := h hequal
  exact ⟨hpart hvalue, hrest⟩

theorem opened (h : IsPrefixCode write) (mark : List Char) :
    IsPrefixCode fun value => mark ++ write value := by
  intro value other rest more hequal
  rw [List.append_assoc, List.append_assoc] at hequal
  exact h (List.append_cancel_left hequal)

theorem closed (h : IsPrefixCode write) (mark : List Char) :
    IsPrefixCode fun value => write value ++ mark := by
  intro value other rest more hequal
  rw [List.append_assoc, List.append_assoc] at hequal
  obtain ⟨hvalue, hrest⟩ := h hequal
  exact ⟨hvalue, List.append_cancel_left hrest⟩

theorem pair (h : IsPrefixCode write) {writeOther : β → List Char}
    (hother : IsPrefixCode writeOther) :
    IsPrefixCode fun values : α × β =>
      write values.1 ++ writeOther values.2 := by
  intro values others rest more hequal
  rw [List.append_assoc, List.append_assoc] at hequal
  obtain ⟨hfirst, hnext⟩ := h hequal
  obtain ⟨hsecond, hrest⟩ := hother hnext
  exact ⟨Prod.ext hfirst hsecond, hrest⟩

/-- A character that the texts do not hold shows where they end. -/
theorem of_terminator (hinjective : Function.Injective write) {stop : Char}
    (hstop : ∀ value, stop ∉ write value) :
    IsPrefixCode fun value => write value ++ [stop] := by
  intro value other rest more hequal
  rw [List.append_assoc, List.append_assoc, List.append_eq_append_iff] at hequal
  rcases hequal with ⟨gap, hother, hgap⟩ | ⟨gap, hvalue, hgap⟩
  · cases gap with
    | nil =>
        rw [List.append_nil] at hother
        exact ⟨(hinjective hother).symm, List.append_cancel_left hgap⟩
    | cons c gap =>
        cases hgap
        exact absurd (by simp [hother]) (hstop other)
  · cases gap with
    | nil =>
        rw [List.append_nil] at hvalue
        exact ⟨hinjective hvalue, (List.append_cancel_left hgap).symm⟩
    | cons c gap =>
        cases hgap
        exact absurd (by simp [hvalue]) (hstop value)

theorem option (h : IsPrefixCode write) {mark : Char}
    (hmark : ∀ value, ∃ c text, write value = c :: text ∧ c ≠ mark) :
    IsPrefixCode fun value : Option α => value.elim [mark] write := by
  have hdifferent (value : α) (rest more : List Char) :
      write value ++ rest ≠ mark :: more := by
    intro hequal
    obtain ⟨c, text, hvalue, hc⟩ := hmark value
    rw [hvalue] at hequal
    exact hc (List.cons.inj hequal).1
  intro value other rest more hequal
  cases value with
  | none =>
      cases other with
      | none => exact ⟨rfl, List.append_cancel_left hequal⟩
      | some other => exact absurd hequal.symm (hdifferent other more rest)
  | some value =>
      cases other with
      | none => exact absurd hequal (hdifferent value rest more)
      | some other =>
          obtain ⟨hvalue, hrest⟩ := h hequal
          exact ⟨congrArg some hvalue, hrest⟩

theorem row (h : IsPrefixCode write) {stop : Char}
    (hstop : ∀ value, ∃ c text, write value = c :: text ∧ c ≠ stop) :
    IsPrefixCode fun values : List α => values.flatMap write ++ [stop] := by
  have hmore := h.option hstop
  intro values others rest more hequal
  induction values generalizing others with
  | nil =>
      cases others with
      | nil => exact ⟨rfl, List.append_cancel_left hequal⟩
      | cons other others =>
          simp only [List.flatMap_nil, List.flatMap_cons, List.append_assoc]
            at hequal
          cases (@hmore none (some other) _ _ hequal).1
  | cons value values ih =>
      cases others with
      | nil =>
          simp only [List.flatMap_nil, List.flatMap_cons, List.append_assoc]
            at hequal
          cases (@hmore (some value) none _ _ hequal).1
      | cons other others =>
          simp only [List.flatMap_cons, List.append_assoc] at hequal
          obtain ⟨rfl, htail⟩ := h hequal
          rw [← List.append_assoc, ← List.append_assoc] at htail
          obtain ⟨rfl, hrest⟩ := ih htail
          exact ⟨rfl, hrest⟩

end IsPrefixCode

namespace Text

/-! Code points and decimal numbers end where their digits do. -/

theorem not_mem_toDigits_sixteen {c : Char}
    (h : ∀ digit < 16, c ≠ Nat.digitChar digit) (n : Nat) :
    c ∉ Nat.toDigits 16 n := by
  intro hmem
  obtain ⟨digit, hdigit, hc⟩ := Decimal.exists_of_mem_toDigits (by decide) hmem
  exact h digit hdigit hc

theorem isPrefixCode_codePointEscape : IsPrefixCode codePointEscape := by
  have hdigits :
      Function.Injective fun c : Char => Nat.toDigits 16 c.toNat := by
    intro c other h
    exact Char.toNat_inj.mp
      (Decimal.toDigits_injective (by decide) (by decide) h)
  have hstop (c : Char) : '\x7d' ∉ Nat.toDigits 16 c.toNat :=
    not_mem_toDigits_sixteen (by decide) c.toNat
  exact (IsPrefixCode.of_terminator hdigits hstop).opened ['\\', 'u', '\x7b']

def shortEscaped (letter : Char) : Char :=
  if letter = '0' then '\x00'
  else if letter = 't' then '\t'
  else if letter = 'r' then '\r'
  else if letter = 'n' then '\n'
  else letter

theorem escapeChar_cases (c : Char) :
    (∃ letter, letter ≠ 'u' ∧
        shortEscaped letter = c ∧
        escapeChar '"' c = ['\\', letter] ∧
        letter ≠ '\n' ∧
        letter ≠ '\r') ∨
      (c ≠ '\\' ∧ c ≠ '"' ∧ c ≠ '\n' ∧ c ≠ '\r' ∧ escapeChar '"' c = [c]) ∨
      escapeChar '"' c = codePointEscape c := by
  unfold escapeChar
  split
  · rename_i h
    exact .inl ⟨'0', by decide, h.symm, rfl, by decide, by decide⟩
  · split
    · rename_i h
      exact .inl ⟨'t', by decide, h.symm, rfl, by decide, by decide⟩
    · split
      · rename_i h
        exact .inl ⟨'r', by decide, h.symm, rfl, by decide, by decide⟩
      · split
        · rename_i h
          exact .inl ⟨'n', by decide, h.symm, rfl, by decide, by decide⟩
        · split
          · rename_i h
            exact .inl ⟨'\\', by decide, h.symm, rfl, by decide, by decide⟩
          · split
            · rename_i h
              exact .inl ⟨'"', by decide, h.symm, rfl, by decide, by decide⟩
            · split
              · rename_i hreturn hfeed hbackslash hquote _
                exact .inr (.inl ⟨hbackslash, hquote, hfeed, hreturn, rfl⟩)
              · exact .inr (.inr rfl)

theorem isPrefixCode_escapeChar : IsPrefixCode (escapeChar '"') := by
  intro c other rest more h
  rcases escapeChar_cases c with
    ⟨letter, hletter, hc, hescape, -⟩ | ⟨hc, -, -, -, hescape⟩ | hescape
  · rcases escapeChar_cases other with
      ⟨another, -, hother, hanother, -⟩ | ⟨hother, -, -, -, hanother⟩ | hanother
    · rw [hescape, hanother] at h
      cases h
      exact ⟨hc.symm.trans hother, rfl⟩
    · rw [hescape, hanother] at h
      cases h
      exact absurd rfl hother
    · rw [hescape, hanother] at h
      cases h
      exact absurd rfl hletter
  · rcases escapeChar_cases other with
      ⟨another, -, -, hanother, -⟩ | ⟨-, -, -, -, hanother⟩ | hanother
    · rw [hescape, hanother] at h
      cases h
      exact absurd rfl hc
    · rw [hescape, hanother] at h
      cases h
      exact ⟨rfl, rfl⟩
    · rw [hescape, hanother] at h
      cases h
      exact absurd rfl hc
  · rcases escapeChar_cases other with
      ⟨another, hne, -, hanother, -⟩ | ⟨hother, -, -, -, hanother⟩ | hanother
    · rw [hescape, hanother] at h
      cases h
      exact absurd rfl hne
    · rw [hescape, hanother] at h
      cases h
      exact absurd rfl hother
    · rw [hescape, hanother] at h
      exact isPrefixCode_codePointEscape h

theorem isPrefixCode_enclose : IsPrefixCode (enclose '"') := by
  have hfirst (c : Char) :
      ∃ first text, escapeChar '"' c = first :: text ∧ first ≠ '"' := by
    rcases escapeChar_cases c with ⟨letter, -, -, h, -⟩ | ⟨-, hc, -, -, h⟩ | h
    · exact ⟨'\\', [letter], h, by decide⟩
    · exact ⟨c, [], h, hc⟩
    · exact ⟨'\\', _, h, by decide⟩
  exact (isPrefixCode_escapeChar.row hfirst).opened ['"']

theorem isPrefixCode_quoted :
    IsPrefixCode fun text => (quoted text).toList := by
  have h : IsPrefixCode fun text : String => enclose '"' text.toList :=
    isPrefixCode_enclose.comp fun _ _ => String.toList_inj.mp
  simpa only [toList_quoted] using h

def quotedTail (texts : List String) : List Char :=
  (texts.flatMap fun text => [',', ' '] ++ (quoted text).toList) ++ [']']

theorem isPrefixCode_quotedTail : IsPrefixCode quotedTail := by
  have h := isPrefixCode_quoted.opened [',', ' ']
  exact h.row fun text => ⟨',', ' ' :: (quoted text).toList, rfl, by decide⟩

theorem toList_quotedList_cons (text : String) (texts : List String) :
    (quotedList (text :: texts)).toList =
      '[' :: ((quoted text).toList ++ quotedTail texts) := by
  have hjoined (texts : List String) (text : String) :
      (", ".intercalate ((text :: texts).map quoted)).toList ++ [']'] =
        (quoted text).toList ++ quotedTail texts := by
    induction texts generalizing text with
    | nil => simp [quotedTail]
    | cons next texts ih =>
        rw [List.map_cons, List.map_cons, String.intercalate_cons_cons,
          ← List.map_cons, String.toList_append, List.append_assoc, ih]
        simp [quotedTail]
  rw [← hjoined]
  simp [quotedList]

theorem isPrefixCode_quotedList :
    IsPrefixCode fun texts => (quotedList texts).toList := by
  have hrow := isPrefixCode_quoted.pair isPrefixCode_quotedTail
  have hempty (text : String) (texts : List String) (rest more : List Char) :
      (quotedList []).toList ++ rest ≠
        (quotedList (text :: texts)).toList ++ more := by
    rw [toList_quotedList_cons, toList_quoted]
    simp [quotedList, enclose]
  intro texts others rest more h
  cases texts with
  | nil =>
      cases others with
      | nil => exact ⟨rfl, List.append_cancel_left h⟩
      | cons other others => exact absurd h (hempty other others rest more)
  | cons text texts =>
      cases others with
      | nil => exact absurd h.symm (hempty text texts more rest)
      | cons other others =>
          simp only [toList_quotedList_cons, List.cons_append, List.cons.injEq,
            true_and] at h
          obtain ⟨hpair, hrest⟩ :=
            @hrow (text, texts) (other, others) rest more h
          cases hpair
          exact ⟨rfl, hrest⟩

/-! Whatever a quoted string holds, it stays on its line. -/

theorem isOneLine_escapeChar (c : Char) : IsOneLine (escapeChar '"' c) := by
  rcases escapeChar_cases c with
    ⟨letter, -, -, h, hfeed, hreturn⟩ | ⟨-, -, hfeed, hreturn, h⟩ | h
  · rw [h]
    simp [IsOneLine, hfeed.symm, hreturn.symm]
  · rw [h]
    simp [IsOneLine, hfeed.symm, hreturn.symm]
  · rw [h]
    have hfeed := not_mem_toDigits_sixteen (c := '\n') (by decide) c.toNat
    have hreturn := not_mem_toDigits_sixteen (c := '\r') (by decide) c.toNat
    simp [IsOneLine, codePointEscape, hfeed, hreturn]

theorem isOneLine_quoted (text : String) : IsOneLine (quoted text).toList := by
  rw [toList_quoted, enclose, isOneLine_append, isOneLine_cons]
  refine ⟨⟨by decide, isOneLine_flatMap fun c _ => isOneLine_escapeChar c⟩, ?_⟩
  simp [IsOneLine]

theorem isOneLine_quotedList (texts : List String) :
    IsOneLine (quotedList texts).toList := by
  cases texts with
  | nil => simp [quotedList, IsOneLine]
  | cons text texts =>
      rw [toList_quotedList_cons, isOneLine_cons, isOneLine_append, quotedTail,
        isOneLine_append]
      refine ⟨by decide, isOneLine_quoted text,
        isOneLine_flatMap fun next _ => ?_, ?_⟩
      · rw [isOneLine_append]
        exact ⟨by simp [IsOneLine], isOneLine_quoted next⟩
      · simp [IsOneLine]

end Text

end TermSearch
