import Mathlib.Tactic.FinCases
import TermSearch.Proofs.Decimal.Digits
import TermSearch.Proofs.Json.Words

namespace TermSearch.Json

open Decimal

/-! The spelling of a written token is one of its words, so it is read back as
that token. -/

/-! Strings: each character is written as one piece. -/

theorem hexValue?_hexPair {n : Nat} (h : n < 0x20) :
    Text.hexValue? ('0' :: '0' :: Text.hexPair n) = some n := by
  revert n
  decide

theorem characters?_unit {n : Nat} (h : n < 0x20) (pieces : List Piece) :
    characters? (.unit n :: pieces) =
      (characters? pieces).map (Char.ofNat n :: ·) := by
  have hhigh : isHighSurrogate n = false := by
    simp only [isHighSurrogate, Bool.and_eq_false_iff, decide_eq_false_iff_not]
    omega
  have hlow : isLowSurrogate n = false := by
    simp only [isLowSurrogate, Bool.and_eq_false_iff, decide_eq_false_iff_not]
    omega
  rw [characters?.eq_def]
  simp [hhigh, hlow]

theorem escapeChar_cases (c : Char) :
    (∃ letter, letter ≠ 'u' ∧
        shortEscape? letter = some c ∧
        escapeChar c = ['\\', letter]) ∨
      (c.toNat < 0x20 ∧
        escapeChar c = '\\' :: 'u' :: '0' :: '0' :: Text.hexPair c.toNat) ∨
      (c ≠ '"' ∧ c ≠ '\\' ∧ ¬ c.toNat < 0x20 ∧ escapeChar c = [c]) := by
  by_cases hshort : c ∈ ['"', '\\', '\x08', '\t', '\n', '\x0c', '\r']
  · refine .inl ?_
    fin_cases hshort
    exacts [⟨'"', by decide, rfl, rfl⟩, ⟨'\\', by decide, rfl, rfl⟩,
      ⟨'b', by decide, rfl, rfl⟩, ⟨'t', by decide, rfl, rfl⟩,
      ⟨'n', by decide, rfl, rfl⟩, ⟨'f', by decide, rfl, rfl⟩,
      ⟨'r', by decide, rfl, rfl⟩]
  · simp only [List.mem_cons, List.not_mem_nil, or_false, not_or] at hshort
    obtain ⟨hquote, hbackslash, hb, ht, hn, hf, hr⟩ := hshort
    have hrest : escapeChar c =
        if c.toNat < 0x20 then '\\' :: 'u' :: '0' :: '0' :: Text.hexPair c.toNat
        else [c] := by
      simp only [escapeChar, hquote, hbackslash, hb, ht, hn, hf, hr, if_false]
    by_cases hcontrol : c.toNat < 0x20
    · exact .inr (.inl ⟨hcontrol, hrest.trans (if_pos hcontrol)⟩)
    · exact .inr
        (.inr ⟨hquote, hbackslash, hcontrol, hrest.trans (if_neg hcontrol)⟩)

theorem exists_piece (c : Char) :
    ∃ piece : Piece, piece.Spelling (escapeChar c) ∧
      ∀ pieces,
        characters? (piece :: pieces) = (characters? pieces).map (c :: ·) := by
  rcases escapeChar_cases c with
    ⟨letter, -, hshort, hescape⟩ | ⟨hcontrol, hescape⟩ | ⟨hquote, hbackslash,
      hprinted, hescape⟩
  · exact ⟨.char c, hescape ▸ .short hshort, fun _ => rfl⟩
  · refine ⟨.unit c.toNat, hescape ▸ .unit (hexValue?_hexPair hcontrol),
      fun pieces => ?_⟩
    rw [characters?_unit hcontrol, Char.ofNat_toNat]
  · exact ⟨.char c, hescape ▸ .plain hquote hbackslash hprinted, fun _ => rfl⟩

theorem exists_pieces (text : List Char) :
    ∃ pieces, List.Forall₂ Piece.Spelling pieces (text.map escapeChar) ∧
      characters? pieces = some text := by
  induction text with
  | nil => exact ⟨[], .nil, rfl⟩
  | cons c text ih =>
      obtain ⟨pieces, hpieces, hcharacters⟩ := ih
      obtain ⟨piece, hpiece, hcharacter⟩ := exists_piece c
      refine ⟨piece :: pieces, .cons hpiece hpieces, ?_⟩
      rw [hcharacter, hcharacters]
      rfl

/-! Numbers. -/

theorem isWhole_toDigits (n : Nat) : IsWhole (Nat.toDigits 10 n) := by
  refine ⟨⟨Nat.toDigits_ne_nil, fun _ => isDigit_of_mem_toDigits⟩,
    fun hhead => ?_⟩
  rcases Nat.eq_zero_or_pos n with rfl | hpos
  · rfl
  · -- no other number starts with a zero
    exact absurd hhead (head?_toDigits_ne hpos)

theorem Numeral.spelling_ofNat (n : Nat) :
    (ofNat n).Spelling (Nat.toDigits 10 n) := by
  have hwords : (ofNat n).Spelling _ := .mk (isWhole_toDigits n) .absent .absent
  simpa [ofNat] using hwords

/-! Tokens. -/

namespace Token

def IsPlain : Token → Prop
  | .number numeral => ∃ n, numeral = .ofNat n
  | .string text => text.isSome
  | .invalid => False
  | _ => True

theorem spelled_ofNat (n : Nat) :
    (number (.ofNat n)).spelled = Nat.toDigits 10 n := by
  simp [spelled, Numeral.spelled, Numeral.ofNat]

theorem IsPlain.spelling_spelled {token : Token} (h : token.IsPlain) :
    token.Spelling token.spelled := by
  cases token with
  | number numeral =>
      obtain ⟨n, rfl⟩ := h
      rw [spelled_ofNat]
      exact .number (Numeral.spelling_ofNat n)
  | string text =>
      obtain ⟨text, rfl⟩ := Option.isSome_iff_exists.mp h
      obtain ⟨pieces, hpieces, hcharacters⟩ := exists_pieces text
      have hwords := Spelling.string hpieces
      rwa [hcharacters] at hwords
  | invalid => exact h.elim
  | _ => exact .fixed trivial

end Token

end TermSearch.Json
