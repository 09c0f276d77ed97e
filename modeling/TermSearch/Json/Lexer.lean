import TermSearch.Json.Token
import TermSearch.Text.Hex

namespace TermSearch.Json

/-! Cutting JSON text into tokens. The text is read from the left, each token as
far as it goes, up to the first place where there is none. -/

def isHighSurrogate (unit : Nat) : Bool := 0xD800 ≤ unit && unit < 0xDC00

def isLowSurrogate (unit : Nat) : Bool := 0xDC00 ≤ unit && unit < 0xE000

def ofSurrogates (high low : Nat) : Char :=
  Char.ofNat (0x10000 + (high - 0xD800) * 0x400 + (low - 0xDC00))

def shortEscape? (c : Char) : Option Char :=
  if c = '"' ∨ c = '\\' ∨ c = '/' then some c
  else if c = 'b' then some '\x08'
  else if c = 'f' then some '\x0c'
  else if c = 'n' then some '\n'
  else if c = 'r' then some '\r'
  else if c = 't' then some '\t'
  else none

/-- What stands in a string: a character, itself or by a short escape, or a unit
of sixteen bits. -/
inductive Piece where
  | char (c : Char)
  | unit (value : Nat)
  deriving DecidableEq, Repr

def stringRest : List Char → Option (List Piece × List Char)
  | [] => none
  | '"' :: rest => some ([], rest)
  | '\\' :: 'u' :: a :: b :: c :: d :: rest =>
      match Text.hexValue? [a, b, c, d] with
      | none => none
      | some unit =>
          (stringRest rest).map fun read => (.unit unit :: read.1, read.2)
  | '\\' :: c :: rest =>
      match shortEscape? c with
      | none => none
      | some escaped =>
          (stringRest rest).map fun read => (.char escaped :: read.1, read.2)
  | c :: rest =>
      if c.toNat < 0x20 ∨ c = '\\' then none
      else (stringRest rest).map fun read => (.char c :: read.1, read.2)

/-- The characters that the pieces stand for. Two surrogates, the high one
first, are one character; alone they are none. -/
def characters? : List Piece → Option (List Char)
  | [] => some []
  | .char c :: rest => (characters? rest).map (c :: ·)
  | .unit unit :: rest =>
      if isHighSurrogate unit then
        match rest with
        | .unit low :: after =>
            if isLowSurrogate low then
              (characters? after).map (ofSurrogates unit low :: ·)
            else
              none
        | _ => none
      else if isLowSurrogate unit then
        none
      else
        (characters? rest).map (Char.ofNat unit :: ·)

def digits? (text : List Char) : Option (List Char × List Char) :=
  if text.takeWhile Char.isDigit = [] then none
  else some (text.takeWhile Char.isDigit, text.dropWhile Char.isDigit)

/-- The part of a number before its point. A zero is followed by no digit. -/
def whole? (text : List Char) : Option (List Char × List Char) :=
  match text with
  | '0' :: rest =>
      if rest.head?.any Char.isDigit then none else some (['0'], rest)
  | _ => digits? text

def fraction? (text : List Char) : Option (Option (List Char) × List Char) :=
  match text with
  | '.' :: rest => (digits? rest).map fun read => (some read.1, read.2)
  | _ => some (none, text)

def exponent? (text : List Char) :
    Option (Option (Bool × List Char) × List Char) :=
  match text with
  | 'e' :: rest | 'E' :: rest =>
      match rest with
      | '-' :: rest =>
          (digits? rest).map fun read => (some (true, read.1), read.2)
      | '+' :: rest =>
          (digits? rest).map fun read => (some (false, read.1), read.2)
      | _ => (digits? rest).map fun read => (some (false, read.1), read.2)
  | _ => some (none, text)

def numeral? (negative : Bool) (text : List Char) :
    Option (Numeral × List Char) := do
  let (whole, text) ← whole? text
  let (fraction, text) ← fraction? text
  let (exponent, text) ← exponent? text
  pure (⟨negative, whole, fraction, exponent⟩, text)

def token? (text : List Char) : Option (Token × List Char) :=
  match text with
  | '[' :: rest => some (.opening .square, rest)
  | ']' :: rest => some (.closing .square, rest)
  | '\x7b' :: rest => some (.opening .curly, rest)
  | '\x7d' :: rest => some (.closing .curly, rest)
  | ',' :: rest => some (.comma, rest)
  | ':' :: rest => some (.colon, rest)
  | 'n' :: 'u' :: 'l' :: 'l' :: rest => some (.null, rest)
  | 't' :: 'r' :: 'u' :: 'e' :: rest => some (.bool true, rest)
  | 'f' :: 'a' :: 'l' :: 's' :: 'e' :: rest => some (.bool false, rest)
  | '"' :: rest =>
      (stringRest rest).map fun read => (.string (characters? read.1), read.2)
  | '-' :: rest => (numeral? true rest).map fun read => (.number read.1, read.2)
  | _ => (numeral? false text).map fun read => (.number read.1, read.2)

/-- All tokens of a text. If the text goes on with what is no token, that is the
last one. -/
def tokens (text : List Char) : List Token :=
  match text.dropWhile isBlank with
  | [] => []
  | c :: rest =>
      match token? (c :: rest) with
      | none => [.invalid]
      | some (token, after) =>
          if after.length < text.length then token :: tokens after
          else [.invalid]
termination_by text.length

end TermSearch.Json
