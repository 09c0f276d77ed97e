namespace TermSearch.Json

/-! The tokens of JSON text. A token keeps what later decides whether it can be
used: a number its digits, a string whether its escapes denote characters. -/

inductive Bracket where
  | square
  | curly
  deriving DecidableEq, Repr

structure Numeral where
  negative : Bool
  whole : List Char
  fraction : Option (List Char)
  exponent : Option (Bool × List Char)
  deriving DecidableEq, Repr

inductive Token where
  | opening (bracket : Bracket)
  | closing (bracket : Bracket)
  | comma
  | colon
  | null
  | bool (value : Bool)
  | number (numeral : Numeral)
  /-- Without its text if an escape denotes half of a character. -/
  | string (text : Option (List Char))
  /-- The text goes on with what is no token. -/
  | invalid
  deriving DecidableEq, Repr

def Numeral.ofNat (n : Nat) : Numeral :=
  ⟨false, Nat.toDigits 10 n, none, none⟩

def Token.nat (n : Nat) : Token := .number (.ofNat n)

def Token.text (text : String) : Token := .string (some text.toList)

def isBlank (c : Char) : Bool :=
  c == ' ' || c == '\t' || c == '\n' || c == '\r'

end TermSearch.Json
