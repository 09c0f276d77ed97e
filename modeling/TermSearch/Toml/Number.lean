import TermSearch.Text.Hex
import TermSearch.Toml.Value

namespace TermSearch.Toml

/-! Numbers of TOML. Underscores may stand between digits, and decimal numbers
have no superfluous zeros in front. -/

def ungrouped? (isDigit : Char → Bool) : List Char → Option (List Char)
  | [] => none
  | [c] => if isDigit c then some [c] else none
  | c :: '_' :: rest =>
      if isDigit c then (ungrouped? isDigit rest).map (c :: ·) else none
  | c :: next :: rest =>
      if isDigit c then (ungrouped? isDigit (next :: rest)).map (c :: ·)
      else none

def wholeDigits? (text : List Char) : Option (List Char) := do
  let digits ← ungrouped? Char.isDigit text
  if digits.head? = some '0' ∧ digits ≠ ['0'] then none else some digits

def decimalValue (digits : List Char) : Nat :=
  digits.foldl (fun value c => 10 * value + (c.toNat - '0'.toNat)) 0

def unsigned (text : List Char) : Bool × List Char :=
  match text with
  | '-' :: rest => (true, rest)
  | '+' :: rest => (false, rest)
  | _ => (false, text)

def inBase? (base : Nat) (text : List Char) : Option Nat := do
  let isDigit (c : Char) : Bool := (Text.hexDigit? c).any (· < base)
  let digits ← ungrouped? isDigit text
  pure
    (digits.foldl (fun value c => base * value + (Text.hexDigit? c).getD 0) 0)

def bounded? (value : Int) : Option Int :=
  if -0x8000000000000000 ≤ value ∧ value < 0x10000000000000000 then some value
  else none

def integer? (text : List Char) : Option Int :=
  match text with
  | '0' :: 'x' :: rest => (inBase? 16 rest).bind fun n => bounded? n
  | '0' :: 'o' :: rest => (inBase? 8 rest).bind fun n => bounded? n
  | '0' :: 'b' :: rest => (inBase? 2 rest).bind fun n => bounded? n
  | _ => do
      let (negative, text) := unsigned text
      let n := decimalValue (← wholeDigits? text)
      bounded? (if negative then -n else n)

/-- `digits * 10 ^ tens`, rounded to the nearest number of 64 bits, unless that
is infinite. -/
def nearest? (digits : Nat) (tens : Int) : Option Float :=
  let places : Int := (Nat.toDigits 10 digits).length + tens
  if digits = 0 ∨ places < -400 then
    some 0.0
  else if 400 < places then
    none
  else
    let x := Float.ofScientific digits (decide (tens < 0)) tens.natAbs
    if x.isInf then none else some x

def exponent? (text : List Char) : Option Int :=
  match text with
  | 'e' :: rest | 'E' :: rest => do
      let (negative, rest) := unsigned rest
      let n := decimalValue (← ungrouped? Char.isDigit rest)
      pure (if negative then -n else n)
  | _ => none

def magnitude? (text : List Char) : Option Float := do
  let isPart (c : Char) : Bool := c.isDigit || c == '_'
  let whole ← wholeDigits? (text.takeWhile isPart)
  match text.dropWhile isPart with
  | '.' :: rest => do
      let fraction ← ungrouped? Char.isDigit (rest.takeWhile isPart)
      let after := rest.dropWhile isPart
      let exponent ← if after = [] then some 0 else exponent? after
      nearest? (decimalValue (whole ++ fraction)) (exponent - fraction.length)
  | rest => do nearest? (decimalValue whole) (← exponent? rest)

def float? (text : List Char) : Option Float := do
  let (negative, text) := unsigned text
  let x ←
    if text = ['i', 'n', 'f'] then some (1.0 / 0.0)
    else if text = ['n', 'a', 'n'] then some (0.0 / 0.0)
    else magnitude? text
  pure (if negative then -x else x)

end TermSearch.Toml
