import TermSearch.Decimal.Shortest
import TermSearch.Json.Token

namespace TermSearch.Json

/-! The value of a JSON number. Integers of 64 bits are exact; every other
number is rounded: as many of its digits as fit 64 bits, scaled by a power of
ten. -/

inductive Number where
  | natural (value : UInt64)
  | negative (magnitude : Nat)
  | float (value : Float)

def digitValue (c : Char) : Nat := c.toNat - '0'.toNat

def withDigit? (value : Nat) (digit : Char) : Option Nat :=
  let longer := 10 * value + digitValue digit
  if longer < UInt64.size then some longer else none

/-- Takes digits as long as they fit 64 bits, and gives those that it did not
take. -/
def absorb (value : Nat) : List Char → Nat × List Char
  | [] => (value, [])
  | digit :: digits =>
      match withDigit? value digit with
      | some longer => absorb longer digits
      | none => (value, digit :: digits)

def tenToThe (n : Nat) : Float := Float.ofScientific 1 false n

/-- Divides by a power of ten, in steps that a 64 bit number can hold. -/
def scaleDown (x : Float) (tens : Nat) : Float :=
  if tens ≤ 308 then
    x / tenToThe tens
  else if x == 0.0 then
    x
  else
    scaleDown (x / tenToThe 308) (tens - 308)
termination_by tens

def scale? (digits : Nat) (tens : Int) : Option Float :=
  let x := digits.toUInt64.toFloat
  if tens < 0 then
    some (scaleDown x (-tens).toNat)
  else if tens ≤ 308 then
    let scaled := x * tenToThe tens.toNat
    if scaled.isInf then none else some scaled
  else if digits = 0 then
    some x
  else
    none

def signed (negative : Bool) (x : Float) : Float := if negative then -x else x

/-- Exponents beyond 31 bits are not computed: they make every number too large,
or zero. -/
def exponentLimit : Nat := 0x7FFFFFFF

namespace Numeral

def isInteger (numeral : Numeral) : Bool :=
  numeral.fraction.isNone && numeral.exponent.isNone

def float? (numeral : Numeral) : Option Float :=
  let (whole, dropped) := absorb 0 numeral.whole
  let fraction := numeral.fraction.getD []
  let (digits, unused) := absorb whole fraction
  let tens : Int := dropped.length - (fraction.length - unused.length : Nat)
  let magnitude :=
    match numeral.exponent with
    | none => scale? digits tens
    | some (down, exponent) =>
        let power := exponent.foldl (fun n digit => 10 * n + digitValue digit) 0
        if exponentLimit < power then
          if digits = 0 ∨ down then some 0.0 else none
        else
          scale? digits (if down then tens - power else tens + power)
  magnitude.map (signed numeral.negative)

def value? (numeral : Numeral) : Option Number :=
  match numeral.isInteger, absorb 0 numeral.whole with
  | true, (n, []) =>
      if !numeral.negative then some (.natural n.toUInt64)
      else if 0 < n ∧ n ≤ 0x8000000000000000 then some (.negative n)
      else numeral.float?.map .float
  | _, _ => numeral.float?.map .float

end Numeral

end TermSearch.Json
