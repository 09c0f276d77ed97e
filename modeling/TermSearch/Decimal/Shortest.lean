namespace TermSearch.Decimal

/-! The shortest decimal notation of a binary number of 64 bits: the fewest
digits that are nearer to the number than to any of its neighbours, and of
several such the nearest. All arithmetic is on natural numbers and exact. -/

/-- Which of two decimals with as many digits stands for a number right between
them. -/
inductive Tie where
  | upper
  | even
  deriving DecidableEq, Repr

def Tie.choose (tie : Tie) (low : Nat) : Nat :=
  match tie with
  | .upper => low + 1
  | .even => if low % 2 = 0 then low else low + 1

/-- A non-negative number `mantissa * 2 ^ exponent` with the reals that round to
it. Below a power of two its neighbour is only half as far away as above. -/
structure Dyadic where
  mantissa : Nat
  exponent : Int
  narrowBelow : Bool

def Dyadic.ofBits (bits : UInt64) : Dyadic :=
  let stored := ((bits >>> 52) &&& 0x7FF).toNat
  let fraction := (bits &&& 0xFFFFFFFFFFFFF).toNat
  if stored = 0 then
    ⟨fraction, -1074, false⟩
  else
    ⟨0x10000000000000 + fraction, stored - 1075, fraction == 0 && 1 < stored⟩

/-- Compares `digits * 10 ^ tens` with `count * 2 ^ twos`. -/
def order (digits : Nat) (tens : Int) (count : Nat) (twos : Int) : Ordering :=
  compare (digits * Nat.pow 10 tens.toNat * Nat.pow 2 (-twos).toNat)
    (count * Nat.pow 2 twos.toNat * Nat.pow 10 (-tens).toNat)

/-- The decimal `digits * 10 ^ tens` is among the reals that round to the
number. The ends of that interval belong to it when the mantissa is even. -/
def Dyadic.covers (x : Dyadic) (digits : Nat) (tens : Int) : Bool :=
  let low := order digits tens
    (4 * x.mantissa - if x.narrowBelow then 1 else 2) (x.exponent - 2)
  let high := order digits tens (4 * x.mantissa + 2) (x.exponent - 2)
  let closed := x.mantissa % 2 == 0
  (low == .gt || (closed && low == .eq)) &&
    (high == .lt || (closed && high == .eq))

def Dyadic.scale (x : Dyadic) : Int :=
  let least := ((x.mantissa.log2 + x.exponent) * 30103) / 100000
  let above (k : Int) : Bool := order 1 k x.mantissa x.exponent == .gt
  if above least then least
  else if above (least + 1) then least + 1
  else least + 2

def Dyadic.multiples (x : Dyadic) (tens : Int) : Nat :=
  (x.mantissa * Nat.pow 2 x.exponent.toNat * Nat.pow 10 (-tens).toNat) /
    (Nat.pow 2 (-x.exponent).toNat * Nat.pow 10 tens.toNat)

def Dyadic.withDigits? (tie : Tie) (x : Dyadic) (count : Nat) :
    Option (Nat × Int) :=
  let tens := x.scale - count
  let low := x.multiples tens
  match x.covers low tens, x.covers (low + 1) tens with
  | true, true =>
      match order (2 * low + 1) tens x.mantissa (x.exponent + 1) with
      | .gt => some (low, tens)
      | .eq => some (tie.choose low, tens)
      | .lt => some (low + 1, tens)
  | true, false => some (low, tens)
  | false, true => some (low + 1, tens)
  | false, false => none

/-- Seventeen digits always suffice. -/
def Dyadic.shortest (tie : Tie) (x : Dyadic) : Nat × Int :=
  ((List.range 17).findSome? fun i => x.withDigits? tie (i + 1)).getD
    (x.multiples (x.scale - 17), x.scale - 17)

def stripZeros (digits : List Char) : List Char :=
  (digits.reverse.dropWhile (· == '0')).reverse

/-- `digits * 10 ^ tens` without an exponent and with at least one place after
the point. -/
def positional (digits : List Char) (tens : Int) : List Char :=
  let kept := stripZeros digits
  let whole := digits.length + tens
  if whole ≤ 0 then
    ['0', '.'] ++ List.replicate (-whole).toNat '0' ++ kept
  else
    let padded := kept ++ List.replicate (whole.toNat - kept.length) '0'
    let places := padded.drop whole.toNat
    padded.take whole.toNat ++ '.' :: (if places = [] then ['0'] else places)

def signedPower (power : Int) : List Char :=
  (if power < 0 then '-' else '+') :: Nat.toDigits 10 power.natAbs

/-- `digits * 10 ^ tens` with one digit before the point, and a power of ten
behind an `e`. A single digit has no point. -/
def scientific (digits : List Char) (tens : Int) : List Char :=
  let power := signedPower (digits.length + tens - 1)
  match stripZeros digits with
  | [] => ['0']
  | [digit] => digit :: 'e' :: power
  | digit :: places => digit :: '.' :: places ++ 'e' :: power

structure Format where
  tie : Tie
  /-- For a number of digits before the point, whether such numbers are written
  without an exponent. Zeros behind the point count as negative. -/
  isPositional : Int → Bool

/-- A finite number in its shortest notation. What is not finite is written as a
word. -/
def Format.text (format : Format) (x : Float) : String :=
  let bits := x.toBits
  let sign := if bits >>> 63 = 1 then ['-'] else []
  if x.isNaN then "NaN"
  else if x.isInf then String.ofList (sign ++ ['i', 'n', 'f'])
  else
    let magnitude := Dyadic.ofBits (bits &&& 0x7FFFFFFFFFFFFFFF)
    if magnitude.mantissa = 0 then String.ofList (sign ++ ['0', '.', '0'])
    else
      let (value, tens) := magnitude.shortest format.tie
      let digits := Nat.toDigits 10 value
      let layout :=
        if format.isPositional (digits.length + tens) then positional
        else scientific
      String.ofList (sign ++ layout digits tens)

def positionalFormat : Format := ⟨.upper, fun _ => true⟩

/-- Positional with at most sixteen digits before the point and at most four
zeros behind it. -/
def compactFormat : Format := ⟨.even, fun whole => -5 < whole && whole ≤ 16⟩

end TermSearch.Decimal
