namespace TermSearch.Toml

/-! Dates and times of TOML: a date, a time of day, or a date and a time with or
without the distance from universal time. -/

def fixedDigits? (digits : List Char) : Option Nat :=
  digits.foldlM (fun value c =>
    if c.isDigit then some (10 * value + (c.toNat - '0'.toNat)) else none) 0

def isLeapYear (year : Nat) : Bool :=
  year % 4 == 0 && (year % 100 != 0 || year % 400 == 0)

def daysInMonth (year month : Nat) : Nat :=
  if month = 2 then if isLeapYear year then 29 else 28
  else if month = 4 ∨ month = 6 ∨ month = 9 ∨ month = 11 then 30
  else 31

def isDate (text : List Char) : Bool :=
  match text with
  | [a, b, c, d, '-', e, f, '-', g, h] =>
      match fixedDigits? [a, b, c, d], fixedDigits? [e, f],
        fixedDigits? [g, h] with
      | some year, some month, some day =>
          1 ≤ month && month ≤ 12 && 1 ≤ day && day ≤ daysInMonth year month
      | _, _, _ => false
  | _ => false

def isClock (a b c d : Char) : Bool :=
  match fixedDigits? [a, b], fixedDigits? [c, d] with
  | some hour, some minute => hour < 24 && minute < 60
  | _, _ => false

def isOffset (text : List Char) : Bool :=
  match text with
  | ['Z'] | ['z'] => true
  | [sign, a, b, ':', c, d] => (sign == '+' || sign == '-') && isClock a b c d
  | _ => false

/-- A time of day, with or without seconds; a minute may have a leap second.
What follows its digits is judged by `ending`. -/
def isTimeWith (ending : List Char → Bool) (text : List Char) : Bool :=
  match text with
  | a :: b :: ':' :: c :: d :: rest =>
      isClock a b c d &&
        match rest with
        | ':' :: e :: f :: rest =>
            (fixedDigits? [e, f]).any (· ≤ 60) &&
              match rest with
              | '.' :: rest =>
                  rest.head?.any Char.isDigit &&
                    ending (rest.dropWhile Char.isDigit)
              | _ => ending rest
        | _ => ending rest
  | _ => false

def isTime (text : List Char) : Bool := isTimeWith List.isEmpty text

def isMoment (text : List Char) : Bool :=
  isDate text || isTime text ||
    match text.drop 10 with
    | separator :: time =>
        isDate (text.take 10) &&
          (separator == 'T' || separator == 't' || separator == ' ') &&
          isTimeWith (fun rest => rest.isEmpty || isOffset rest) time
    | [] => false

end TermSearch.Toml
