import TermSearch.Text.Hex

namespace TermSearch.Toml

/-! Reading the small parts of TOML text: blanks, strings and keys. A scan reads
from the start of a text and leaves the rest of it. -/

abbrev Scan (α : Type) := StateT (List Char) Option α

def isBlank (c : Char) : Bool := c == ' ' || c == '\t'

/-- Anything but controls; tab is no control here. -/
def isPlain (c : Char) : Bool :=
  c == '\t' || (0x20 ≤ c.toNat && c.toNat != 0x7F)

/-- How many brackets of arrays and inline tables may be open at once, and how
many parts a key may have. -/
def depthLimit : Nat := 80

def isBareKeyChar (c : Char) : Bool := c.isAlphanum || c == '_' || c == '-'

namespace Scan

def run (allowed : Char → Bool) : Scan (List Char) := fun text =>
  some (text.takeWhile allowed, text.dropWhile allowed)

def blanks : Scan Unit := fun text => some ((), text.dropWhile isBlank)

def char (wanted : Char) : Scan Unit := fun text =>
  match text with
  | [] => none
  | c :: rest => if c = wanted then some ((), rest) else none

def lineEnd : Scan Unit := fun text =>
  match text with
  | '\n' :: rest | '\r' :: '\n' :: rest => some ((), rest)
  | _ => none

def lineRest : Scan Unit := do
  blanks
  if (← get).head? = some '#' then
    let _ ← run isPlain
  if (← get).isEmpty then pure () else lineEnd

def afterTrivia : (inComment : Bool) → List Char → List Char
  | _, [] => []
  | _, '\n' :: rest => afterTrivia false rest
  | _, '\r' :: '\n' :: rest => afterTrivia false rest
  | true, c :: rest => if isPlain c then afterTrivia true rest else c :: rest
  | false, '#' :: rest => afterTrivia true rest
  | false, c :: rest => if isBlank c then afterTrivia false rest else c :: rest

def trivia : Scan Unit := fun text => some ((), afterTrivia false text)

def scalar? (n : Nat) : Option Char :=
  if n.isValidChar then some (Char.ofNat n) else none

def shortEscape? (c : Char) : Option Char :=
  if c = '"' ∨ c = '\\' then some c
  else if c = 'b' then some '\x08'
  else if c = 't' then some '\t'
  else if c = 'n' then some '\n'
  else if c = 'f' then some '\x0c'
  else if c = 'r' then some '\r'
  else if c = 'e' then some '\x1b'
  else none

def codePoint? (digits : List Char) : Option Char :=
  (Text.hexValue? digits).bind scalar?

def prepend (c : Char) (read : List Char × List Char) : List Char × List Char :=
  (c :: read.1, read.2)

def basicRest : List Char → Option (List Char × List Char)
  | [] => none
  | '"' :: rest => some ([], rest)
  | '\\' :: 'x' :: a :: b :: rest => do
      pure (prepend (← codePoint? [a, b]) (← basicRest rest))
  | '\\' :: 'u' :: a :: b :: c :: d :: rest => do
      pure (prepend (← codePoint? [a, b, c, d]) (← basicRest rest))
  | '\\' :: 'U' :: a :: b :: c :: d :: e :: f :: g :: h :: rest => do
      pure (prepend (← codePoint? [a, b, c, d, e, f, g, h]) (← basicRest rest))
  | '\\' :: c :: rest => do
      pure (prepend (← shortEscape? c) (← basicRest rest))
  | c :: rest =>
      if isPlain c ∧ c ≠ '\\' then (basicRest rest).map (prepend c) else none

def literalRest : List Char → Option (List Char × List Char)
  | [] => none
  | '\'' :: rest => some ([], rest)
  | c :: rest => if isPlain c then (literalRest rest).map (prepend c) else none

/-- Two quotes right before the closing three belong to the string. -/
def closingQuotes (quote : Char) (text : List Char) : List Char × List Char :=
  match text with
  | a :: b :: rest =>
      if a = quote then
        if b = quote then ([quote, quote], rest) else ([quote], b :: rest)
      else ([], text)
  | [a] => if a = quote then ([quote], []) else ([], text)
  | [] => ([], [])

def atLineEnd (text : List Char) : Bool :=
  match text.dropWhile isBlank with
  | '\n' :: _ | '\r' :: '\n' :: _ => true
  | _ => false

/-- The inside of a string between three double quotes. A backslash at the end
of a line drops all blanks and ends of lines that follow it. -/
def longBasicRest :
    (dropping : Bool) → List Char → Option (List Char × List Char)
  | _, [] => none
  | _, '"' :: '"' :: '"' :: rest => some (closingQuotes '"' rest)
  | _, '\\' :: 'x' :: a :: b :: rest => do
      pure (prepend (← codePoint? [a, b]) (← longBasicRest false rest))
  | _, '\\' :: 'u' :: a :: b :: c :: d :: rest => do
      pure (prepend (← codePoint? [a, b, c, d]) (← longBasicRest false rest))
  | _, '\\' :: 'U' :: a :: b :: c :: d :: e :: f :: g :: h :: rest => do
      pure (prepend (← codePoint? [a, b, c, d, e, f, g, h])
        (← longBasicRest false rest))
  | _, '\\' :: c :: rest =>
      if atLineEnd (c :: rest) then
        longBasicRest true (c :: rest)
      else do
        pure (prepend (← shortEscape? c) (← longBasicRest false rest))
  | dropping, '\r' :: '\n' :: rest =>
      if dropping then longBasicRest true rest
      else (longBasicRest false rest).map fun read =>
        prepend '\r' (prepend '\n' read)
  | dropping, c :: rest =>
      if dropping ∧ (isBlank c ∨ c = '\n') then longBasicRest true rest
      else if (isPlain c ∨ c = '\n') ∧ c ≠ '\\' then
        (longBasicRest false rest).map (prepend c)
      else none

def longLiteralRest : List Char → Option (List Char × List Char)
  | [] => none
  | '\'' :: '\'' :: '\'' :: rest => some (closingQuotes '\'' rest)
  | '\r' :: '\n' :: rest =>
      (longLiteralRest rest).map fun read => prepend '\r' (prepend '\n' read)
  | c :: rest =>
      if isPlain c ∨ c = '\n' then (longLiteralRest rest).map (prepend c)
      else none

/-- A long string does not start with the end of the line that its quotes are
on. -/
def afterFirstLineEnd (text : List Char) : List Char :=
  match text with
  | '\n' :: rest | '\r' :: '\n' :: rest => rest
  | _ => text

def shortString : Scan (List Char) := fun text =>
  match text with
  | '"' :: rest => basicRest rest
  | '\'' :: rest => literalRest rest
  | _ => none

def string : Scan (List Char) := fun text =>
  match text with
  | '"' :: '"' :: '"' :: rest => longBasicRest false (afterFirstLineEnd rest)
  | '\'' :: '\'' :: '\'' :: rest => longLiteralRest (afterFirstLineEnd rest)
  | _ => shortString text

def keyPart : Scan String := fun text =>
  match text with
  | '"' :: _ | '\'' :: _ =>
      (shortString text).map fun read => (String.ofList read.1, read.2)
  | _ =>
      if text.takeWhile isBareKeyChar = [] then none
      else some (String.ofList (text.takeWhile isBareKeyChar),
        text.dropWhile isBareKeyChar)

def furtherItems (separator : Scan Unit) (item : Scan α) (text : List Char) :
    Option (List α × List Char) :=
  match separator text with
  | none => some ([], text)
  | some ((), next) =>
      match item next with
      | none => none
      | some (value, rest) =>
          if rest.length < text.length then
            (furtherItems separator item rest).map fun read =>
              (value :: read.1, read.2)
          else
            none
termination_by text.length

def separated (separator : Scan Unit) (item : Scan α) : Scan (List α) := do
  let first ← item
  let more ← furtherItems separator item
  pure (first :: more)

def key : Scan (List String) := do
  let parts ← separated (do blanks; char '.'; blanks) keyPart
  if parts.length ≤ depthLimit then pure parts else failure

end Scan

end TermSearch.Toml
