import TermSearch.Text.Hex

namespace TermSearch.Toml

/-! Writing strings of TOML. Of the five ways to write a string the plainest is
taken that holds its text as it is; a text that none of them can hold is
escaped. -/

def needsEscape (c : Char) : Bool :=
  (c.toNat < 0x20 && c != '\t' && c != '\n') || c == '\x7f'

/-- The length of the longest run of a character, counted on from a run before
the text. -/
def longestRun (wanted : Char) (run : Nat) : List Char → Nat
  | [] => run
  | c :: text =>
      if c = wanted then longestRun wanted (run + 1) text
      else max run (longestRun wanted 0 text)

inductive Style where
  | basic
  | literal
  | longBasic
  | longLiteral
  deriving DecidableEq, Repr

def style (text : List Char) : Style :=
  let escapes := text.any needsEscape
  let backslash := text.contains '\\'
  let lines := text.contains '\n'
  let double := longestRun '"' 0 text
  let single := longestRun '\'' 0 text
  if !escapes ∧ !backslash ∧ !lines ∧ double = 0 then .basic
  else if !escapes ∧ !lines ∧ single = 0 then .literal
  else if !escapes ∧ !backslash ∧ double < 3 then .longBasic
  else if !escapes ∧ single < 3 then .longLiteral
  else if lines then .longBasic
  else .basic

def upperHexPair (n : Nat) : List Char :=
  (Text.hexPair n).map Char.toUpper

def escapeChar (long : Bool) (c : Char) : List Char :=
  if c = '\x08' then ['\\', 'b']
  else if c = '\t' then ['\\', 't']
  else if c = '\n' then if long then ['\n'] else ['\\', 'n']
  else if c = '\x0c' then ['\\', 'f']
  else if c = '\r' then ['\\', 'r']
  else if c = '\\' then ['\\', '\\']
  else if needsEscape c then '\\' :: 'u' :: '0' :: '0' :: upperHexPair c.toNat
  else [c]

/-- The text between double quotes. In a long string two quotes in a row stay as
they are, and the next one is escaped. -/
def escaped (long : Bool) (quotes : Nat) : List Char → List Char
  | [] => []
  | c :: text =>
      if c = '"' then
        if long ∧ quotes < 2 then '"' :: escaped long (quotes + 1) text
        else '\\' :: '"' :: escaped long 0 text
      else
        match escapeChar long c with
        | [plain] => plain :: escaped long 0 text
        | escape => escape ++ escaped long 0 text

/-- A long string over several lines begins on a line of its own. -/
def longStart (text : List Char) : List Char :=
  if text.contains '\n' then ['\n'] else []

def quote (text : List Char) : List Char :=
  match style text with
  | .basic => '"' :: escaped false 0 text ++ ['"']
  | .literal => '\'' :: text ++ ['\'']
  | .longBasic =>
      ['"', '"', '"'] ++ longStart text ++ escaped true 0 text ++
        ['"', '"', '"']
  | .longLiteral =>
      ['\'', '\'', '\''] ++ longStart text ++ text ++ ['\'', '\'', '\'']

def quoted (text : String) : String := String.ofList (quote text.toList)

/-- An array of strings: more than one stand on a line each. -/
def quotedArray : List String → String
  | [] => "[]"
  | [only] => "[" ++ quoted only ++ "]"
  | texts =>
      "[\n" ++
        String.join (texts.map fun text => "    " ++ quoted text ++ ",\n") ++
        "]"

end TermSearch.Toml
