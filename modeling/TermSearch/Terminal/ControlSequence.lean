namespace TermSearch.Terminal

/-! Text without control sequences. A terminal takes an escape character and
some of the characters behind it as a command, for which it shows nothing. The
text that is left shows the same on a terminal and in a file. -/

/-- How far a text is in a control sequence. -/
inductive Sequence where
  | ground
  | escape
  | escapeIntermediate
  /-- After `[`, up to a letter or the like. -/
  | control
  /-- After `]`, up to the bell. -/
  | systemCommand
  /-- After `P`, which opens a string for a device. -/
  | device
  | deviceParameter
  | deviceIntermediate
  /-- A string up to its terminator. -/
  | string
  deriving DecidableEq, Repr

namespace Sequence

def isWhitespaceControl (c : Char) : Bool :=
  c == '\t' || c == '\n' || c == '\x0c' || c == '\r'

/-- A character that stays in the text there. Controls of whitespace take effect
in the middle of a short sequence. -/
def shows (sequence : Sequence) (c : Char) : Bool :=
  if isWhitespaceControl c then
    sequence == ground || sequence == escape ||
      sequence == escapeIntermediate || sequence == control
  else
    sequence == ground && 0x20 ≤ c.toNat && c.toNat != 0x7F

/-- The byte 9C ends a string, also in the middle of the encoding of a
character. The bytes after the first hold six bits each. -/
def holdsTerminator (c : Char) : Bool :=
  let code := c.toNat
  (0x80 ≤ code && code % 0x40 == 0x1C) ||
    (0x800 ≤ code && code / 0x40 % 0x40 == 0x1C) ||
    (0x10000 ≤ code && code / 0x1000 % 0x40 == 0x1C)

def between (low high : Nat) (c : Char) : Bool :=
  low ≤ c.toNat && c.toNat ≤ high

def afterEscape (c : Char) : Sequence :=
  if c = '[' then control
  else if c = ']' then systemCommand
  else if c = 'P' then device
  else if c = 'X' ∨ c = '^' ∨ c = '_' then string
  else if between 0x20 0x2F c then escapeIntermediate
  else if between 0x30 0x7E c then ground
  else escape

/-- Where a text is after a character that does not stay in it. An escape
character starts anew anywhere, and a cancelling control leaves any sequence. -/
def next (sequence : Sequence) (c : Char) : Sequence :=
  if c = '\x1b' then escape
  else if c = '\x18' ∨ c = '\x1a' then ground
  else
    match sequence with
    | ground => ground
    | escape => afterEscape c
    | escapeIntermediate =>
        if between 0x30 0x7E c then ground else escapeIntermediate
    | control => if between 0x40 0x7E c then ground else control
    | systemCommand => if c = '\x07' then ground else systemCommand
    | device =>
        if between 0x20 0x2F c then deviceIntermediate
        else if between 0x30 0x3F c then deviceParameter
        else if between 0x40 0x7E c then string
        else device
    | deviceParameter =>
        if between 0x20 0x2F c then deviceIntermediate
        else if between 0x3C 0x7E c then string
        else deviceParameter
    | deviceIntermediate =>
        if between 0x30 0x7E c then string else deviceIntermediate
    | string => if holdsTerminator c then ground else string

/-- What stays of a text. A character that stays suspends the sequence it stands
in: those behind it stay like any text up to the next control, from which on the
sequence continues. A character from outside ASCII ends it. -/
def textFrom : (suspended : Bool) → Sequence → List Char → List Char
  | _, _, [] => []
  | suspended, sequence, c :: rest =>
      if shows (if suspended then ground else sequence) c then
        c :: textFrom true (if c.toNat < 0x80 then sequence else ground) rest
      else
        textFrom false (sequence.next c) rest

end Sequence

def withoutControls (text : String) : String :=
  String.ofList (Sequence.textFrom false .ground text.toList)

end TermSearch.Terminal
