import TermSearch.Json.Token
import TermSearch.Text.Hex

namespace TermSearch.Json

/-! Writing tokens as text. The tokens alone fix the text but for the blanks
between them; a layout chooses these. -/

/-- Quotes, backslashes and controls are escaped, and nothing else. -/
def escapeChar (c : Char) : List Char :=
  if c = '"' then ['\\', '"']
  else if c = '\\' then ['\\', '\\']
  else if c = '\x08' then ['\\', 'b']
  else if c = '\t' then ['\\', 't']
  else if c = '\n' then ['\\', 'n']
  else if c = '\x0c' then ['\\', 'f']
  else if c = '\r' then ['\\', 'r']
  else if c.toNat < 0x20 then '\\' :: 'u' :: '0' :: '0' :: Text.hexPair c.toNat
  else [c]

def Bracket.opened : Bracket → Char
  | .square => '['
  | .curly => '\x7b'

def Bracket.closed : Bracket → Char
  | .square => ']'
  | .curly => '\x7d'

def Numeral.spelled (numeral : Numeral) : List Char :=
  (if numeral.negative then ['-'] else []) ++ numeral.whole ++
    numeral.fraction.elim [] ('.' :: ·) ++
    numeral.exponent.elim [] fun exponent =>
      'e' :: (if exponent.1 then ['-'] else []) ++ exponent.2

/-- A string that has no text and what is no token have no spelling. -/
def Token.spelled : Token → List Char
  | .opening bracket => [bracket.opened]
  | .closing bracket => [bracket.closed]
  | .comma => [',']
  | .colon => [':']
  | .null => ['n', 'u', 'l', 'l']
  | .bool true => ['t', 'r', 'u', 'e']
  | .bool false => ['f', 'a', 'l', 's', 'e']
  | .number numeral => numeral.spelled
  | .string (some text) => '"' :: text.flatMap escapeChar ++ ['"']
  | .string none => []
  | .invalid => []

def array (items : List (List Token)) : List Token :=
  .opening .square :: [Token.comma].intercalate items ++ [.closing .square]

def object (members : List (String × List Token)) : List Token :=
  .opening .curly ::
    [Token.comma].intercalate (members.map fun member =>
      .text member.1 :: .colon :: member.2) ++ [.closing .curly]

theorem intercalate_comma_cons (first : List Token) (more : List (List Token)) :
    [Token.comma].intercalate (first :: more) =
      first ++ more.flatMap (Token.comma :: ·) := by
  induction more generalizing first with
  | nil => simp
  | cons next more ih =>
      rw [List.intercalate_cons_cons, ih, List.flatMap_cons, List.append_assoc]
      rfl

theorem intercalate_comma_induction {form : List Token → Prop}
    (hnil : form [])
    (hcomma : ∀ left right, form left →
      form right → form (left ++ .comma :: right))
    {items : List (List Token)} (h : ∀ item ∈ items, form item) :
    form ([Token.comma].intercalate items) := by
  induction items with
  | nil => exact hnil
  | cons item items ih =>
      obtain ⟨hitem, hitems⟩ := List.forall_mem_cons.mp h
      cases items with
      | nil => rwa [List.intercalate_singleton]
      | cons next items =>
          rw [List.intercalate_cons_cons, List.append_assoc]
          exact hcomma _ _ hitem (ih hitems)

def newLine (depth : Nat) : List Char :=
  '\n' :: List.replicate (2 * depth) ' '

/-- The blanks between two tokens when each item has a line of its own. The
depth counts the brackets that are open after the first token. Empty brackets
stay closed up. -/
def indentedGap (depth : Nat) : Token → Token → List Char
  | .opening _, .closing _ => []
  | .opening _, _ => newLine depth
  | .comma, _ => newLine depth
  | .colon, _ => [' ']
  | _, .closing _ => newLine (depth - 1)
  | _, _ => []

def Token.depthAfter (depth : Nat) : Token → Nat
  | .opening _ => depth + 1
  | .closing _ => depth - 1
  | _ => depth

/-- The tokens with the blanks that a layout puts between them. -/
def spread (gap : Nat → Token → Token → List Char) :
    Nat → List Token → List Char
  | _, [] => []
  | _, [token] => token.spelled
  | depth, token :: next :: rest =>
      token.spelled ++ gap (token.depthAfter depth) token next ++
        spread gap (token.depthAfter depth) (next :: rest)

def compact (tokens : List Token) : String :=
  String.ofList (tokens.flatMap Token.spelled)

def indented (tokens : List Token) : String :=
  String.ofList (spread indentedGap 0 tokens)

theorem spread_no_gap (depth : Nat) (tokens : List Token) :
    spread (fun _ _ _ => []) depth tokens = tokens.flatMap Token.spelled := by
  induction tokens generalizing depth with
  | nil => rfl
  | cons token rest ih =>
      cases rest with
      | nil => simp [spread]
      | cons next rest => simp [spread, ih]

end TermSearch.Json
