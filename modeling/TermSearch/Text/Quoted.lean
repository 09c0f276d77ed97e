import TermSearch.Text.Visible

namespace TermSearch.Text

/-! Quoted text. A quoted string or character can be read back unambiguously:
the enclosing quote and the backslash are escaped, and so is everything that
would not be visible. -/

def codePointEscape (c : Char) : List Char :=
  '\\' :: 'u' :: '\x7b' :: Nat.toDigits 16 c.toNat ++ ['\x7d']

def escapeChar (quote c : Char) : List Char :=
  if c = '\x00' then ['\\', '0']
  else if c = '\t' then ['\\', 't']
  else if c = '\r' then ['\\', 'r']
  else if c = '\n' then ['\\', 'n']
  else if c = '\\' then ['\\', '\\']
  else if c = quote then ['\\', quote]
  else if isVisible c then [c]
  else codePointEscape c

def enclose (quote : Char) (text : List Char) : List Char :=
  quote :: text.flatMap (escapeChar quote) ++ [quote]

def quoted (text : String) : String :=
  String.ofList (enclose '"' text.toList)

def quotedChar (c : Char) : String :=
  String.ofList (enclose '\'' [c])

def quotedList (texts : List String) : String :=
  "[" ++ ", ".intercalate (texts.map quoted) ++ "]"

@[simp] theorem toList_quoted (text : String) :
    (quoted text).toList = enclose '"' text.toList := by
  simp [quoted]

end TermSearch.Text
