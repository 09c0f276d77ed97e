namespace TermSearch.Text

/-! Lines and indentation. A line ends at a line feed, and a carriage return
right before that line feed belongs to the ending. The last line needs no
ending. -/

def splitLines : List Char → List (List Char)
  | [] => []
  | '\n' :: rest => [] :: splitLines rest
  | '\r' :: '\n' :: rest => [] :: splitLines rest
  | c :: rest =>
      match splitLines rest with
      | [] => [[c]]
      | line :: more => (c :: line) :: more

def lines (text : String) : List String :=
  (splitLines text.toList).map String.ofList

def unlines (lines : List String) : String :=
  String.join (lines.map (· ++ "\n"))

def indented (level : Nat) (line : String) : String :=
  String.ofList (List.replicate (2 * level) ' ') ++ line

/-- Every non-empty line two spaces further in, without an ending after the
last. -/
def indentBlock (text : String) : String :=
  "\n".intercalate
    ((lines text).map fun line => if line.isEmpty then line else "  " ++ line)

/-- Every line after the first four spaces further in, so that a block stays
recognisable as one entry. -/
def hangingIndent (text : String) : String :=
  String.ofList
    (text.toList.flatMap fun c => if c = '\n' then "\n    ".toList else [c])

/-- A list in prose: `a, b or c`. -/
def alternatives : List String → String
  | [] => ""
  | [only] => only
  | [first, last] => first ++ " or " ++ last
  | first :: second :: rest => first ++ ", " ++ alternatives (second :: rest)

theorem toList_unlines_cons (line : String) (lines : List String) :
    (unlines (line :: lines)).toList =
      line.toList ++ '\n' :: (unlines lines).toList := by
  simp [unlines]

end TermSearch.Text
