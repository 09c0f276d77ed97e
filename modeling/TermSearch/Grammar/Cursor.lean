namespace TermSearch

/-! A place in a text. Positions count the bytes of the text in UTF-8, while the
text itself is read character by character. -/

/-- The length of a text in UTF-8. -/
def byteSize : List Char → Nat
  | [] => 0
  | c :: text => c.utf8Size + byteSize text

/-- The number of bytes that were read, and the characters still to read. -/
structure Cursor where
  position : Nat
  rest : List Char
  deriving DecidableEq, Repr

@[simp] theorem byteSize_nil : byteSize [] = 0 := rfl

@[simp] theorem byteSize_cons (c : Char) (text : List Char) :
    byteSize (c :: text) = c.utf8Size + byteSize text := rfl

@[simp] theorem byteSize_append (left right : List Char) :
    byteSize (left ++ right) = byteSize left + byteSize right := by
  induction left with
  | nil => simp
  | cons c left ih =>
      rw [List.cons_append, byteSize_cons, byteSize_cons, ih, Nat.add_assoc]

theorem byteSize_pos {text : List Char} (h : text ≠ []) :
    0 < byteSize text := by
  obtain ⟨c, rest, rfl⟩ := List.exists_cons_of_ne_nil h
  exact Nat.add_pos_left c.utf8Size_pos _

namespace Cursor

def ofText (text : String) : Cursor :=
  ⟨0, text.toList⟩

def run (cursor : Cursor) (allowed : Char → Bool) : List Char :=
  cursor.rest.takeWhile allowed

def afterRun (cursor : Cursor) (allowed : Char → Bool) : Cursor :=
  ⟨cursor.position + byteSize (cursor.run allowed),
    cursor.rest.dropWhile allowed⟩

/-- The place after a word that the text goes on with. -/
def after? (cursor : Cursor) (word : List Char) : Option Cursor :=
  if word.isPrefixOf cursor.rest then
    some ⟨cursor.position + byteSize word, cursor.rest.drop word.length⟩
  else
    none

theorem run_append_afterRun (cursor : Cursor) (allowed : Char → Bool) :
    cursor.run allowed ++ (cursor.afterRun allowed).rest = cursor.rest :=
  List.takeWhile_append_dropWhile

end Cursor

/-- A text cut at a byte position: what lies before and what lies after it.
There is no such cut inside a character or beyond the end. -/
def cutAt? : Nat → List Char → Option (List Char × List Char)
  | 0, text => some ([], text)
  | _ + 1, [] => none
  | position + 1, c :: text =>
      if c.utf8Size ≤ position + 1 then
        (cutAt? (position + 1 - c.utf8Size) text).map fun cut =>
          (c :: cut.1, cut.2)
      else
        none

/-- The text between two byte positions, if both are places of the input. -/
def textBetween? (input : List Char) (start stop : Nat) : Option (List Char) :=
  (cutAt? stop input).bind fun cut => (cutAt? start cut.1).map (·.2)

theorem cutAt?_byteSize (before after : List Char) :
    cutAt? (byteSize before) (before ++ after) = some (before, after) := by
  induction before with
  | nil => cases after <;> rfl
  | cons c before ih =>
      obtain ⟨n, hn⟩ : ∃ n, c.utf8Size + byteSize before = n + 1 :=
        ⟨c.utf8Size + byteSize before - 1, by have := c.utf8Size_pos; omega⟩
      have hsub : n + 1 - c.utf8Size = byteSize before := by omega
      rw [byteSize_cons, hn, List.cons_append, cutAt?,
        if_pos (by omega), hsub, ih]
      rfl

end TermSearch
