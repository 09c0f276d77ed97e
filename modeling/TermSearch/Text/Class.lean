namespace TermSearch

/-! Character classes of the query language. All three are ASCII by design: a
space from outside ASCII, such as the ideographic one, is part of a term. -/

/-- Space, tab, line feed, vertical tab, form feed and carriage return. -/
def isSpace (c : Char) : Bool :=
  c == ' ' || c == '\t' || c == '\n' || c == '\x0b' || c == '\x0c' || c == '\r'

def isIdentifierChar (c : Char) : Bool :=
  c.isAlphanum || c == '_' || c == '.'

def isTermChar (c : Char) : Bool :=
  !isSpace c && c != ':'

def isIdentifier (name : String) : Bool :=
  !name.isEmpty && name.toList.all isIdentifierChar

theorem isSpace_iff (c : Char) :
    isSpace c = true ↔
      c = ' ' ∨ c = '\t' ∨ c = '\n' ∨ c = '\x0b' ∨ c = '\x0c' ∨ c = '\r' := by
  simp [isSpace, or_assoc]

@[simp] theorem isTermChar_eq_false_of_isSpace {c : Char}
    (h : isSpace c = true) : isTermChar c = false := by
  simp [isTermChar, h]

theorem isTermChar_iff (c : Char) :
    isTermChar c = true ↔ isSpace c = false ∧ c ≠ ':' := by
  simp [isTermChar]

theorem isTermChar_of_isIdentifierChar {c : Char}
    (h : isIdentifierChar c = true) : isTermChar c = true := by
  refine (isTermChar_iff c).mpr ⟨?_, ?_⟩
  · rw [Bool.eq_false_iff]
    intro hspace
    rcases (isSpace_iff c).mp hspace with rfl | rfl | rfl | rfl | rfl | rfl <;>
      exact absurd h (by decide)
  · rintro rfl
    exact absurd h (by decide)

theorem isIdentifierChar_eq_false_of_isSpace {c : Char} (h : isSpace c = true) :
    isIdentifierChar c = false := by
  rw [Bool.eq_false_iff]
  intro hname
  have hterm := isTermChar_of_isIdentifierChar hname
  rw [isTermChar_eq_false_of_isSpace h] at hterm
  cases hterm

end TermSearch
