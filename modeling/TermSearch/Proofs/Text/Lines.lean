import TermSearch.Text.Lines

namespace TermSearch.Text

/-! Lines that hold no line end themselves are found again in the text that they
make. -/

def IsOneLine (text : List Char) : Prop :=
  '\n' ∉ text ∧ '\r' ∉ text

theorem isOneLine_nil : IsOneLine [] := by simp [IsOneLine]

@[simp] theorem isOneLine_append {left right : List Char} :
    IsOneLine (left ++ right) ↔ IsOneLine left ∧ IsOneLine right := by
  simp only [IsOneLine, List.mem_append, not_or]
  exact and_and_and_comm

theorem isOneLine_cons {c : Char} {text : List Char} :
    IsOneLine (c :: text) ↔ (c ≠ '\n' ∧ c ≠ '\r') ∧ IsOneLine text := by
  simp only [IsOneLine, List.mem_cons, not_or, ne_comm (a := c)]
  exact and_and_and_comm

theorem isOneLine_flatMap {write : α → List Char} {values : List α}
    (h : ∀ value ∈ values, IsOneLine (write value)) :
    IsOneLine (values.flatMap write) := by
  induction values with
  | nil => exact isOneLine_nil
  | cons value values ih =>
      obtain ⟨hvalue, hvalues⟩ := List.forall_mem_cons.mp h
      rw [List.flatMap_cons, isOneLine_append]
      exact ⟨hvalue, ih hvalues⟩

theorem splitLines_append {line : List Char} (h : IsOneLine line)
    (rest : List Char) :
    splitLines (line ++ '\n' :: rest) = line :: splitLines rest := by
  induction line with
  | nil => rfl
  | cons c line ih =>
      obtain ⟨⟨hfeed, hreturn⟩, hline⟩ := isOneLine_cons.mp h
      rw [List.cons_append, splitLines, ih hline]
      · exact hfeed
      · exact fun _ hc => absurd hc hreturn

theorem lines_unlines {texts : List String}
    (h : ∀ text ∈ texts, IsOneLine text.toList) :
    lines (unlines texts) = texts := by
  induction texts with
  | nil => rfl
  | cons text texts ih =>
      obtain ⟨htext, htexts⟩ := List.forall_mem_cons.mp h
      have hmore := ih htexts
      rw [lines] at hmore ⊢
      rw [toList_unlines_cons, splitLines_append htext, List.map_cons, hmore,
        String.ofList_toList]

theorem toList_indented (level : Nat) (line : String) :
    (indented level line).toList =
      List.replicate (2 * level) ' ' ++ line.toList := by
  rw [indented, String.toList_append, String.toList_ofList]

theorem isOneLine_indented {line : String} (h : IsOneLine line.toList)
    (level : Nat) : IsOneLine (indented level line).toList := by
  rw [toList_indented, isOneLine_append]
  refine ⟨?_, h⟩
  simp [IsOneLine, List.mem_replicate]

theorem indented_indented (level more : Nat) (line : String) :
    indented more (indented level line) = indented (level + more) line := by
  apply String.toList_inj.mp
  rw [toList_indented, toList_indented, toList_indented, ← List.append_assoc,
    List.replicate_append_replicate, ← Nat.mul_add, Nat.add_comm more level]

theorem indented_inj {level other : Nat} {line another : String}
    (hline : ∀ c ∈ line.toList.head?, c ≠ ' ')
    (hanother : ∀ c ∈ another.toList.head?, c ≠ ' ')
    (h : indented level line = indented other another) :
    level = other ∧ line = another := by
  have hlist := congrArg String.toList h
  rw [toList_indented, toList_indented] at hlist
  have hstart {n : Nat} {text : List Char} (htext : ∀ c ∈ text.head?, c ≠ ' ') :
      (List.replicate n ' ' ++ text).takeWhile (· == ' ') =
        List.replicate n ' ' := by
    rw [List.takeWhile_append_of_pos (by simp [List.mem_replicate])]
    cases text with
    | nil => simp
    | cons c text => simp [htext c rfl]
  have hspaces := congrArg (List.length ∘ List.takeWhile (· == ' ')) hlist
  simp only [Function.comp_apply, hstart hline, hstart hanother,
    List.length_replicate] at hspaces
  have hlevel : level = other := by omega
  subst hlevel
  exact ⟨rfl, String.toList_inj.mp (List.append_cancel_left hlist)⟩

end TermSearch.Text
