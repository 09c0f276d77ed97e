import TermSearch.Config.Template
import TermSearch.Config.Settings
import TermSearch.Proofs.Toml.Statements

namespace TermSearch

/-! A text whose lines are all empty or comments makes no settings, and lines
are of that kind once they are commented out. -/

namespace Toml

open Scan

def IsComment (line : List Char) : Prop :=
  line = [] ∨ ∃ rest, line = '#' :: rest ∧ ∀ c ∈ rest, isPlain c = true

theorem ne_of_isPlain {c other : Char} (h : isPlain c = true)
    (hother : isPlain other = false) : c ≠ other := by
  rintro rfl
  rw [h] at hother
  contradiction

theorem afterTrivia_true_append {body : List Char}
    (h : ∀ c ∈ body, isPlain c = true) (rest : List Char) :
    afterTrivia true (body ++ '\n' :: rest) = afterTrivia false rest := by
  induction body with
  | nil => rfl
  | cons c body ih =>
      obtain ⟨hc, hbody⟩ := List.forall_mem_cons.mp h
      rw [List.cons_append, afterTrivia, if_pos hc, ih hbody]
      · exact ne_of_isPlain hc (by decide)
      · exact fun _ hreturn => absurd hreturn (ne_of_isPlain hc (by decide))

theorem afterTrivia_comment {line : List Char} (h : IsComment line)
    (rest : List Char) :
    afterTrivia false (line ++ '\n' :: rest) = afterTrivia false rest := by
  obtain rfl | ⟨body, rfl, hbody⟩ := h
  · rfl
  · exact afterTrivia_true_append hbody rest

theorem statements_unlines {lines : List String}
    (h : ∀ line ∈ lines, IsComment line.toList) :
    statements (Text.unlines lines).toList = some [] := by
  have hnothing : afterTrivia false (Text.unlines lines).toList = [] := by
    induction lines with
    | nil => rfl
    | cons line lines ih =>
        obtain ⟨hline, hlines⟩ := List.forall_mem_cons.mp h
        rw [Text.toList_unlines_cons, afterTrivia_comment hline, ih hlines]
  rw [statements, hnothing]

/-- No comment starts with a byte order mark. -/
theorem withoutMark_unlines {lines : List String}
    (h : ∀ line ∈ lines, IsComment line.toList) :
    withoutMark (Text.unlines lines).toList = (Text.unlines lines).toList := by
  cases lines with
  | nil => rfl
  | cons line lines =>
      rw [Text.toList_unlines_cons]
      obtain hline | ⟨body, hline, -⟩ :=
        h line List.mem_cons_self <;> rw [hline] <;> rfl

theorem read?_unlines {lines : List String}
    (h : ∀ line ∈ lines, IsComment line.toList) :
    read? (Text.unlines lines) = some [] := by
  rw [read?, withoutMark_unlines h, statements_unlines h]
  rfl

end Toml

namespace Config.Template

theorem isComment_commentedOut {line : String}
    (h : ∀ c ∈ line.toList, Toml.isPlain c = true) :
    Toml.IsComment (commentedOut line).toList := by
  unfold commentedOut
  cases hline : line.toList with
  | nil => exact .inl hline
  | cons c rest =>
      rw [List.head?_cons]
      split
      · contradiction
      · rename_i heq
        cases heq
        rw [hline] at h ⊢
        exact .inr ⟨rest, rfl, (List.forall_mem_cons.mp h).2⟩
      · refine .inr
          ⟨' ' :: line.toList, by simp, List.forall_mem_cons.mpr ⟨by decide, h⟩⟩

theorem read_commentedOut {lines : List String}
    (h : ∀ line ∈ lines, ∀ c ∈ line.toList, Toml.isPlain c = true) :
    Settings.read (Text.unlines (lines.map commentedOut)) = .ok .empty := by
  have hcomments :
      ∀ line ∈ lines.map commentedOut, Toml.IsComment line.toList :=
    List.forall_mem_map.mpr fun line hline =>
      isComment_commentedOut (h line hline)
  rw [Settings.read, Toml.read?_unlines hcomments]
  rfl

theorem forall_mem_toList_ofList {allowed : Char → Bool} {chars : List Char}
    (h : chars.all allowed = true) :
    ∀ c ∈ (String.ofList chars).toList, allowed c = true := by
  rwa [String.toList_ofList, ← List.all_eq_true]

theorem read_localText : Settings.read localText = .ok .empty := by
  refine read_commentedOut ?_
  simp only [localLines, List.forall_mem_cons, List.not_mem_nil, false_imp_iff,
    implies_true, and_true]
  -- a literal is taken as the list of its characters, since decoding its bytes
  -- takes long
  and_intros <;> apply forall_mem_toList_ofList <;> rfl

theorem read_globalText : Settings.read globalText = .ok .empty := by
  refine read_commentedOut ?_
  simp only [globalLines, List.forall_mem_cons, List.not_mem_nil, false_imp_iff,
    implies_true, and_true]
  and_intros <;> apply forall_mem_toList_ofList <;> rfl

end Config.Template

end TermSearch
