import Mathlib.Data.List.DropRight
import TermSearch.Proofs.Grammar.Furthest

namespace TermSearch

/-! Where the caret of a refusal stands. It is drawn on a line of its own below
the whole input, and the characters before it are counted from the start of the
input. So it stands below the character at which reading failed if the input is
on one line, and only then. -/

namespace Text

/-! A place in a text is given by the text before it. -/

/-- The number of lines that end before a place. -/
def row (before : List Char) : Nat :=
  before.count '\n'

/-- The number of characters on its line that are before a place. -/
def column (before : List Char) : Nat :=
  (before.rtakeWhile (· != '\n')).length

/-- The lower place is on the next line, with as many characters before it on
its line. -/
def IsRightBelow (upper lower : List Char) : Prop :=
  row lower = row upper + 1 ∧ column lower = column upper

instance (upper lower : List Char) : Decidable (IsRightBelow upper lower) :=
  inferInstanceAs (Decidable (_ ∧ _))

section Places

variable (left : List Char) {right : List Char}

theorem row_append : row (left ++ right) = row left + row right :=
  List.count_append

theorem row_eq_zero_iff : row right = 0 ↔ '\n' ∉ right :=
  List.count_eq_zero

theorem column_le_length : column left ≤ left.length :=
  (List.rtakeWhile_suffix _ _).length_le

theorem column_append_of_not_mem (h : '\n' ∉ right) :
    column (left ++ right) = column left + right.length := by
  have hall : ∀ c ∈ right.reverse, (c != '\n') = true := by
    intro c hc
    rw [bne_iff_ne]
    rintro rfl
    exact h (List.mem_reverse.mp hc)
  simp only [column, List.rtakeWhile, List.length_reverse, List.reverse_append]
  rw [List.takeWhile_append_of_pos hall, List.length_append,
    List.length_reverse, Nat.add_comm]

theorem column_append_of_mem (h : '\n' ∈ right) :
    column (left ++ right) = column right := by
  have hends :
      (right.reverse.takeWhile (· != '\n')).length ≠ right.reverse.length := by
    intro hlength
    have hall := List.takeWhile_eq_self_iff.mp
      ((List.takeWhile_prefix _).eq_of_length hlength) '\n'
      (List.mem_reverse.mpr h)
    contradiction
  simp only [column, List.rtakeWhile, List.length_reverse, List.reverse_append]
  rw [List.takeWhile_append, if_neg hends]

end Places

end Text

namespace SyntaxError

variable (error : SyntaxError)

def newLine : List Char := ['\n', ' ', ' ']

theorem lineEnd_mem_newLine : '\n' ∈ newLine := by decide

theorem column_newLine : Text.column newLine = 2 := by decide

def heading : List Char :=
  "query syntax error: ".toList ++ error.message.toList ++ newLine

/-- What is printed before the character at which reading failed. -/
def shownBefore : List Char :=
  error.heading ++ error.before

/-- What is printed before the caret. -/
def drawnBefore : List Char :=
  error.heading ++ error.input.toList ++ newLine ++
    List.replicate error.column ' '

def afterCaret : List Char :=
  error.hint?.elim [] fun hint => "\nhint: ".toList ++ hint.text.toList

theorem display_eq_drawnBefore :
    error.display.toList = error.drawnBefore ++ '^' :: error.afterCaret := by
  have hhint : (error.hint?.elim "" fun hint =>
        "\nhint: " ++ hint.text).toList =
      error.afterCaret := by
    unfold afterCaret
    cases error.hint? with
    | none => exact String.toList_ofList
    | some hint => exact String.toList_append
  have hline : "\n  ".toList = newLine := String.toList_ofList
  have hcaret : "^".toList = ['^'] := String.toList_ofList
  unfold display drawnBefore heading
  simp only [String.toList_append, hhint, hline, hcaret, String.toList_ofList,
    List.append_assoc, List.cons_append, List.nil_append]

theorem row_drawnBefore :
    Text.row error.drawnBefore =
      Text.row error.heading + Text.row error.input.toList + 1 := by
  have hspaces : Text.row (List.replicate error.column ' ') = 0 := by
    simp [Text.row_eq_zero_iff, List.mem_replicate]
  rw [drawnBefore, Text.row_append, Text.row_append, Text.row_append, hspaces]
  rfl

theorem column_drawnBefore :
    Text.column error.drawnBefore = 2 + error.before.length := by
  have hspaces :
      '\n' ∉ List.replicate error.column ' ' := by simp [List.mem_replicate]
  rw [drawnBefore, Text.column_append_of_not_mem _ hspaces,
    Text.column_append_of_mem _ lineEnd_mem_newLine, column_newLine,
    List.length_replicate, column]

/-- The two spaces before the input are only on its first line. -/
theorem column_shownBefore_eq_iff :
    Text.column error.shownBefore = 2 + error.before.length ↔
      '\n' ∉ error.before := by
  rw [shownBefore]
  constructor
  · intro hcolumn hmem
    rw [Text.column_append_of_mem _ hmem] at hcolumn
    have hle := Text.column_le_length error.before
    omega
  · intro hmem
    unfold heading
    rw [Text.column_append_of_not_mem _ hmem,
      Text.column_append_of_mem _ lineEnd_mem_newLine, column_newLine]

variable {error}

theorem exists_display_eq_shownBefore
    (h : error.before ++ error.after = error.input.toList) :
    ∃ rest, error.display.toList =
      error.shownBefore ++ error.after ++ '\n' :: rest := by
  refine ⟨[' ', ' '] ++ List.replicate error.column ' ' ++ '^' ::
    error.afterCaret, ?_⟩
  rw [display_eq_drawnBefore, drawnBefore, shownBefore, newLine, ← h]
  simp only [List.append_assoc, List.cons_append, List.nil_append]

/-- The rows agree unless a line ends after the failure, and the columns unless
one ends before it. -/
theorem isRightBelow_iff
    (h : error.before ++ error.after = error.input.toList) :
    Text.IsRightBelow error.shownBefore error.drawnBefore ↔
      '\n' ∉ error.input.toList := by
  have hrows : Text.row error.drawnBefore = Text.row error.shownBefore + 1 ↔
      '\n' ∉ error.after := by
    rw [row_drawnBefore, ← h, Text.row_append, shownBefore, Text.row_append,
      ← Text.row_eq_zero_iff]
    omega
  rw [Text.IsRightBelow, hrows, column_drawnBefore, eq_comm (a := 2 + _),
    column_shownBefore_eq_iff, ← h, List.mem_append, not_or, and_comm]

end SyntaxError

theorem append_of_parse_error {input : String} {error : SyntaxError}
    (h : SyntaxTree.parse input = .error error) :
    error.input = input ∧ error.before ++ error.after = input.toList ∧
      byteSize error.before = error.position := by
  obtain ⟨hnone, rfl⟩ := Grammar.parse_eq_error_iff.mp h
  have hne := Grammar.attempts_andQueries_ne_nil hnone
  have hreports : SyntaxError.Reports ⟨_, _, input⟩
      (Grammar.andQueries (.ofText input)).attempts :=
    ⟨Furthest.exists_position_eq_ofAttempts hne,
      Furthest.position_le_ofAttempts _, Furthest.expected_ofAttempts _⟩
  obtain ⟨before, after, hsplit, hsize⟩ := hreports.isLocated.boundary
  have hcut := cutAt?_byteSize before after
  rw [hsize, ← hsplit] at hcut
  simp only [SyntaxError.before, SyntaxError.after, hcut, Option.elim_some]
  exact ⟨trivial, hsplit.symm, hsize⟩

/-- A refusal shows the input, cut where reading failed, and draws its caret
right below the character there exactly if the input is on one line. -/
theorem caret_right_below_iff {input : String} {error : SyntaxError}
    (h : SyntaxTree.parse input = .error error) :
    error.before ++ error.after = input.toList ∧
      byteSize error.before = error.position ∧
      (∃ rest, error.display.toList =
        error.shownBefore ++ error.after ++ '\n' :: rest) ∧
      error.display.toList = error.drawnBefore ++ '^' :: error.afterCaret ∧
      (Text.IsRightBelow error.shownBefore error.drawnBefore ↔
        '\n' ∉ input.toList) := by
  obtain ⟨hinput, hsplit, hsize⟩ := append_of_parse_error h
  have hwhole : error.before ++ error.after = error.input.toList :=
    hsplit.trans (by rw [hinput])
  refine ⟨hsplit, hsize, SyntaxError.exists_display_eq_shownBefore hwhole,
    error.display_eq_drawnBefore, ?_⟩
  rw [SyntaxError.isRightBelow_iff hwhole, hinput]

/-- One line, with characters of several bytes before the failure. -/
theorem caret_right_below_iff_one_line :
    ∃ error, SyntaxTree.parse "é \"日本\": b" = .error error ∧
      byteSize error.before = 11 ∧
      error.before.length = 6 ∧
      error.display.toList = error.drawnBefore ++ '^' :: error.afterCaret ∧
      Text.IsRightBelow error.shownBefore error.drawnBefore := by
  have h : SyntaxTree.parse "é \"日本\": b" =
      .error ⟨11,
        [⟨Expected.noColon,
          ["and_queries", "and_query", "and_conditions", "or_conditions",
            "condition"]⟩], "é \"日本\": b"⟩ := by
    decide +kernel
  obtain ⟨-, hsize, -, hdisplay, hbelow⟩ := caret_right_below_iff h
  exact ⟨_, h, hsize,
    by decide +kernel, hdisplay, hbelow.mpr (by decide +kernel)⟩

/-- Where the failure is on the second line of the input, no caret at all stands
below it. -/
theorem not_forall_caret_right_below :
    ¬ ∀ input error, SyntaxTree.parse input = .error error →
      ∃ before rest, error.display.toList = before ++ '^' :: rest ∧
        Text.IsRightBelow error.shownBefore before := by
  intro hcarets
  let error : SyntaxError :=
    ⟨12, [⟨Expected.noColon, ["and_queries", "and_query", "and_conditions",
      "or_conditions", "condition"]⟩], "title: a\n\"b\": c"⟩
  have h :
      SyntaxTree.parse "title: a\n\"b\": c" = .error error := by decide +kernel
  have hnone : ∀ n < error.display.toList.length,
      error.display.toList[n]? = some '^' →
      ¬ Text.IsRightBelow error.shownBefore (error.display.toList.take n) := by
    decide +kernel
  obtain ⟨before, rest, hdisplay, hbelow⟩ := hcarets _ _ h
  have hcaret :
      error.display.toList[before.length]? = some '^' := by simp [hdisplay]
  have hbefore :
      error.display.toList.take before.length = before := by simp [hdisplay]
  exact hnone before.length (List.getElem?_eq_some_iff.mp hcaret).1 hcaret
    (hbefore.symm ▸ hbelow)

end TermSearch
