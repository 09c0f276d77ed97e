import TermSearch.Proofs.Toml.Values

namespace TermSearch.Toml

open Scan

/-! A text that is written one statement on a line is read as these
statements. -/

structure IsBare (name : String) : Prop where
  ne_nil : name.toList ≠ []
  chars : ∀ c ∈ name.toList, isBareKeyChar c = true

namespace IsBare

variable {name : String}

theorem exists_toList_eq_cons (h : IsBare name) :
    ∃ first more, name.toList = first :: more ∧ isBareKeyChar first = true := by
  obtain ⟨first, more, hname⟩ := List.exists_cons_of_ne_nil h.ne_nil
  exact ⟨first, more, hname, h.chars first (hname ▸ List.mem_cons_self)⟩

theorem keyPart_eq (h : IsBare name) {next : Char}
    (hnext : isBareKeyChar next = false) (rest : List Char) :
    keyPart (name.toList ++ next :: rest) = some (name, next :: rest) := by
  have htake :
      (name.toList ++ next :: rest).takeWhile isBareKeyChar = name.toList := by
    rw [List.takeWhile_append_of_pos h.chars]
    simp [hnext]
  have hdrop :
      (name.toList ++ next :: rest).dropWhile isBareKeyChar = next :: rest := by
    rw [List.dropWhile_append_of_pos h.chars]
    simp [hnext]
  obtain ⟨first, more, hname, hfirst⟩ := h.exists_toList_eq_cons
  unfold keyPart
  split
  · rename_i heq
    rw [hname] at heq
    cases heq
    contradiction
  · rename_i heq
    rw [hname] at heq
    cases heq
    contradiction
  · rw [htake, hdrop, if_neg h.ne_nil, String.ofList_toList]

theorem key_eq (h : IsBare name) {next : Char}
    (hnext : isBareKeyChar next = false) {rest : List Char}
    (hdot : (do blanks; char '.'; blanks : Scan Unit) (next :: rest) = none) :
    key (name.toList ++ next :: rest) = some ([name], next :: rest) := by
  have hpart := h.keyPart_eq hnext rest
  have hmore :
      furtherItems (do blanks; char '.'; blanks) keyPart (next :: rest) =
        some ([], next :: rest) := by
    rw [furtherItems, hdot]
  have hparts : separated (do blanks; char '.'; blanks) keyPart
        (name.toList ++ next :: rest) =
      some ([name], next :: rest) :=
    (bind_of_eq_some hpart).trans ((bind_of_eq_some hmore).trans rfl)
  exact (bind_of_eq_some hparts).trans rfl

end IsBare

theorem blanks_cons {first : Char} (h : isBlank first = false)
    (rest : List Char) : blanks (first :: rest) = some ((), first :: rest) := by
  rw [blanks, List.dropWhile_cons_of_neg (by simp [h])]

theorem afterTrivia_cons {first : Char} (h : isBareKeyChar first = true)
    (rest : List Char) : afterTrivia false (first :: rest) = first :: rest := by
  rw [afterTrivia, if_neg (by rw [isBlank_eq_false_of_isBareKeyChar h]; decide)]
  · rintro rfl
    contradiction
  · rintro _ rfl
    contradiction
  · rintro rfl
    contradiction

/-! Statements. -/

theorem statement_of_header {first : Char} (hfirst : first ≠ '[')
    (rest : List Char) :
    statement ('[' :: first :: rest) =
      (do
        set (first :: rest)
        blanks
        let path ← key
        blanks
        char ']'
        pure (.table path) : Scan Statement) ('[' :: first :: rest) := by
  -- the text is both what is matched and what is read, and only the first of
  -- these is split
  rw [statement, get_bind]
  refine congrFun ?_ ('[' :: first :: rest)
  split
  · rename_i heq
    cases heq
    contradiction
  · rename_i heq
    cases heq
    rfl
  · rename_i hnone
    exact absurd rfl (hnone _)

theorem statement_of_assignment {first : Char} (hfirst : first ≠ '[')
    (rest : List Char) :
    statement (first :: rest) =
      (do
        let (path, value) ← assignment blanks (value depthLimit)
        pure (.assignment path value) : Scan Statement) (first :: rest) := by
  rw [statement, get_bind]
  refine congrFun ?_ (first :: rest)
  split
  · rename_i heq
    cases heq
    contradiction
  · rename_i heq
    cases heq
    contradiction
  · rfl

section

variable {name : String}

theorem statement_table (h : IsBare name) (rest : List Char) :
    statement ('[' :: (name.toList ++ ']' :: rest)) =
      some (.table [name], rest) := by
  have hkey : key (name.toList ++ ']' :: rest) = some ([name], ']' :: rest) :=
    h.key_eq (by decide) rfl
  obtain ⟨first, more, hname, hfirst⟩ := h.exists_toList_eq_cons
  have hbracket : first ≠ '[' := by
    rintro rfl
    contradiction
  have hset : (set (first :: (more ++ ']' :: rest)) : Scan PUnit)
        ('[' :: first :: (more ++ ']' :: rest)) =
      some ((), first :: (more ++ ']' :: rest)) := rfl
  have hblanks :=
    blanks_cons (isBlank_eq_false_of_isBareKeyChar hfirst) (more ++ ']' :: rest)
  rw [hname, List.cons_append] at hkey ⊢
  rw [statement_of_header hbracket, bind_of_eq_some hset,
    bind_of_eq_some hblanks, bind_of_eq_some hkey]
  rfl

theorem statement_assignment (h : IsBare name) {first : Char}
    (hfirst : isBlank first = false) {written rest : List Char}
    {found : Value}
    (hvalue : value depthLimit (first :: written) = some (found, rest)) :
    statement (name.toList ++ ' ' :: '=' :: ' ' :: first :: written) =
      some (.assignment [name] found, rest) := by
  have hkey : key (name.toList ++ ' ' :: '=' :: ' ' :: first :: written) =
      some ([name], ' ' :: '=' :: ' ' :: first :: written) :=
    h.key_eq (by decide) rfl
  have hgap : blanks (' ' :: '=' :: ' ' :: first :: written) =
      some ((), '=' :: ' ' :: first :: written) := rfl
  have hsign : char '=' ('=' :: ' ' :: first :: written) =
      some ((), ' ' :: first :: written) := rfl
  have hspace :
      blanks (' ' :: first :: written) = some ((), first :: written) :=
    blanks_cons hfirst written
  have hassignment : assignment blanks (value depthLimit)
        (name.toList ++ ' ' :: '=' :: ' ' :: first :: written) =
      some (([name], found), rest) := by
    refine (bind_of_eq_some hkey).trans ?_
    refine (bind_of_eq_some hgap).trans ?_
    refine (bind_of_eq_some hsign).trans ?_
    refine (bind_of_eq_some hspace).trans ?_
    exact (bind_of_eq_some hvalue).trans rfl
  obtain ⟨letter, more, hname, hletter⟩ := h.exists_toList_eq_cons
  have hbracket : letter ≠ '[' := by
    rintro rfl
    contradiction
  rw [hname, List.cons_append] at hassignment ⊢
  rw [statement_of_assignment hbracket, bind_of_eq_some hassignment]
  rfl

/-! Lines. -/

/-- A statement that ends with its line is the first one of a text that starts
with it. -/
theorem statements_of_statement {text start after : List Char}
    {found : Statement} (hstart : afterTrivia false text = start)
    (hne : start ≠ []) (hread : statement start = some (found, '\n' :: after))
    (hlength : after.length < text.length) :
    statements text = (statements after).map (found :: ·) := by
  obtain ⟨first, more, rfl⟩ := List.exists_cons_of_ne_nil hne
  have hend : lineRest ('\n' :: after) = some ((), after) := rfl
  have hboth : (do let s ← statement; lineRest; pure s : Scan Statement)
        (first :: more) =
      some (found, after) :=
    (bind_of_eq_some hread).trans ((bind_of_eq_some hend).trans rfl)
  rw [statements, hstart]
  simp only [hboth, if_pos hlength]

theorem statements_nil : statements [] = some [] := by
  rw [statements]
  rfl

def tableLine (name : String) : List Char :=
  '[' :: (name.toList ++ [']', '\n'])

def assignmentLine (name : String) (written : List Char) : List Char :=
  name.toList ++ ' ' :: '=' :: ' ' :: (written ++ ['\n'])

theorem statements_gap_table (h : IsBare name) {gap : List Char}
    (hgap : ∀ rest, afterTrivia false (gap ++ '[' :: rest) = '[' :: rest)
    (after : List Char) :
    statements (gap ++ (tableLine name ++ after)) =
      (statements after).map (.table [name] :: ·) := by
  have hline : tableLine name ++ after =
      '[' :: (name.toList ++ ']' :: '\n' :: after) := by
    simp [tableLine]
  rw [hline]
  refine statements_of_statement (hgap _) nofun
    (statement_table h ('\n' :: after)) ?_
  simp only [List.length_append, List.length_cons]
  omega

theorem statements_table (h : IsBare name) (after : List Char) :
    statements (tableLine name ++ after) =
      (statements after).map (.table [name] :: ·) := by
  have hgap (rest : List Char) :
      afterTrivia false ([] ++ '[' :: rest) = '[' :: rest := rfl
  exact statements_gap_table h hgap after

theorem statements_newline_table (h : IsBare name) (after : List Char) :
    statements ('\n' :: (tableLine name ++ after)) =
      (statements after).map (.table [name] :: ·) := by
  have hgap (rest : List Char) :
      afterTrivia false (['\n'] ++ '[' :: rest) = '[' :: rest := rfl
  exact statements_gap_table h hgap after

theorem statements_assignment (h : IsBare name) {written after : List Char}
    (hstarts : StartsValue written) {found : Value}
    (hvalue : value depthLimit (written ++ '\n' :: after) =
      some (found, '\n' :: after)) :
    statements (assignmentLine name written ++ after) =
      (statements after).map (.assignment [name] found :: ·) := by
  obtain ⟨first, more, rfl, hfirst⟩ := hstarts
  obtain ⟨letter, letters, hname, hletter⟩ := h.exists_toList_eq_cons
  have hline : assignmentLine name (first :: more) ++ after =
      name.toList ++ ' ' :: '=' :: ' ' :: first :: (more ++ '\n' :: after) := by
    simp [assignmentLine]
  rw [hline]
  refine statements_of_statement ?_
    (by simp) (statement_assignment h hfirst hvalue) ?_
  · rw [hname]
    exact afterTrivia_cons hletter _
  · simp only [List.length_append, List.length_cons]
    omega

end

end TermSearch.Toml
