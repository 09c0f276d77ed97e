namespace TermSearch

/-! Places in a file tree: a base directory, given by its text, and the names
that lead from there. -/

structure Path where
  base : String
  names : List String
  deriving DecidableEq, Repr

namespace Path

def ofBase (base : String) : Path := ⟨base, []⟩

def ofAbsolute (text : String) : Path :=
  ⟨"/", (text.splitOn "/").filter fun name => !name.isEmpty⟩

def child (path : Path) (name : String) : Path :=
  ⟨path.base, path.names ++ [name]⟩

/-- The base directory has no parent. -/
def parent? (path : Path) : Option Path :=
  if path.names.isEmpty then none else some ⟨path.base, path.names.dropLast⟩

/-- The path itself, then the directory that it is in, and so on up to the
base. -/
def ancestors (path : Path) : List Path :=
  (List.range (path.names.length + 1)).map fun up =>
    ⟨path.base, path.names.take (path.names.length - up)⟩

def text (path : Path) : String :=
  match path.names with
  | [] => path.base
  | names => (if path.base.endsWith "/" then path.base else path.base ++ "/") ++
      "/".intercalate names

theorem child_injective {left right : Path} {name : String}
    (h : left.child name = right.child name) : left = right := by
  simp only [child, mk.injEq, List.append_cancel_right_eq] at h
  cases left
  cases right
  simp_all

end Path

end TermSearch
