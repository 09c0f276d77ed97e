import TermSearch.Files.Path

namespace TermSearch

/-! File trees: what there is at each path. -/

inductive Entry where
  | file (content : ByteArray)
  | closed
  | directory

structure FileTree where
  find? : Path → Option Entry

inductive FileFailure where
  | missing
  | notDirectory
  | isDirectory
  | denied
  | notText
  deriving DecidableEq, Repr

def FileFailure.message : FileFailure → String
  | .missing => "No such file or directory (os error 2)"
  | .notDirectory => "Not a directory (os error 20)"
  | .isDirectory => "Is a directory (os error 21)"
  | .denied => "Permission denied (os error 13)"
  | .notText => "stream did not contain valid UTF-8"

namespace FileTree

/-- The tree of the entries; of two for one path the first counts. -/
def ofEntries (entries : List (Path × Entry)) : FileTree :=
  ⟨fun path => entries.lookup path⟩

def isFile (tree : FileTree) (path : Path) : Bool :=
  match tree.find? path with
  | some (.file _) | some .closed => true
  | _ => false

def isPresent (tree : FileTree) (path : Path) : Bool :=
  (tree.find? path).isSome

/-- Why there is nothing at a path: something above it may be a file. -/
def absence (tree : FileTree) (path : Path) : FileFailure :=
  if path.ancestors.tail.any tree.isFile then .notDirectory else .missing

def read (tree : FileTree) (path : Path) : Except FileFailure String :=
  match tree.find? path with
  | none => .error (tree.absence path)
  | some .directory => .error .isDirectory
  | some .closed => .error .denied
  | some (.file content) =>
      match String.fromUTF8? content with
      | none => .error .notText
      | some text => .ok text

def put (tree : FileTree) (path : Path) (content : ByteArray) : FileTree :=
  ⟨fun other => if other = path then some (.file content) else tree.find? other⟩

/-- Why no file can be written at a path, be it new or over an old one. -/
def obstacle? (tree : FileTree) (path : Path) : Option FileFailure :=
  match tree.find? path, path.parent?.map tree.find? with
  | some .directory, _ => some .isDirectory
  | some .closed, _ => some .denied
  | some (.file _), _ | none, some (some .directory) => none
  | none, _ => some (tree.absence path)

def putAll (tree : FileTree) (files : List (Path × String)) : FileTree :=
  files.foldl (fun tree file => tree.put file.1 file.2.toUTF8) tree

@[simp] theorem find?_put_self (tree : FileTree) (path : Path)
    (content : ByteArray) :
    (tree.put path content).find? path = some (.file content) := by
  simp [put]

theorem find?_put_of_ne (tree : FileTree) {path other : Path}
    (content : ByteArray) (h : other ≠ path) :
    (tree.put path content).find? other = tree.find? other := by
  simp [put, h]

end FileTree

end TermSearch
