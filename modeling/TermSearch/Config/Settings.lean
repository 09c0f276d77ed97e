import TermSearch.Toml.Decode
import TermSearch.Toml.Document

namespace TermSearch

/-! The settings that one file makes. Every setting may be left out. The tables
of a settings file may also be written as arrays that give their values by
position. -/

open Schema (Mismatch)

structure QuerySettings where
  defaultFields : Option (List String)
  deriving DecidableEq, Repr

structure PageSettings where
  offset : Option UInt64
  size : Option UInt64
  deriving DecidableEq, Repr

structure Settings where
  /-- No file further up counts. -/
  root : Option Bool
  query : Option QuerySettings
  page : Option PageSettings
  deriving DecidableEq, Repr

inductive SettingsError where
  | malformed
  | mismatch (mismatch : Mismatch)
  deriving DecidableEq, Repr

namespace QuerySettings

def names : List String := ["default_fields"]

def empty : QuerySettings := ⟨none⟩

def add (_ : QuerySettings) (entry : String × Toml.Value) :
    Except Mismatch QuerySettings :=
  match entry.1 with
  | "default_fields" => do pure ⟨some (← entry.2.toOneOrMany)⟩
  | name => .error (.unknownField name names)

def decode (value : Toml.Value) : Except Mismatch QuerySettings := do
  (← value.toEntries names "struct RawQuerySettings").foldlM add empty

end QuerySettings

namespace PageSettings

def names : List String := ["from", "size"]

def empty : PageSettings := ⟨none, none⟩

def add (settings : PageSettings) (entry : String × Toml.Value) :
    Except Mismatch PageSettings :=
  match entry.1 with
  | "from" => do pure { settings with offset := some (← entry.2.toNatural) }
  | "size" => do pure { settings with size := some (← entry.2.toNatural) }
  | name => .error (.unknownField name names)

def decode (value : Toml.Value) : Except Mismatch PageSettings := do
  (← value.toEntries names "struct RawPageSettings").foldlM add empty

end PageSettings

namespace Settings

def names : List String := ["root", "query", "page"]

def empty : Settings := ⟨none, none, none⟩

def isRoot (settings : Settings) : Bool := settings.root == some true

def add (settings : Settings) (entry : String × Toml.Value) :
    Except Mismatch Settings :=
  match entry.1 with
  | "root" => do pure { settings with root := some (← entry.2.toBool) }
  | "query" =>
      do pure { settings with query := some (← QuerySettings.decode entry.2) }
  | "page" =>
      do pure { settings with page := some (← PageSettings.decode entry.2) }
  | name => .error (.unknownField name names)

def read (text : String) : Except SettingsError Settings :=
  match Toml.read? text with
  | none => .error .malformed
  | some table => (table.foldlM add empty).mapError .mismatch

end Settings

end TermSearch
