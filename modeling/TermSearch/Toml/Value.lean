namespace TermSearch.Toml

/-! Values of TOML, and tables while they are being filled. A table is a list of
entries in the order of their keys. -/

inductive Value where
  | string (text : String)
  | integer (value : Int)
  | float (value : Float)
  | bool (value : Bool)
  /-- A date, a time, or both, as written. -/
  | moment (text : String)
  | array (items : List Value)
  | table (entries : List (String × Value))

inductive Origin where
  /-- A header names a table inside it. -/
  | implied
  /-- A header names it. -/
  | header
  /-- A dotted key leads through it. -/
  | dotted
  deriving DecidableEq, Repr

/-- What a key stands for while a document is read. Values are complete, tables
and the last table of an array of tables may still grow. -/
inductive Item where
  | value (value : Value)
  | table (origin : Origin) (entries : List (String × Item))
  | tables (earlier : List Value) (last : List (String × Item))

abbrev Entries := List (String × Item)

mutual
def Item.toValue : Item → Value
  | .value value => value
  | .table _ entries => .table (entryValues entries)
  | .tables earlier last => .array (earlier ++ [.table (entryValues last)])

def entryValues : List (String × Item) → List (String × Value)
  | [] => []
  | (key, item) :: entries => (key, item.toValue) :: entryValues entries
end

namespace Entries

def alter (key : String) (change : Option Item → Option Item) :
    Entries → Option Entries
  | [] => (change none).map fun item => [(key, item)]
  | entry :: entries =>
      if key = entry.1 then
        (change (some entry.2)).map fun item => (key, item) :: entries
      else if key < entry.1 then
        (change none).map fun item => (key, item) :: entry :: entries
      else
        (alter key change entries).map (entry :: ·)

/-- Gives a dotted key its value. Nothing has two values, and dotted keys reach
only into tables that dotted keys have made. -/
def assign (value : Value) :
    List String → (reachable : Bool) → Entries → Option Entries
  | [], _, _ => none
  | [key], reachable, entries =>
      if reachable then
        alter key
          (fun old => if old.isSome then none else some (.value value)) entries
      else
        none
  | key :: path, _, entries =>
      alter key (fun
        | none => (assign value path true []).map (.table .dotted)
        | some (.table .header _) => none
        | some (.table origin inner) =>
            (assign value path (origin == .dotted) inner).map (.table origin)
        | some (.tables earlier last) =>
            (assign value path false last).map (.tables earlier)
        | some (.value _) => none) entries

/-- Changes the table at a path. Tables that are missing on the way are implied,
and of an array of tables the last one is meant. -/
def within (change : Entries → Option Entries) :
    List String → Entries → Option Entries
  | [], entries => change entries
  | key :: path, entries =>
      alter key (fun
        | none => (within change path []).map (.table .implied)
        | some (.table origin inner) =>
            (within change path inner).map (.table origin)
        | some (.tables earlier last) =>
            (within change path last).map (.tables earlier)
        | some (.value _) => none) entries

/-- A header of a table. It may name a table that was only implied. -/
def declareTable (key : String) : Entries → Option Entries :=
  alter key fun
    | none => some (.table .header [])
    | some (.table .implied entries) => some (.table .header entries)
    | _ => none

def declareElement (key : String) : Entries → Option Entries :=
  alter key fun
    | none => some (.tables [] [])
    | some (.tables earlier last) =>
        some (.tables (earlier ++ [.table (entryValues last)]) [])
    | _ => none

end Entries

end TermSearch.Toml
