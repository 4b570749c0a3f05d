import Broadway.Toml.Value

/-!
# Tables under construction

The lines of a document build its tables bit by bit, and how a table came about decides what may
still be added to it. A table with a header of its own is never opened a second time, neither by a
header nor by a dotted key; one that only stands on the way to another header may still get its
own; one that dotted keys made may only grow by dotted keys or by headers of tables below it.
-/

namespace Broadway.Toml

/-- How a table came about. -/
inductive Origin
  /-- A header names it, or it is a whole document. -/
  | header
  /-- It stands on the way to a table with a header. -/
  | path
  /-- It stands on the way of a dotted key. -/
  | dotted
  deriving DecidableEq

/-- What a key of an unfinished table stands for. -/
inductive Node
  | value (v : Value)
  | table (origin : Origin) (entries : List (String × Node))
  /-- An array of tables, the last one first. -/
  | series (tables : List (List (String × Node)))

namespace Node

mutual

def toValue : Node → Value
  | .value v => v
  | .table _ entries => .table (entriesToValues entries)
  | .series tables => .array (tablesToValues tables).reverse

def entriesToValues : List (String × Node) → List (String × Value)
  | [] => []
  | (key, node) :: rest => (key, toValue node) :: entriesToValues rest

def tablesToValues : List (List (String × Node)) → List Value
  | [] => []
  | entries :: rest => .table (entriesToValues entries) :: tablesToValues rest

end

end Node

/-- The entries of an unfinished table. -/
abbrev Entries := List (String × Node)

namespace Entries

/-- Gives a key another node, or adds it at the end. -/
def put (key : String) (node : Node) : Entries → Entries
  | [] => [(key, node)]
  | (k, n) :: rest => if k = key then (k, node) :: rest else (k, n) :: put key node rest

/-- Changes the table that a path leads to, making tables of the origin `made` where there are
none. A path goes through the last table of a series and never through a value. A dotted key
(`made = .dotted`) does not enter a table that has a header. -/
def within (made : Origin) (change : Origin → Entries → Option Entries) :
    (path : List String) → Origin → Entries → Option Entries
  | [], origin, entries => change origin entries
  | key :: path, _, entries =>
    match entries.lookup key with
    | none => do
      let inner ← within made change path made []
      return entries.put key (.table made inner)
    | some (.value _) | some (.series []) => none
    | some (.series (last :: earlier)) => do
      let last ← within made change path .header last
      return entries.put key (.series (last :: earlier))
    | some (.table origin inner) =>
      if made = .dotted ∧ origin = .header then none
      else do
        let inner ← within made change path origin inner
        return entries.put key (.table origin inner)

/-- Gives a value to a dotted key. The key must be new, and the table that gets it must have been
made for the key: by dotted keys if the key has several parts, and otherwise not. -/
def assign (path : List String) (key : String) (v : Value) : Origin → Entries → Option Entries :=
  within .dotted (fun origin entries =>
    if (origin = .dotted : Bool) == path.isEmpty || (entries.lookup key).isSome then none
    else some (entries.put key (.value v))) path

/-- Opens a table by its header. -/
def openTable (path : List String) (key : String) : Entries → Option Entries :=
  within .path (fun _ entries =>
    match entries.lookup key with
    | none => some (entries.put key (.table .header []))
    | some (.table .path inner) => some (entries.put key (.table .header inner))
    | some _ => none) path .header

/-- Appends a table to an array of tables. -/
def openElement (path : List String) (key : String) : Entries → Option Entries :=
  within .path (fun _ entries =>
    match entries.lookup key with
    | none => some (entries.put key (.series [[]]))
    | some (.series tables) => some (entries.put key (.series ([] :: tables)))
    | some _ => none) path .header

end Entries

end Broadway.Toml
