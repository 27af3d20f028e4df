import Stencil.Value.Number

/-! What a TOML document holds, and how its lines build it up. -/
namespace Stencil.Toml

/-- How a table came to be, which decides how later lines may extend it. -/
inductive Origin
  /-- Named by a header of its own. -/
  | header
  /-- Named only on the way to a longer header. -/
  | headerPath
  /-- Named on the way to a dotted key. -/
  | dottedKey
  deriving DecidableEq, Repr

inductive Node
  | string (text : String)
  | integer (value : Int64)
  | float (value : Float)
  | boolean (value : Bool)
  /-- A date, a time or both. -/
  | moment
  | array (items : List Node)
  /-- A table in braces, which nothing extends. -/
  | inline (entries : List (String × Node))
  | table (origin : Origin) (entries : List (String × Node))
  /-- Tables under headers in double brackets, of which the last may be extended. -/
  | tables (items : List (List (String × Node)))

abbrev Entries := List (String × Node)

namespace Entries

/-- Gives a key a new value, at the place where the key stands or at the end. -/
def put (key : String) (node : Node) : Entries → Entries
  | [] => [(key, node)]
  | (k, n) :: entries =>
    if k = key then (key, node) :: entries else (k, n) :: put key node entries

/-- Changes the table at the end of a header path. Missing tables on the way are made; only
tables can be on the way. -/
def alter (change : Entries → Option Entries) : List String → Entries → Option Entries
  | [], entries => change entries
  | key :: path, entries => do
    let node ← match (entries.lookup key).getD (.table .headerPath []) with
      | .table origin inner => (alter change path inner).map (.table origin)
      | .tables items => do
        let last ← items.getLast?
        (alter change path last).map fun last => .tables (items.dropLast ++ [last])
      | _ => none
    return entries.put key node

/-- Opens the table of a header. Its key must be new, or a table that only a longer header has
named. -/
def openTable (path : List String) (entries : Entries) : Option Entries := do
  let key ← path.getLast?
  let change (entries : Entries) : Option Entries :=
    match entries.lookup key with
    | none => some (entries.put key (.table .header []))
    | some (.table .headerPath inner) => some (entries.put key (.table .header inner))
    | some _ => none
  entries.alter change path.dropLast

/-- Adds a table for a header in double brackets. -/
def openItem (path : List String) (entries : Entries) : Option Entries := do
  let key ← path.getLast?
  let change (entries : Entries) : Option Entries :=
    match entries.lookup key with
    | none => some (entries.put key (.tables [[]]))
    | some (.tables items) => some (entries.put key (.tables (items ++ [[]])))
    | some _ => none
  entries.alter change path.dropLast

/-- Adds a value under a dotted key, whose last part must be new. A key of several parts may end
only in a table that dotted keys have made (`dotted`). -/
def insertDotted (several dotted : Bool) (node : Node) : List String → Entries → Option Entries
  | [], _ => none
  | [key], entries =>
    if several = dotted ∧ (entries.lookup key).isNone then some (entries.put key node) else none
  | key :: path, entries => do
    let inner ← match (entries.lookup key).getD (.table .dottedKey []) with
      | .table .header _ => none
      | .table origin inner =>
        (insertDotted several (origin = .dottedKey) node path inner).map (.table origin)
      | .tables items => do
        let last ← items.getLast?
        (insertDotted several false node path last).map fun last =>
          .tables (items.dropLast ++ [last])
      | _ => none
    return entries.put key inner

/-- Adds a value under a key of one or more parts. -/
def insert (key : List String) (node : Node) (entries : Entries) : Option Entries :=
  entries.insertDotted (1 < key.length) false node key

end Entries
end Stencil.Toml
