import AssignLang.Decimal

/-! The values of a TOML document. A table remembers how it came about, since that
decides whether later lines may still add to it. -/

namespace AssignLang.Toml

inductive Origin where
  | inline
  | header
  /-- Named on the way in a header, and not opened itself yet. -/
  | implied
  | dotted
deriving DecidableEq, Repr, Inhabited

/-- A value. Of a date or time only that it is one is kept. -/
inductive Value where
  | string (text : String)
  | integer (n : Int)
  | float (x : Double)
  | boolean (b : Bool)
  | dateTime
  | array (items : List Value)
  | table (origin : Origin) (entries : List (String × Value))
  /-- An array whose elements are opened by headers, each given by its entries, the last
  first. -/
  | tables (elements : List (List (String × Value)))
deriving Repr, Inhabited

abbrev Entries := List (String × Value)

namespace Entries

def set (entries : Entries) (key : String) (value : Value) : Entries :=
  entries.map fun (k, v) => if k = key then (k, value) else (k, v)

def erase (entries : Entries) (key : String) : Entries := entries.filter (·.1 ≠ key)

def add? (entries : Entries) (key : String) (value : Value) : Option Entries :=
  match entries.lookup key with
  | none => some ((key, value) :: entries)
  | some _ => none

/-- A dotted key can go through tables that no header has opened; a header can go
through any table that is not written in braces. -/
def passable (dotted : Bool) : Origin → Bool
  | .inline => false
  | .header => !dotted
  | .implied | .dotted => true

/-- Goes along a path of tables and does `act` in the last one. Tables that are not
there yet are made; of an array of tables the last element is meant. -/
def descend {α : Type} (dotted : Bool) (act : Origin → Entries → Option (α × Entries)) :
    List String → Origin → Entries → Option (α × Entries)
  | [], origin, entries => act origin entries
  | key :: path, _, entries =>
    match entries.lookup key with
    | none => do
      let origin := if dotted then .dotted else .implied
      let (a, child) ← descend dotted act path origin []
      return (a, (key, .table origin child) :: entries)
    | some (.table origin child) =>
      if passable dotted origin then do
        let (a, child) ← descend dotted act path origin child
        return (a, set entries key (.table origin child))
      else none
    | some (.tables []) => none
    | some (.tables (last :: elements)) => do
      let (a, child) ← descend dotted act path .header last
      return (a, set entries key (.tables (child :: elements)))
    | some _ => none

def insert? (entries : Entries) (origin : Origin) (path : List String) (key : String)
    (value : Value) : Option Entries := do
  let ((), entries) ← descend true (fun origin last =>
    if (origin = .dotted) = path.isEmpty then none
    else (add? last key value).map (((), ·))) path origin entries
  return entries

end Entries

end AssignLang.Toml
