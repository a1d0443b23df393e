import AssignLang.Toml.Reader

/-! TOML documents. Lines with a key add to the table that was opened last. The
table is put in its place when the next header, or the end, closes it. -/

namespace AssignLang.Toml

inductive Opened where
  | root
  | table (key : Key)
  | element (key : Key)
deriving DecidableEq, Repr, Inhabited

/-- A document half read: what has been closed, and the table that is open. -/
structure Draft where
  closed : Entries := []
  opened : Opened := .root
  current : Entries := []
deriving Repr, Inhabited

namespace Draft

def close? (d : Draft) : Option Entries :=
  match d.opened with
  | .root => some d.current
  | .table key => do
    let ((), entries) ← Entries.descend false (fun _ parent =>
      (Entries.add? parent key.name (.table .header d.current)).map (((), ·)))
      key.path .header d.closed
    return entries
  | .element key => do
    let ((), entries) ← Entries.descend false (fun _ parent =>
      match parent.lookup key.name with
      | some (.tables elements) =>
        some ((), Entries.set parent key.name (.tables (d.current :: elements)))
      | _ => none) key.path .header d.closed
    return entries

/-- Opens the table of a header. One that is only implied so far keeps what it has,
any other must be new. -/
def openTable? (key : Key) (closed : Entries) : Option Draft := do
  let (current, closed) ← Entries.descend false (fun _ parent =>
    match parent.lookup key.name with
    | none => some ([], parent)
    | some (.table .implied child) => some (child, Entries.erase parent key.name)
    | some _ => none) key.path .header closed
  return ⟨closed, .table key, current⟩

def openElement? (key : Key) (closed : Entries) : Option Draft := do
  let ((), closed) ← Entries.descend false (fun _ parent =>
    match parent.lookup key.name with
    | none => some ((), (key.name, .tables []) :: parent)
    | some (.tables _) => some ((), parent)
    | some _ => none) key.path .header closed
  return ⟨closed, .element key, []⟩

def add? (d : Draft) (key : Key) (value : Value) : Option Draft := do
  return { d with current := ← d.current.insert? .header key.path key.name value }

def header? (d : Draft) (text : Text) : Option (Draft × Text) :=
  match text with
  | '[' :: text => do
    let (key, rest) ← key? text
    let rest ← lineEnd? (← mark? ']' (← mark? ']' rest))
    return (← openElement? key (← d.close?), rest)
  | text => do
    let (key, rest) ← key? text
    let rest ← lineEnd? (← mark? ']' rest)
    return (← openTable? key (← d.close?), rest)

def statement? (d : Draft) (text : Text) : Option (Draft × Text) :=
  match text with
  | '#' :: _ | '\n' :: _ | '\r' :: _ => (lineEnd? text).map (d, ·)
  | '[' :: rest => d.header? rest
  | _ => do
    let (key, value, rest) ← keyValue? (value? (limit - 1)) text
    return (← d.add? key value, ← lineEnd? rest)

def statements? (bound : Text) (d : Draft) (text : Text) : Option Draft :=
  match bound, skipBlanks text with
  | _, [] => some d
  | [], _ => none
  | _ :: bound, text => do
    let (d, rest) ← d.statement? text
    statements? bound d rest

end Draft

def skipMark : Text → Text
  | '\uFEFF' :: rest => rest
  | text => text

/-- Reads a document, with its entries in order; there is no answer if it is malformed
or defines a key twice. -/
def read? (text : Text) : Option Entries := do
  return (← (← Draft.statements? text {} (skipMark text)).close?).reverse

end AssignLang.Toml
