import AssignLang.Toml.DateTime
import AssignLang.Toml.Number

/-! Reading TOML keys and values. Arrays and inline tables nest to a fixed depth. -/

namespace AssignLang.Toml

/-- Keys have fewer parts, and values fewer levels, than this. -/
def limit : Nat := 80

def isBareKeyChar (c : Char) : Bool := c.isAlphanum || c = '-' || c = '_'

def keyPart? (text : Text) : Option (String × Text) :=
  match text with
  | '"' :: _ | '\'' :: _ => (singleLine? text).map fun (part, rest) => (String.ofList part, rest)
  | _ =>
    let part := text.takeWhile isBareKeyChar
    if part.isEmpty then none else some (String.ofList part, text.dropWhile isBareKeyChar)

/-- A key: the tables on the way, and the name in the last one. -/
structure Key where
  path : List String
  name : String
deriving DecidableEq, Repr, Inhabited

def keyFrom? (fuel : Nat) (passed : List String) (text : Text) : Option (Key × Text) := do
  match fuel with
  | 0 => none
  | fuel + 1 =>
    let (part, rest) ← keyPart? (skipBlanks text)
    match skipBlanks rest with
    | '.' :: rest => keyFrom? fuel (part :: passed) rest
    | rest => return (⟨passed.reverse, part⟩, rest)

def key? (text : Text) : Option (Key × Text) := keyFrom? (limit - 1) [] text

section Nested

variable (value : Text → Option (Value × Text))

/-- Reads the items of an array up to its end, at most as many as `bound` is long;
`passed` are those before, the last first. -/
def itemsFrom? (bound : Text) (passed : List Value) (text : Text) : Option (Value × Text) := do
  match ← skipFiller false text with
  | ']' :: rest => return (.array passed.reverse, rest)
  | text =>
    match bound with
    | [] => none
    | _ :: bound =>
      let (item, rest) ← value text
      match ← skipFiller false rest with
      | ',' :: rest => itemsFrom? bound (item :: passed) rest
      | ']' :: rest => return (.array (item :: passed).reverse, rest)
      | _ => none

def keyValue? (text : Text) : Option (Key × Value × Text) := do
  let (key, rest) ← key? text
  let rest ← mark? '=' rest
  let (value, rest) ← value (skipBlanks rest)
  return (key, value, rest)

/-- Reads the entries of an inline table up to its end, at most as many as `bound` is
long. There is at least one, and no comma behind the last. -/
def entriesFrom? (bound : Text) (entries : Entries) (text : Text) : Option (Value × Text) := do
  match bound with
  | [] => none
  | _ :: bound =>
    let (key, item, rest) ← keyValue? value text
    let entries ← entries.insert? .inline key.path key.name item
    match skipBlanks rest with
    | ',' :: rest => entriesFrom? bound entries rest
    | '}' :: rest => return (.table .inline entries, rest)
    | _ => none

def inlineTable? (text : Text) : Option (Value × Text) :=
  match skipBlanks text with
  | '}' :: rest => some (.table .inline [], rest)
  | _ => entriesFrom? value text [] text

end Nested

def value? (depth : Nat) (text : Text) : Option (Value × Text) :=
  match text with
  | '[' :: rest =>
    match depth with
    | 0 => none
    | depth + 1 => itemsFrom? (value? depth) rest [] rest
  | '\x7b' :: rest =>
    match depth with
    | 0 => none
    | depth + 1 => inlineTable? (value? depth) rest
  | '"' :: _ | '\'' :: _ =>
    (string? text).map fun (read, rest) => (.string (String.ofList read), rest)
  | 't' :: 'r' :: 'u' :: 'e' :: rest => some (.boolean true, rest)
  | 'f' :: 'a' :: 'l' :: 's' :: 'e' :: rest => some (.boolean false, rest)
  | _ =>
    if startsDate text || startsTime text then (dateTime? text).map (.dateTime, ·)
    else number? text

end AssignLang.Toml
