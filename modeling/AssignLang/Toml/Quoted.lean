import AssignLang.Toml.Blank

/-! The four sorts of TOML strings: basic ones in double quotes know escapes,
literal ones in single quotes do not, and both come with three quotes for several
lines. -/

namespace AssignLang.Toml

def isHexDigit (c : Char) : Bool :=
  c.isDigit || 'a' ≤ c && c ≤ 'f' || 'A' ≤ c && c ≤ 'F'

def hexValue (c : Char) : Nat :=
  if c.isDigit then c.toNat - '0'.toNat else (c.toNat - 'A'.toNat) % 32 + 10

def codePoint? (digits : Nat) (text : Text) : Option (Text × Text) :=
  let read := text.take digits
  let code := read.foldl (fun n c => 16 * n + hexValue c) 0
  if read.length = digits ∧ read.all isHexDigit ∧ code.isValidChar then
    some ([Char.ofNat code], text.drop digits)
  else none

def escape? : Text → Option (Text × Text)
  | 'b' :: rest => some (['\x08'], rest)
  | 't' :: rest => some (['\t'], rest)
  | 'n' :: rest => some (['\n'], rest)
  | 'f' :: rest => some (['\x0c'], rest)
  | 'r' :: rest => some (['\r'], rest)
  | '"' :: rest => some (['"'], rest)
  | '\\' :: rest => some (['\\'], rest)
  | 'u' :: rest => codePoint? 4 rest
  | 'U' :: rest => codePoint? 8 rest
  | _ => none

def basicPiece? : Text → Option (Text × Text)
  | '\\' :: rest => escape? rest
  | c :: rest => if c ≠ '"' ∧ isPlain c then some ([c], rest) else none
  | [] => none

def literalPiece? : Text → Option (Text × Text)
  | c :: rest => if c ≠ '\'' ∧ isPlain c then some ([c], rest) else none
  | [] => none

/-- A backslash at the end of a line passes over all blanks and newlines that
follow. -/
def joinedLine? (text : Text) : Option Text :=
  match text with
  | '\\' :: rest =>
    (newline? (skipBlanks rest)).map skipSpace
  | _ => none

/-- A piece of a string of several lines between the quotes `q`. Up to two quotes
in a row belong to the string. -/
def linePiece? (q : Char) (piece : Text → Option (Text × Text)) (text : Text) :
    Option (Text × Text) :=
  if [q, q, q].isPrefixOf text then none
  else match newline? text with
    | some rest => some (['\n'], rest)
    | none =>
      match text with
      | c :: rest => if c = q then some ([q], rest) else piece text
      | [] => none

/-- The end of a string of several lines: three quotes, and up to two more in front
that belong to the string. -/
def closing? (q : Char) (text : Text) : Option (Text × Text) :=
  if [q, q, q, q, q].isPrefixOf text then some ([q, q], text.drop 5)
  else if [q, q, q, q].isPrefixOf text then some ([q], text.drop 4)
  else if [q, q, q].isPrefixOf text then some ([], text.drop 3)
  else none

/-- Reads a string of several lines behind its opening quotes. A newline right
behind them does not count. -/
def lines? (q : Char) (piece : Text → Option (Text × Text)) (text : Text) :
    Option (Text × Text) := do
  let (body, rest) := pieces (linePiece? q piece) ((newline? text).getD text)
  let (quotes, rest) ← closing? q rest
  return (body ++ quotes, rest)

def line? (q : Char) (piece : Text → Option (Text × Text)) (text : Text) :
    Option (Text × Text) :=
  let (body, rest) := pieces piece text
  match rest with
  | c :: rest => if c = q then some (body, rest) else none
  | [] => none

def singleLine? : Text → Option (Text × Text)
  | '"' :: rest => line? '"' basicPiece? rest
  | '\'' :: rest => line? '\'' literalPiece? rest
  | _ => none

def basicLinePiece? (text : Text) : Option (Text × Text) :=
  match joinedLine? text with
  | some rest => some ([], rest)
  | none => basicPiece? text

def string? : Text → Option (Text × Text)
  | '"' :: '"' :: '"' :: rest => lines? '"' basicLinePiece? rest
  | '\'' :: '\'' :: '\'' :: rest => lines? '\'' literalPiece? rest
  | text => singleLine? text

end AssignLang.Toml
