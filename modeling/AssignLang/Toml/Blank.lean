import AssignLang.Text.Basic

/-! Blanks, newlines and comments of TOML, and repetition of readers. A reader
takes a text and gives what it read with the rest, or nothing if the text does not
start that way. -/

namespace AssignLang.Toml

def isBlank (c : Char) : Bool := c = ' ' || c = '\t'

def skipBlanks (text : Text) : Text := text.dropWhile isBlank

def newline? : Text → Option Text
  | '\n' :: rest => some rest
  | '\r' :: '\n' :: rest => some rest
  | _ => none

/-- Controls other than the tab stand neither in comments nor in literal strings. -/
def isPlain (c : Char) : Bool := c = '\t' || 0x20 ≤ c.toNat && c.toNat ≠ 0x7F

def skipComment : Text → Text
  | '#' :: rest => rest.dropWhile isPlain
  | text => text

def lineEnd? (text : Text) : Option Text :=
  match skipComment (skipBlanks text) with
  | [] => some []
  | rest => newline? rest

/-- Passes blanks, newlines and comments; `comment` says whether one is open. A
comment must end in a newline. -/
def skipFiller (comment : Bool) : Text → Option Text
  | [] => if comment then none else some []
  | '\n' :: rest => skipFiller false rest
  | '\r' :: '\n' :: rest => skipFiller false rest
  | c :: rest =>
    if comment then if isPlain c then skipFiller true rest else none
    else if isBlank c then skipFiller false rest
    else if c = '#' then skipFiller true rest
    else some (c :: rest)

def skipSpace : Text → Text
  | [] => []
  | '\n' :: rest => skipSpace rest
  | '\r' :: '\n' :: rest => skipSpace rest
  | c :: rest => if isBlank c then skipSpace rest else c :: rest

/-- Reads pieces one after another while there are any, at most as many as `bound` is
long; `passed` is what was read before, the last character first. -/
def piecesFrom (piece : Text → Option (Text × Text)) (bound passed text : Text) : Text × Text :=
  match bound with
  | [] => (passed.reverse, text)
  | _ :: bound =>
    match piece text with
    | none => (passed.reverse, text)
    | some (read, rest) => piecesFrom piece bound (read.reverse ++ passed) rest

/-- Reads pieces while there are any. No piece is empty, so the text itself is a
bound on their number. -/
def pieces (piece : Text → Option (Text × Text)) (text : Text) : Text × Text :=
  piecesFrom piece text [] text

end AssignLang.Toml
