import AssignLang.Binary64
import AssignLang.Text.Basic

/-! TOML dates and times. They are checked and then passed. -/

namespace AssignLang.Toml

/-- Reads a number of exactly so many digits within bounds. -/
def field? (digits low high : Nat) (text : Text) : Option (Nat × Text) :=
  let read := text.take digits
  let n := ofDigits read
  if read.length = digits ∧ read.all Char.isDigit ∧ low ≤ n ∧ n ≤ high then
    some (n, text.drop digits)
  else none

def mark? (c : Char) : Text → Option Text
  | d :: rest => if d = c then some rest else none
  | [] => none

def isLeapYear (year : Nat) : Bool := year % 4 = 0 && (year % 100 ≠ 0 || year % 400 = 0)

def daysOfMonth (year month : Nat) : Nat :=
  match month with
  | 2 => if isLeapYear year then 29 else 28
  | 4 | 6 | 9 | 11 => 30
  | _ => 31

def date? (text : Text) : Option Text := do
  let (year, text) ← field? 4 0 9999 text
  let text ← mark? '-' text
  let (month, text) ← field? 2 1 12 text
  let text ← mark? '-' text
  let (_, text) ← field? 2 1 (daysOfMonth year month) text
  return text

def skipSecondFraction : Text → Text
  | '.' :: c :: rest => if c.isDigit then rest.dropWhile Char.isDigit else '.' :: c :: rest
  | text => text

/-- A time of day; a minute may have a leap second. -/
def time? (text : Text) : Option Text := do
  let (_, text) ← field? 2 0 23 text
  let text ← mark? ':' text
  let (_, text) ← field? 2 0 59 text
  let text ← mark? ':' text
  let (_, text) ← field? 2 0 60 text
  return skipSecondFraction text

def offset? : Text → Option Text
  | 'Z' :: rest | 'z' :: rest => some rest
  | '+' :: rest | '-' :: rest => do
    let (_, rest) ← field? 2 0 23 rest
    let rest ← mark? ':' rest
    let (_, rest) ← field? 2 0 59 rest
    return rest
  | text => some text

def startsDate (text : Text) : Bool :=
  ((field? 4 0 9999 text).bind fun (_, rest) => mark? '-' rest).isSome

def startsTime (text : Text) : Bool :=
  ((field? 2 0 23 text).bind fun (_, rest) => mark? ':' rest).isSome

def timeOfDate? : Text → Option Text
  | c :: rest =>
    if (c = 'T' || c = 't' || c = ' ') && startsTime rest then (time? rest).bind offset?
    else some (c :: rest)
  | [] => some []

def dateTime? (text : Text) : Option Text :=
  if startsDate text then (date? text).bind timeOfDate? else time? text

end AssignLang.Toml
