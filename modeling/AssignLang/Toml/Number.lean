import AssignLang.Toml.Quoted
import AssignLang.Toml.Value

/-! TOML numbers. Single underscores may stand between digits. Integers fit in 64
bits with a sign; a float that is too large is refused, unless it is negative. -/

namespace AssignLang.Toml

def digitsFrom (isDigit : Char → Bool) (passed : Text) : Text → Option (Text × Text)
  | [] => some (passed.reverse, [])
  | '_' :: c :: rest => if isDigit c then digitsFrom isDigit (c :: passed) rest else none
  | c :: rest =>
    if isDigit c then digitsFrom isDigit (c :: passed) rest
    else if c = '_' then none
    else some (passed.reverse, c :: rest)

def digits? (isDigit : Char → Bool) : Text → Option (Text × Text)
  | c :: rest => if isDigit c then digitsFrom isDigit [c] rest else none
  | [] => none

def integer? (n : Int) : Option Value :=
  if -0x8000000000000000 ≤ n ∧ n < 0x8000000000000000 then some (.integer n) else none

/-- The number that digits write in a base. One that is too large stays too large, and
further digits do not count. -/
def ofBase (base : Nat) (digits : Text) : Nat :=
  digits.foldl (fun n c => if n < 0x8000000000000000 then base * n + hexValue c else n) 0

def based? (base : Nat) (isDigit : Char → Bool) (text : Text) : Option (Value × Text) := do
  let (digits, rest) ← digits? isDigit text
  let value ← integer? (ofBase base digits)
  return (value, rest)

/-- Reads the digits before the point. A zero in front stands alone. -/
def whole? : Text → Option (Text × Text)
  | '0' :: rest => some (['0'], rest)
  | text => digits? Char.isDigit text

def fraction? : Text → Option (Text × Text)
  | '.' :: rest => digits? Char.isDigit rest
  | text => some ([], text)

/-- The number that the digits of an exponent write. From 65536 on it is beyond any
float that is written in a usual way, and further digits do not count. -/
def exponentValue (digits : Text) : Nat :=
  digits.foldl (fun n c => if n < 0x10000 then 10 * n + digitValue c else n) 0

def exponent? : Text → Option (Int × Text)
  | c :: rest =>
    if c = 'e' ∨ c = 'E' then do
      let (negative, rest) := Decimal.sign rest
      let (digits, rest) ← digits? Char.isDigit rest
      return (Decimal.signed negative (exponentValue digits), rest)
    else some (0, c :: rest)
  | [] => some (0, [])

def float? (negative : Bool) (whole fraction : Text) (exponent : Int) : Option Value :=
  let bits := Binary64.ofDecimal ⟨ofDigitRun (whole ++ fraction), exponent - fraction.length⟩
  if bits = Binary64.infinity ∧ ¬negative then none else some (.float (.signed negative bits))

def startsFloat (text : Text) : Bool :=
  text.head?.any fun c => c = '.' || c = 'e' || c = 'E'

def decimal? (negative : Bool) (text : Text) : Option (Value × Text) := do
  let (whole, rest) ← whole? text
  if startsFloat rest then
    let (fraction, rest) ← fraction? rest
    let (exponent, rest) ← exponent? rest
    return (← float? negative whole fraction exponent, rest)
  else return (← integer? (Decimal.signed negative (ofDigitRun whole)), rest)

def number? : Text → Option (Value × Text)
  | '0' :: 'x' :: rest => based? 16 isHexDigit rest
  | '0' :: 'o' :: rest => based? 8 (fun c => '0' ≤ c && c ≤ '7') rest
  | '0' :: 'b' :: rest => based? 2 (fun c => c = '0' || c = '1') rest
  | text =>
    match Decimal.sign text with
    | (negative, 'i' :: 'n' :: 'f' :: rest) =>
      some (.float (.signed negative Binary64.infinity), rest)
    | (_, 'n' :: 'a' :: 'n' :: rest) => some (.float .nan, rest)
    | (negative, rest) => decimal? negative rest

end AssignLang.Toml
