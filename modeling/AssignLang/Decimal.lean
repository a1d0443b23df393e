import AssignLang.Binary64

/-! Decimals. `Binary64.ofDecimal` reads one as the nearest double. `Decimal.shortest`
goes back: of all decimals that read as a given double it takes one with the fewest
digits, of those the nearest, and of two equally near the larger. -/

namespace AssignLang

/-- The number `digits` · 10 ^ `exponent`. -/
structure Decimal where
  digits : Nat
  exponent : Int
deriving DecidableEq, Repr, Inhabited

/-- The bits of the double nearest to a decimal. Far out of range the answer is
known without the power of ten. -/
def Binary64.ofDecimal (d : Decimal) : Nat :=
  match d.exponent with
  | .ofNat n =>
    if d.digits = 0 then 0 else if 309 < n then infinity else ofRatio (d.digits * tenPow n) 1
  | .negSucc n =>
    if d.digits.log2 + 1080 < 3 * (n + 1) then 0 else ofRatio d.digits (tenPow (n + 1))

namespace Decimal

/-- Reads a sign, if there is one; the answer is whether it is a minus. -/
def sign : List Char → Bool × List Char
  | '+' :: rest => (false, rest)
  | '-' :: rest => (true, rest)
  | text => (false, text)

def signed (negative : Bool) (n : Nat) : Int := if negative then -n else n

def scale (exponent : Int) : Nat × Nat :=
  match exponent with
  | .ofNat n => (tenPow n, 1)
  | .negSucc n => (1, tenPow (n + 1))

/-- The exponent of the leading digit of a positive quotient below 10³⁰⁹ and above
10⁻³²⁵. -/
def leading (num den : Nat) : Int :=
  if den ≤ num then (Nat.toDigits 10 (num / den)).length - 1
  else -(((List.range 325).find? fun n => den ≤ num * tenPow (n + 1)).getD 0 + 1 : Int)

/-- A decimal with this exponent reads as the double with the significand `m` and
`k` binary places behind it. The quarter units tell where the neighbouring doubles
begin; a tie reads as the even significand. -/
def readsBack (m k : Nat) (d : Decimal) : Bool :=
  let (up, down) := scale d.exponent
  let value := 4 * d.digits * up * twoPow 1074
  let below := if m = twoPow 52 ∧ k ≠ 0 then 4 * m - 1 else 4 * m - 2
  let low := below * twoPow k * down
  let high := (4 * m + 2) * twoPow k * down
  if m % 2 = 0 then low ≤ value && value ≤ high else low < value && value < high

def neighbour? (m k : Nat) (exponent : Int) : Option Decimal :=
  let (up, down) := scale exponent
  let num := m * twoPow k * down
  let den := up * twoPow 1074
  let lower : Decimal := ⟨num / den, exponent⟩
  let upper : Decimal := ⟨num / den + 1, exponent⟩
  match readsBack m k lower, readsBack m k upper with
  | true, true => some (if 2 * (num % den) < den then lower else upper)
  | true, false => some lower
  | false, true => some upper
  | false, false => none

/-- The shortest decimal that reads as a positive finite double. Seventeen digits
are always enough. -/
def shortest (bits : Nat) : Decimal :=
  let (m, k) := Binary64.decompose bits
  let top := leading (m * twoPow k) (twoPow 1074)
  ((List.range 17).findSome? fun n => neighbour? m k (top - Int.ofNat n)).getD ⟨m * twoPow k, 0⟩

def trim (fuel : Nat) (d : Decimal) : Decimal :=
  match fuel with
  | 0 => d
  | fuel + 1 =>
    if d.digits % 10 = 0 ∧ d.digits ≠ 0 then trim fuel ⟨d.digits / 10, d.exponent + 1⟩ else d

def positional (d : Decimal) : List Char :=
  let digits := Nat.toDigits 10 d.digits
  match d.exponent with
  | .ofNat n => digits ++ List.replicate n '0' ++ ['.', '0']
  | .negSucc n =>
    let padded := List.replicate (n + 2 - digits.length) '0' ++ digits
    padded.take (padded.length - (n + 1)) ++ '.' :: padded.drop (padded.length - (n + 1))

end Decimal

inductive Double where
  | signed (negative : Bool) (magnitude : Nat)
  | nan
deriving DecidableEq, Repr, Inhabited

def Double.text : Double → List Char
  | .nan => ['N', 'a', 'N']
  | .signed negative magnitude =>
    let sign := if negative then ['-'] else []
    if magnitude = Binary64.infinity then sign ++ ['i', 'n', 'f']
    else if magnitude = 0 then sign ++ ['0', '.', '0']
    else sign ++ ((Decimal.shortest magnitude).trim 400).positional

end AssignLang
