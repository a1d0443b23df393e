/-! Double precision. A non-negative double is a whole number of units, the unit
being 2⁻¹⁰⁷⁴, the smallest positive double. It is kept as its 64 bits. Main
definition: `ofRatio` gives the double nearest to a quotient, a tie going to the
even neighbour; a quotient that is too large gives infinity. -/

namespace AssignLang

/-- The quotient rounded to the nearest natural number, a tie to the even one. -/
def roundDiv (num den : Nat) : Nat :=
  if 2 * (num % den) < den ∨ 2 * (num % den) = den ∧ num / den % 2 = 0 then num / den
  else num / den + 1

def twoPow (n : Nat) : Nat := Nat.pow 2 n

namespace Binary64

def infinity : Nat := 0x7FF * twoPow 52

/-- How many units a quotient is, rounded down. -/
def units (num den : Nat) : Nat := num * twoPow 1074 / den

/-- The binary places that do not fit in the 53 bits of a significand. -/
def excess (num den : Nat) : Nat := (units num den).log2 - 52

/-- The bits of the double nearest to a quotient. -/
def ofRatio (num den : Nat) : Nat :=
  let k := excess num den
  min infinity (k * twoPow 52 + roundDiv (num * twoPow 1074) (den * twoPow k))

def ofNat (n : Nat) : Nat := ofRatio n 1

/-- The significand and the number of binary places behind it, in units. -/
def decompose (bits : Nat) : Nat × Nat :=
  if bits < twoPow 52 then (bits, 0)
  else (twoPow 52 + bits % twoPow 52, bits / twoPow 52 - 1)

end Binary64

def tenPow (n : Nat) : Nat := Nat.pow 10 n

def digitValue (c : Char) : Nat := c.toNat - '0'.toNat

def ofDigits (digits : List Char) : Nat := digits.foldl (fun n c => 10 * n + digitValue c) 0

theorem foldl_digits (n : Nat) (digits : List Char) :
    digits.foldl (fun n c => 10 * n + digitValue c) n =
      n * tenPow digits.length + ofDigits digits := by
  induction digits generalizing n with
  | nil => simp [tenPow, ofDigits]
  | cons c cs ih =>
    simp only [ofDigits, List.foldl_cons, List.length_cons]
    rw [ih, ih (10 * 0 + digitValue c)]
    have hpow : tenPow (cs.length + 1) = tenPow cs.length * 10 := rfl
    rw [hpow, Nat.add_mul, Nat.mul_comm 10 n, Nat.mul_assoc, Nat.mul_comm 10, Nat.mul_zero,
      Nat.zero_add, Nat.add_assoc]

theorem ofDigits_append (s t : List Char) :
    ofDigits (s ++ t) = ofDigits s * tenPow t.length + ofDigits t := by
  rw [ofDigits, List.foldl_append, foldl_digits]
  rfl

/-- Reads a long run of digits by halves, which takes few products of large numbers;
`depth` bounds how often the run is halved. -/
def ofDigitHalves : Nat → List Char → Nat
  | 0, digits => ofDigits digits
  | depth + 1, digits =>
    if digits.length ≤ 64 then ofDigits digits
    else
      let high := digits.take (digits.length / 2)
      let low := digits.drop (digits.length / 2)
      ofDigitHalves depth high * tenPow low.length + ofDigitHalves depth low

@[simp] theorem ofDigitHalves_eq_ofDigits (depth : Nat) (digits : List Char) :
    ofDigitHalves depth digits = ofDigits digits := by
  induction depth generalizing digits with
  | zero => rfl
  | succ depth ih =>
    unfold ofDigitHalves
    split
    · rfl
    · simp only [ih]
      rw [← ofDigits_append, List.take_append_drop]

def ofDigitRun (digits : List Char) : Nat := ofDigitHalves 32 digits

@[simp] theorem ofDigitRun_eq_ofDigits (digits : List Char) :
    ofDigitRun digits = ofDigits digits := ofDigitHalves_eq_ofDigits 32 digits

/-- The bits of the double that an integer literal stands for. -/
def literalBits (digits : String) : Nat := Binary64.ofNat (ofDigitRun digits.toList)

end AssignLang
