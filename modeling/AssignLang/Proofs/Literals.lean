import Mathlib.Data.List.TakeWhile
import Mathlib.Data.Nat.Digits.Defs
import AssignLang.Decimal
import AssignLang.Proofs.Binary64.Rounding
import AssignLang.Proofs.Parse.Precedence
import AssignLang.Proofs.Token.Tiling

/-! The values of integer literals. A literal stands for the double that is nearest to the number
its digits write, however many there are. Reading the digits as a double, in the general form
that doubles are read in, never fails and gives the same. -/

namespace AssignLang

/-- The number that a run of decimal digits writes, the first digit being the highest. -/
def decimalValue (run : Text) : Nat := Nat.ofDigits 10 (run.map digitValue).reverse

/-- At least one character, and only decimal digits. -/
structure IsDigitRun (run : Text) : Prop where
  nonempty : run ≠ []
  digits : ∀ c ∈ run, c.isDigit = true

theorem ofDigits_eq_decimalValue (run : Text) : ofDigits run = decimalValue run := by
  rw [ofDigits, decimalValue, Nat.ofDigits_eq_foldr, List.foldr_reverse, List.foldl_map]
  simp only [Nat.cast_id, Nat.add_comm]

theorem literalBits_ofList (run : Text) :
    literalBits (String.ofList run) = Binary64.ofNat (decimalValue run) := by
  rw [literalBits, ofDigitRun_eq_ofDigits, String.toList_ofList, ofDigits_eq_decimalValue]

theorem decimalValue_leadingZeros (k : Nat) (run : Text) :
    decimalValue (List.replicate k '0' ++ run) = decimalValue run := by
  have hzero : digitValue '0' = 0 := rfl
  rw [decimalValue, decimalValue, List.map_append, List.reverse_append, List.map_replicate,
    List.reverse_replicate, hzero, Nat.ofDigits_append_replicate_zero]

theorem value_literalBits_le {run run' : Text} (h : decimalValue run ≤ decimalValue run') :
    Binary64.value (literalBits (String.ofList run)) ≤
      Binary64.value (literalBits (String.ofList run')) := by
  rw [literalBits_ofList, literalBits_ofList]
  exact (Binary64.roundsTo_ofNat _).value_le (Binary64.roundsTo_ofNat _) (Nat.cast_le.2 h)

theorem toLower_of_isDigit {c : Char} (h : c.isDigit = true) : c.toLower = c := by
  rw [isDigit_iff] at h
  refine dif_neg ?_
  rintro ⟨hlarge, -⟩
  rw [ge_iff_le, UInt32.le_iff_toNat_le] at hlarge
  change 65 ≤ c.toNat at hlarge
  omega

namespace Double

def readFraction : Text → Text × Text
  | '.' :: rest => (rest.takeWhile Char.isDigit, rest.dropWhile Char.isDigit)
  | text => ([], text)

def readExponent? : Text → Option Int
  | [] => some 0
  | c :: rest =>
    let (negative, digits) := Decimal.sign rest
    if c.toLower = 'e' ∧ digits ≠ [] ∧ digits.all Char.isDigit then
      some (Decimal.signed negative (ofDigitRun digits))
    else none

def readMagnitude? (text : Text) : Option Nat :=
  let whole := text.takeWhile Char.isDigit
  let (fraction, rest) := readFraction (text.dropWhile Char.isDigit)
  if whole ++ fraction = [] then none
  else (readExponent? rest).map fun exponent =>
    Binary64.ofDecimal ⟨ofDigitRun (whole ++ fraction), exponent - fraction.length⟩

/-- Reads a double: a decimal with or without an exponent, infinity or no number at all, with or
without a sign. Anything else is refused. -/
def read? (text : Text) : Option Double :=
  let (negative, body) := Decimal.sign text
  let lower := body.map Char.toLower
  if lower = "inf".toList ∨ lower = "infinity".toList then some (.signed negative Binary64.infinity)
  else if lower = "nan".toList then some .nan
  else (readMagnitude? body).map (.signed negative)

theorem ofDecimal_whole (n : Nat) : Binary64.ofDecimal ⟨n, 0⟩ = Binary64.ofNat n := by
  have hdecimal : Binary64.ofDecimal ⟨n, 0⟩ = if n = 0 then 0 else
    if 309 < 0 then Binary64.infinity else Binary64.ofRatio (n * tenPow 0) 1 := rfl
  rw [hdecimal, if_neg (Nat.not_lt_zero 309)]
  split
  · subst n
    exact Binary64.ofNat_zero.symm
  · have hone : tenPow 0 = 1 := rfl
    rw [hone, Nat.mul_one, Binary64.ofNat]

theorem readMagnitude?_digits {run : Text} (h : IsDigitRun run) :
    readMagnitude? run = some (Binary64.ofNat (decimalValue run)) := by
  have htake : run.takeWhile Char.isDigit = run := List.takeWhile_eq_self_iff.2 h.digits
  have hdrop : run.dropWhile Char.isDigit = [] := List.dropWhile_eq_nil_iff.2 h.digits
  simp only [readMagnitude?, htake, hdrop, readFraction, readExponent?, List.append_nil,
    if_neg h.nonempty, Option.map_some, List.length_nil, ofDigitRun_eq_ofDigits,
    ofDigits_eq_decimalValue]
  exact congrArg some (ofDecimal_whole _)

theorem read?_digits {run : Text} (h : IsDigitRun run) :
    read? run = some (.signed false (Binary64.ofNat (decimalValue run))) := by
  obtain _ | ⟨c, cs⟩ := run
  · exact absurd rfl h.nonempty
  have hc : c.isDigit = true := h.digits c List.mem_cons_self
  have hne : ∀ d : Char, d.isDigit = false → c ≠ d := by
    rintro d hd rfl
    rw [hd] at hc
    exact Bool.false_ne_true hc
  have hsign : Decimal.sign (c :: cs) = (false, c :: cs) := by
    unfold Decimal.sign
    split
    · rename_i heq
      exact absurd (List.cons.inj heq).1 (hne '+' rfl)
    · rename_i heq
      exact absurd (List.cons.inj heq).1 (hne '-' rfl)
    · rfl
  have hword : ∀ d ds, d.isDigit = false → (c :: cs).map Char.toLower ≠ d :: ds := by
    intro d ds hd heq
    have hhead := (List.cons.inj heq).1
    rw [toLower_of_isDigit hc] at hhead
    exact hne d hd hhead
  rw [read?, hsign]
  simp only
  rw [if_neg, if_neg, readMagnitude?_digits h, Option.map_some]
  · exact hword _ _ rfl
  · rintro (heq | heq)
    · exact hword _ _ rfl heq
    · exact hword _ _ rfl heq

end Double

namespace Recovered

def HoldsLiterals (e : Expr) (ts : List Token) : Prop :=
  ∀ span digits, Node.integer span digits ∈ e.postorder → ⟨.integer digits, span⟩ ∈ ts

theorem holdsLiterals_of_operand {e : Expr} {ts rest : List Token} (h : Operand e ts rest) :
    HoldsLiterals e ts := by
  obtain ⟨⟨terminal, place⟩, rfl, he⟩ := h
  intro span digits hmem
  cases terminal <;> simp only [Token.operand?, Option.some.injEq, reduceCtorEq] at he <;>
    subst he <;> simp [Expr.postorder, Expr.postorderOnto] at hmem
  simp [hmem]

theorem extends_literals (level : Level) : Extends level HoldsLiterals HoldsLiterals where
  single h := h
  join {left right us vs op} _ hleft hright t span digits hmem := by
    rw [Expr.binary, Expr.postorder_operation, List.mem_append, List.mem_append] at hmem
    rcases hmem with (hmem | hmem) | hmem
    · exact List.mem_append_left _ (hleft span digits hmem)
    · exact List.mem_append_right _ (List.mem_cons_of_mem t (hright span digits hmem))
    · simp at hmem
  broken {left us op} _ hleft t vs span digits hmem := by
    rw [Expr.postorder_broken, List.mem_append] at hmem
    rcases hmem with hmem | hmem
    · exact List.mem_append_left _ (hleft span digits hmem)
    · simp at hmem

theorem holdsLiterals_of_value {e : Expr} {ts rest : List Token} (h : Value e ts rest) :
    HoldsLiterals e ts :=
  (extends_literals .sum).chain
    (fun h => (extends_literals .product).chain holdsLiterals_of_operand h) h

end Recovered

/-- An integer covers digits of the text, and the character behind is no further digit. -/
theorem File.exists_digits (text : Text) {a : Assignment}
    (ha : a ∈ (File.parse text).file.assignments) {value : Expr} (hvalue : value ∈ a.value?)
    {span : Span} {digits : String} (hmem : Node.integer span digits ∈ value.postorder) :
    ∃ before run behind, text = before ++ (run ++ behind) ∧
      span = ⟨Position.after {} before, Position.after {} (before ++ run)⟩ ∧
      digits = String.ofList run ∧ IsDigitRun run ∧ ∀ c ∈ behind.head?, c.isDigit = false := by
  have hstatements := Recovered.readStatements_eq_iff.1 (File.read_parse text).1.symm
  obtain ⟨us, rest, hderived, hsub⟩ := hstatements.exists_value ha hvalue
  have htoken := hsub (Recovered.holdsLiterals_of_value hderived span digits hmem)
  obtain ⟨r, hr, hrt⟩ := List.mem_map.1 htoken
  obtain ⟨before, run, behind, htext, hspan, hspelled, -⟩ :=
    (TokenStream.tiled text).exists_spelling hr
  rw [hrt] at hspan hspelled
  obtain ⟨hrun, hne, hdigits, hbehind⟩ := hspelled
  refine ⟨before, run, behind, htext, hspan, ?_, ⟨hne, hdigits⟩, hbehind⟩
  rw [hrun, String.ofList_toList]

/-- An integer literal stands for the double nearest to the number that the digits under its
span write, and reading these digits does not fail. Zeros in front do not matter, numbers up to
2⁵³ are exact, and a larger number never has a smaller value. -/
theorem literals_rounded (text : Text) :
    (∀ a ∈ (File.parse text).file.assignments, ∀ value ∈ a.value?, ∀ span digits,
      Node.integer span digits ∈ value.postorder →
      ∃ before run behind, text = before ++ (run ++ behind) ∧
        span = ⟨Position.after {} before, Position.after {} (before ++ run)⟩ ∧
        IsDigitRun run ∧ (∀ c ∈ behind.head?, c.isDigit = false) ∧
        Double.read? run = some (.signed false (literalBits digits)) ∧
        ∀ bits, Binary64.RoundsTo (decimalValue run) bits ↔ bits = literalBits digits) ∧
    ∀ run : Text,
      (∀ k, literalBits (String.ofList (List.replicate k '0' ++ run)) =
        literalBits (String.ofList run)) ∧
      (decimalValue run ≤ 2 ^ 53 →
        Binary64.toRat (literalBits (String.ofList run)) = decimalValue run) ∧
      ∀ run' : Text, decimalValue run ≤ decimalValue run' →
        Binary64.value (literalBits (String.ofList run)) ≤
          Binary64.value (literalBits (String.ofList run')) := by
  refine ⟨fun a ha value hvalue span digits hmem => ?_, fun run => ⟨fun k => ?_, fun h => ?_,
    fun run' h => value_literalBits_le h⟩⟩
  · obtain ⟨before, run, behind, htext, hspan, rfl, hrun, hbehind⟩ :=
      File.exists_digits text ha hvalue hmem
    refine ⟨before, run, behind, htext, hspan, hrun, hbehind, ?_, ?_⟩
    · rw [Double.read?_digits hrun, literalBits_ofList]
    · intro bits
      rw [literalBits_ofList]
      have hrounds := Binary64.roundsTo_ofNat (decimalValue run)
      exact ⟨fun h => h.unique hrounds, fun h => h ▸ hrounds⟩
  · rw [literalBits_ofList, literalBits_ofList, decimalValue_leadingZeros]
  · rw [literalBits_ofList, Binary64.toRat_ofNat h]

end AssignLang
