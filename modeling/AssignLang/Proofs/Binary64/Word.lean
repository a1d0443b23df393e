import Mathlib.Algebra.Order.Field.Power
import Mathlib.Algebra.Order.Ring.Rat
import Mathlib.Algebra.Ring.Parity
import Mathlib.Tactic.Positivity
import Mathlib.Tactic.Ring
import AssignLang.Binary64

/-! What the 64 bits of a double say. A word has a sign, an exponent and a fraction; a finite
one is a whole number of units, the significand with binary places behind it. The same number
of places gives a grid, and every word that is large enough for a grid lies on it. -/

namespace AssignLang

theorem twoPow_eq (n : Nat) : twoPow n = 2 ^ n := rfl

namespace Binary64

def isNegative (w : Nat) : Bool := w / 2 ^ 63 % 2 = 1

def exponentField (w : Nat) : Nat := w / 2 ^ 52 % 2 ^ 11

def fraction (w : Nat) : Nat := w % 2 ^ 52

/-- A word that is a number, not an infinity and not a NaN. -/
structure IsFinite (w : Nat) : Prop where
  lt : w < 2 ^ 64
  field : exponentField w ≠ 0x7FF

/-- The number that a finite word stands for. -/
def toRat (w : Nat) : ℚ :=
  (if isNegative w then -1 else 1) *
    if exponentField w = 0 then (2 : ℚ) ^ (-1022 : ℤ) * (fraction w / 2 ^ 52)
    else (2 : ℚ) ^ ((exponentField w : ℤ) - 1023) * (1 + fraction w / 2 ^ 52)

/-- The binary digits of a word as a whole number. The leading digit is not stored, but a word
whose exponent field is zero has none. -/
def significand (w : Nat) : Nat :=
  if exponentField w = 0 then fraction w else 2 ^ 52 + fraction w

/-- The size of a finite word in units, whatever its sign. -/
def magnitude (w : Nat) : Nat := significand w * 2 ^ (exponentField w - 1)

theorem infinity_eq : infinity = 0x7FF * 2 ^ 52 := rfl

theorem not_isFinite_infinity : ¬ IsFinite infinity := fun h => h.field (by decide)

theorem significand_lt (w : Nat) : significand w < 2 ^ 53 := by
  have hlt : fraction w < 2 ^ 52 := Nat.mod_lt w (Nat.two_pow_pos 52)
  rw [significand]
  split <;> omega

theorem toRat_eq (w : Nat) :
    toRat w = (if isNegative w then -1 else 1) * (magnitude w / 2 ^ 1074 : ℚ) := by
  have hunit : (2 : ℚ) ^ 1074 = 2 ^ 1022 * 2 ^ 52 := by rw [← pow_add]
  rw [toRat, magnitude, significand, hunit]
  congr 1
  split
  · rename_i hfield
    have hexponent : (2 : ℚ) ^ (-1022 : ℤ) = (2 ^ 1022)⁻¹ := by
      rw [← zpow_natCast, ← zpow_neg]
      rfl
    rw [hexponent, hfield]
    generalize (2 : ℚ) ^ 1022 = b
    push_cast
    ring
  · rename_i hfield
    obtain ⟨n, hn⟩ := Nat.exists_eq_succ_of_ne_zero hfield
    have hexponent : (2 : ℚ) ^ ((exponentField w : ℤ) - 1023) = 2 ^ n / 2 ^ 1022 := by
      rw [hn, ← zpow_natCast, ← zpow_natCast, ← zpow_sub₀ two_ne_zero]
      congr 1
      push_cast
      ring
    rw [hexponent, hn, Nat.succ_sub_one]
    generalize (2 : ℚ) ^ 1022 = b
    push_cast
    ring

theorem toRat_of_positive {w : Nat} (h : isNegative w = false) :
    toRat w = magnitude w / 2 ^ 1074 := by
  rw [toRat_eq, h, if_neg Bool.false_ne_true, one_mul]

theorem isFinite_of_lt {w : Nat} (h : w < infinity) : IsFinite w := by
  rw [infinity_eq] at h
  refine ⟨by omega, ?_⟩
  rw [exponentField]
  omega

theorem isNegative_of_lt {w : Nat} (h : w < infinity) : isNegative w = false := by
  rw [infinity_eq] at h
  rw [isNegative, decide_eq_false_iff_not]
  omega

theorem IsFinite.lt_infinity {w : Nat} (h : IsFinite w) (hpositive : isNegative w = false) :
    w < infinity := by
  obtain ⟨hlt, hfield⟩ := h
  rw [exponentField] at hfield
  rw [isNegative, decide_eq_false_iff_not] at hpositive
  rw [infinity_eq]
  omega

/-- The digit that is not stored is even wherever it stands, and so are exponent and sign. -/
theorem even_significand_iff (w : Nat) : Even (significand w) ↔ Even w := by
  rw [significand, fraction, Nat.even_iff, Nat.even_iff]
  split <;> omega

theorem isFinite_zero : IsFinite 0 := ⟨by decide, by decide⟩

theorem toRat_zero : toRat 0 = 0 := by
  have hzero : magnitude 0 = 0 := by decide
  rw [toRat_of_positive (by decide), hzero, Nat.cast_zero, zero_div]

/-- A word that is not below the full significands with `k` places has `k` places itself. -/
theorem dvd_magnitude {w k : Nat} (h : 2 ^ (52 + k) ≤ magnitude w) : 2 ^ k ∣ magnitude w := by
  have hlt : magnitude w < 2 ^ (53 + (exponentField w - 1)) := by
    rw [Nat.pow_add]
    exact Nat.mul_lt_mul_of_pos_right (significand_lt w) (Nat.two_pow_pos _)
  have hk := (Nat.pow_lt_pow_iff_right (by omega)).1 (Nat.lt_of_le_of_lt h hlt)
  exact Nat.dvd_mul_left_of_dvd (Nat.pow_dvd_pow 2 (by omega)) _

section Assembled

variable {k q : Nat}

/-- A word put together from places and significand. The leading digit of the significand
counts as one place more, and a significand with a digit too many carries into the exponent. -/
theorem fields_assembled (hq : q ≤ 2 ^ 53) (hk : k = 0 ∨ 2 ^ 52 ≤ q)
    (h : k * 2 ^ 52 + q < infinity) :
    (exponentField (k * 2 ^ 52 + q) = 0 ∧ k = 0 ∧ fraction (k * 2 ^ 52 + q) = q) ∨
    (exponentField (k * 2 ^ 52 + q) = k + 1 ∧ 2 ^ 52 + fraction (k * 2 ^ 52 + q) = q) ∨
    (exponentField (k * 2 ^ 52 + q) = k + 2 ∧ fraction (k * 2 ^ 52 + q) = 0 ∧ q = 2 ^ 53) := by
  rw [infinity_eq] at h
  rw [exponentField, fraction]
  omega

theorem magnitude_assembled (hq : q ≤ 2 ^ 53) (hk : k = 0 ∨ 2 ^ 52 ≤ q)
    (h : k * 2 ^ 52 + q < infinity) : magnitude (k * 2 ^ 52 + q) = q * 2 ^ k := by
  rw [magnitude, significand]
  rcases fields_assembled hq hk h with ⟨hfield, rfl, hfraction⟩ | ⟨hfield, hfraction⟩ |
    ⟨hfield, hfraction, rfl⟩
  · rw [hfield, hfraction, if_pos rfl]
  · rw [hfield, hfraction, if_neg (by omega), Nat.add_sub_cancel]
  · rw [hfield, hfraction, if_neg (by omega), Nat.add_succ_sub_one, Nat.pow_succ]
    omega

end Assembled

theorem exists_assembled (w : Nat) :
    ∃ k q, w = k * 2 ^ 52 + q ∧ q < 2 ^ 53 ∧ (k = 0 ∨ 2 ^ 52 ≤ q) := by
  rcases Nat.lt_or_ge w (2 ^ 52) with hw | hw
  · exact ⟨0, w, by omega, by omega, .inl rfl⟩
  · exact ⟨w / 2 ^ 52 - 1, 2 ^ 52 + w % 2 ^ 52, by omega, by omega, .inr (by omega)⟩

theorem magnitude_lt_succ {w : Nat} (h : w + 1 < infinity) : magnitude w < magnitude (w + 1) := by
  obtain ⟨k, q, rfl, hq, hk⟩ := exists_assembled w
  rw [Nat.add_assoc] at h ⊢
  rw [magnitude_assembled hq.le hk (by omega), magnitude_assembled hq (by omega) h]
  exact Nat.mul_lt_mul_of_pos_right (Nat.lt_succ_self q) (Nat.two_pow_pos k)

theorem toRat_lt {v w : Nat} (h : v < w) (hw : w < infinity) : toRat v < toRat w := by
  have hmagnitude : magnitude v < magnitude w := by
    induction w, h using Nat.le_induction with
    | base => exact magnitude_lt_succ hw
    | succ w _ ih => exact (ih (by omega)).trans (magnitude_lt_succ hw)
  have hunit : (0 : ℚ) < 2 ^ 1074 := pow_pos two_pos _
  rw [toRat_of_positive (isNegative_of_lt (h.trans hw)), toRat_of_positive (isNegative_of_lt hw)]
  exact div_lt_div_of_pos_right (Nat.cast_lt.2 hmagnitude) hunit

theorem exists_toRat_eq {n : Nat} (hn : n ≤ 2 ^ 53) : ∃ w, IsFinite w ∧ toRat w = n := by
  rcases Nat.eq_zero_or_pos n with rfl | hpos
  · exact ⟨0, isFinite_zero, by rw [toRat_zero, Nat.cast_zero]⟩
  -- places in front are taken up until the significand is full
  obtain ⟨j, hj, hfull, hle⟩ : ∃ j ≤ 52, 2 ^ 52 ≤ n * 2 ^ j ∧ n * 2 ^ j ≤ 2 ^ 53 := by
    have hlow := Nat.log2_self_le hpos.ne'
    have hhigh := Nat.lt_log2_self (n := n)
    rcases Nat.lt_or_ge 52 n.log2 with hlog | hlog
    · have := pow_le_pow_right₀ (one_le_two (α := ℕ)) hlog
      exact ⟨0, by omega, by omega, by omega⟩
    · have hfill : 2 ^ n.log2 * 2 ^ (52 - n.log2) = 2 ^ 52 := by rw [← Nat.pow_add]; congr 1; omega
      have hlow := Nat.mul_le_mul_right (2 ^ (52 - n.log2)) hlow
      have hhigh := Nat.mul_le_mul_right (2 ^ (52 - n.log2)) hhigh.le
      rw [Nat.pow_succ, Nat.mul_right_comm, hfill] at hhigh
      exact ⟨52 - n.log2, by omega, by omega, by omega⟩
  have hfinite : (1074 - j) * 2 ^ 52 + n * 2 ^ j < infinity := by
    rw [infinity_eq]
    omega
  refine ⟨_, isFinite_of_lt hfinite, ?_⟩
  have hunits : ∀ m, j ≤ m → n * 2 ^ j * 2 ^ (m - j) = n * 2 ^ m := by
    intro m hm
    rw [Nat.mul_assoc, ← Nat.pow_add, Nat.add_sub_of_le hm]
  have hunit : (2 : ℚ) ^ 1074 ≠ 0 := pow_ne_zero _ two_ne_zero
  rw [toRat_of_positive (isNegative_of_lt hfinite),
    magnitude_assembled hle (.inr hfull) hfinite, hunits 1074 (by omega), Nat.cast_mul,
    Nat.cast_pow, Nat.cast_ofNat, mul_div_cancel_right₀ _ hunit]

end Binary64

end AssignLang
