import Mathlib.Order.WithBot
import Mathlib.Tactic.FieldSimp
import Mathlib.Tactic.Linarith
import AssignLang.Proofs.Binary64.Word

/-! Correct rounding. The word computed for a quotient is the one that the rule of rounding asks
for: the nearest of all words, of two equally near the one with the even significand, and
infinity from the point on that lies halfway between the largest double and the next power of
two. Whatever keeps to the rule keeps the order of numbers and does not touch a number that is
a word. -/

namespace AssignLang

/-- The natural number nearest to a quotient; of two that are equally near, the even one. -/
structure IsRounded (num den q : Nat) : Prop where
  above : 2 * num ≤ (2 * q + 1) * den
  below : 2 * q * den ≤ 2 * num + den
  tieAbove : 2 * num = (2 * q + 1) * den → Even q
  tieBelow : 2 * q * den = 2 * num + den → Even q

theorem isRounded_roundDiv (num : Nat) {den : Nat} (hden : 0 < den) :
    IsRounded num den (roundDiv num den) := by
  have hdiv := Nat.div_add_mod num den
  have hmod := Nat.mod_lt num hden
  rw [roundDiv]
  generalize num / den = m at *
  generalize num % den = r at *
  split
  · constructor
    · rw [Nat.add_mul, Nat.mul_assoc, Nat.mul_comm m]
      omega
    · rw [Nat.mul_assoc, Nat.mul_comm m]
      omega
    · rw [Nat.add_mul, Nat.mul_assoc, Nat.mul_comm m, Nat.even_iff]
      omega
    · rw [Nat.mul_assoc, Nat.mul_comm m, Nat.even_iff]
      omega
  · constructor
    · rw [Nat.add_mul, Nat.mul_assoc, Nat.mul_comm (m + 1), Nat.mul_succ]
      omega
    · rw [Nat.mul_assoc, Nat.mul_comm (m + 1), Nat.mul_succ]
      omega
    · rw [Nat.add_mul, Nat.mul_assoc, Nat.mul_comm (m + 1), Nat.mul_succ, Nat.even_iff]
      omega
    · rw [Nat.mul_assoc, Nat.mul_comm (m + 1), Nat.mul_succ, Nat.even_iff]
      omega

namespace IsRounded

variable {num den q m : Nat}

theorem le_of_lt (h : IsRounded num den q) (hm : 2 * num < (2 * m + 1) * den) : q ≤ m := by
  have hlt : 2 * q * den < (2 * m + 2) * den := by
    have hbelow := h.below
    rw [Nat.add_mul] at hm ⊢
    omega
  have := Nat.lt_of_mul_lt_mul_right hlt
  omega

theorem le_of_le (h : IsRounded num den q) (hden : 0 < den) (hm : m * den ≤ num) : m ≤ q := by
  have hle : 2 * m * den ≤ (2 * q + 1) * den := by
    have habove := h.above
    rw [Nat.mul_assoc]
    omega
  have := Nat.le_of_mul_le_mul_right hle hden
  omega

theorem lt_of_tie (h : IsRounded num den q) (hden : 0 < den)
    (hm : (2 * m + 1) * den ≤ 2 * num) (hodd : ¬ Even m) : m < q := by
  have hle : m ≤ q := h.le_of_le hden (by rw [Nat.add_mul, Nat.mul_assoc] at hm; omega)
  refine Nat.lt_of_le_of_ne hle ?_
  rintro rfl
  exact hodd (h.tieAbove (Nat.le_antisymm h.above hm))

/-- No other multiple of the denominator is nearer, and if another is as near then the
multiplier is even. -/
theorem dist_le (h : IsRounded num den q) (hden : 0 < den) (r : Nat) :
    |(q * den : ℤ) - num| ≤ |(r * den : ℤ) - num| ∧
      (r ≠ q → |(r * den : ℤ) - num| = |(q * den : ℤ) - num| → Even q) := by
  obtain ⟨habove, hbelow, htieAbove, htieBelow⟩ := h
  rw [Nat.add_mul, Nat.mul_assoc] at habove htieAbove
  rw [Nat.mul_assoc] at hbelow htieBelow
  simp only [Int.abs_eq_natAbs]
  rcases Nat.lt_trichotomy r q with hlt | rfl | hlt
  · have hstep : (r + 1) * den ≤ q * den := Nat.mul_le_mul_right den hlt
    rw [Nat.add_mul] at hstep
    exact ⟨by omega, fun _ heq => htieBelow (by omega)⟩
  · exact ⟨le_refl _, fun hne => absurd rfl hne⟩
  · have hstep : (q + 1) * den ≤ r * den := Nat.mul_le_mul_right den hlt
    rw [Nat.add_mul] at hstep
    exact ⟨by omega, fun _ heq => htieAbove (by omega)⟩

end IsRounded

namespace Binary64

/-- A quotient, in units, rounded to `q` with `k` binary places behind. There are no more
places than it takes for `q` to fit in the significand. -/
structure IsScaled (num den k q : Nat) : Prop where
  rounded : IsRounded num (den * 2 ^ k) q
  below : num < 2 ^ 53 * (den * 2 ^ k)
  above : k = 0 ∨ 2 ^ 52 * (den * 2 ^ k) ≤ num

theorem isScaled_roundDiv (num : Nat) {den : Nat} (hden : 0 < den) :
    IsScaled (num * 2 ^ 1074) den (excess num den)
      (roundDiv (num * 2 ^ 1074) (den * 2 ^ excess num den)) := by
  have hexcess : excess num den = (num * 2 ^ 1074 / den).log2 - 52 := by
    simp only [excess, units, twoPow_eq]
  have hplace : ∀ n m, 2 ^ n * (den * 2 ^ m) = 2 ^ (n + m) * den := by
    intro n m
    rw [Nat.pow_add]
    ring
  refine ⟨isRounded_roundDiv _ (Nat.mul_pos hden (Nat.two_pow_pos _)), ?_, ?_⟩
  · rw [hplace, ← Nat.div_lt_iff_lt_mul hden]
    exact Nat.lt_of_lt_of_le Nat.lt_log2_self (pow_le_pow_right₀ one_le_two (by omega))
  · rw [hplace, ← Nat.le_div_iff_mul_le hden]
    refine or_iff_not_imp_left.2 fun hne => ?_
    have hlog : 52 + excess num den = (num * 2 ^ 1074 / den).log2 := by omega
    rw [hlog]
    refine Nat.log2_self_le fun hzero => hne ?_
    rw [hexcess, hzero]
    rfl

namespace IsScaled

variable {num den k q : Nat}

theorem le (h : IsScaled num den k q) : q ≤ 2 ^ 53 := by
  refine h.rounded.le_of_lt ?_
  have hbelow := h.below
  rw [Nat.add_mul]
  omega

theorem zero_or_le (h : IsScaled num den k q) (hden : 0 < den) : k = 0 ∨ 2 ^ 52 ≤ q :=
  h.above.imp_right (h.rounded.le_of_le (Nat.mul_pos hden (Nat.two_pow_pos k)))

/-- Infinity begins with the midpoint between the largest double and the next power of two: that
tie goes to the power, whose significand is even. -/
theorem lt_infinity_iff (h : IsScaled num den k q) (hden : 0 < den) :
    k * 2 ^ 52 + q < infinity ↔ num < (2 ^ 54 - 1) * (den * 2 ^ 2044) := by
  have hq := h.le
  have hk := h.zero_or_le hden
  have hplace : ∀ n, 0 < den * 2 ^ n := fun n => Nat.mul_pos hden (Nat.two_pow_pos n)
  have htop := hplace 2044
  have hdouble : ∀ m n, m = n + 1 → den * 2 ^ m = 2 * (den * 2 ^ n) := by
    rintro m n rfl
    ring
  rw [infinity_eq]
  rcases Nat.lt_trichotomy k 2045 with hlt | rfl | hlt
  · have hpow : den * 2 ^ k ≤ den * 2 ^ 2044 :=
      Nat.mul_le_mul_left den (pow_le_pow_right₀ one_le_two (by omega))
    have hbelow := h.below
    constructor <;> omega
  · have hrounded := h.rounded
    rw [hdouble 2045 2044 rfl] at hrounded
    constructor
    · intro hfinite
      by_contra hlarge
      have := hrounded.lt_of_tie (m := 2 ^ 53 - 1) (by omega) (by omega) (by decide)
      omega
    · intro hsmall
      have := hrounded.le_of_lt (m := 2 ^ 53 - 1) (by omega)
      omega
  · have hpow : den * 2 ^ 2046 ≤ den * 2 ^ k :=
      Nat.mul_le_mul_left den (pow_le_pow_right₀ one_le_two hlt)
    rw [hdouble 2046 2045 rfl, hdouble 2045 2044 rfl] at hpow
    have habove := h.above
    constructor <;> omega

/-- No word is nearer to the quotient than `q` with its places. Words with fewer places are all
below the least full significand with `k` places, which is no nearer than `q` is. -/
theorem dist_le (h : IsScaled num den k q) (hden : 0 < den) (w : Nat) :
    |((q * 2 ^ k : ℕ) * den : ℤ) - num| ≤ |(magnitude w * den : ℤ) - num| ∧
      (magnitude w ≠ q * 2 ^ k → |(magnitude w * den : ℤ) - num| =
        |((q * 2 ^ k : ℕ) * den : ℤ) - num| → Even q) := by
  have hplace : ∀ r : ℕ, ((r * 2 ^ k : ℕ) * den : ℤ) = r * (den * 2 ^ k : ℕ) := by
    intro r
    push_cast
    ring
  have hpos : 0 < den * 2 ^ k := Nat.mul_pos hden (Nat.two_pow_pos k)
  by_cases hdvd : 2 ^ k ∣ magnitude w
  · obtain ⟨r, hr⟩ := hdvd
    rw [hr, Nat.mul_comm (2 ^ k) r, hplace, hplace]
    obtain ⟨hle, heven⟩ := h.rounded.dist_le hpos r
    refine ⟨hle, fun hne => heven ?_⟩
    rintro rfl
    exact hne rfl
  · have hlt : magnitude w < 2 ^ (52 + k) := Nat.lt_of_not_le fun hle => hdvd (dvd_magnitude hle)
    rcases h.above with rfl | habove
    · exact absurd (one_dvd _) hdvd
    have hmul : magnitude w * den < 2 ^ 52 * (den * 2 ^ k) := by
      calc magnitude w * den < 2 ^ (52 + k) * den := Nat.mul_lt_mul_of_pos_right hlt hden
        _ = 2 ^ 52 * (den * 2 ^ k) := by rw [Nat.pow_add]; ring
    have hleast := (h.rounded.dist_le hpos (2 ^ 52)).1
    rw [hplace]
    generalize den * 2 ^ k = place at *
    simp only [Int.abs_eq_natAbs] at hleast ⊢
    exact ⟨by omega, fun _ heq => by omega⟩

end IsScaled

/-- A word with a positive sign, such that no word is nearer to the number `x`, and that has an
even significand if another number is as near. -/
structure IsNearest (x : ℚ) (w : Nat) : Prop where
  finite : IsFinite w
  positive : isNegative w = false
  nearest : ∀ v, IsFinite v → |toRat w - x| ≤ |toRat v - x|
  even : ∀ v, IsFinite v → toRat v ≠ toRat w → |toRat v - x| = |toRat w - x| →
    Even (significand w)

/-- The word that a number, which is not negative, is rounded to: the nearest, and infinity from
halfway between the largest double and the next power of two on. -/
structure RoundsTo (x : ℚ) (w : Nat) : Prop where
  large : 2 ^ 1024 - 2 ^ 970 ≤ x → w = infinity
  small : x < 2 ^ 1024 - 2 ^ 970 → IsNearest x w

/-- What a word with a positive sign stands for; infinity is above all numbers. -/
def value (w : Nat) : WithTop ℚ := if w = infinity then ⊤ else toRat w

theorem cast_two_pow (n : Nat) : ((2 ^ n : ℕ) : ℚ) = 2 ^ n := by
  push_cast
  rfl

theorem abs_units_sub (m num : Nat) {den : Nat} (hden : 0 < den) :
    |(m / 2 ^ 1074 - num / den : ℚ)| =
      (|(m * den : ℤ) - (num * 2 ^ 1074 : ℕ)| : ℤ) / (2 ^ 1074 * den) := by
  have hunit : (0 : ℚ) < 2 ^ 1074 := pow_pos two_pos _
  have hden' : (0 : ℚ) < den := Nat.cast_pos.2 hden
  rw [Int.cast_abs, Int.cast_sub, Int.cast_natCast, Nat.cast_mul, cast_two_pow]
  generalize (2 : ℚ) ^ 1074 = unit at *
  rw [← abs_of_pos (mul_pos hunit hden'), ← abs_div]
  congr 1
  push_cast
  field_simp

theorem abs_magnitude_sub_le (w : Nat) {x : ℚ} (hx : 0 ≤ x) :
    |(magnitude w / 2 ^ 1074 : ℚ) - x| ≤ |toRat w - x| := by
  rw [toRat_eq]
  have hm : (0 : ℚ) ≤ magnitude w / 2 ^ 1074 := by positivity
  generalize (magnitude w / 2 ^ 1074 : ℚ) = m at *
  split
  · rw [neg_one_mul, abs_of_nonpos (a := -m - x) (by linarith), abs_le]
    constructor <;> linarith
  · rw [one_mul]

theorem toRat_eq_of_magnitude {v w : Nat} {x : ℚ} (hx : 0 ≤ x) (hw : isNegative w = false)
    (hsize : magnitude v = magnitude w) (hzero : |toRat w - x| ≤ |toRat 0 - x|)
    (heq : |toRat v - x| = |toRat w - x|) : toRat v = toRat w := by
  rw [toRat_zero, zero_sub, abs_neg, abs_of_nonneg hx, toRat_of_positive hw] at hzero
  rw [toRat_eq v, hsize, toRat_of_positive hw] at heq ⊢
  have hm : (0 : ℚ) ≤ magnitude w / 2 ^ 1074 := by positivity
  generalize (magnitude w / 2 ^ 1074 : ℚ) = m at *
  split at heq
  · rename_i hnegative
    rw [neg_one_mul, abs_of_nonpos (a := -m - x) (by linarith)] at heq
    rw [if_pos hnegative]
    linarith
  · rename_i hpositive
    rw [if_neg hpositive, one_mul]

theorem IsScaled.isNearest {num den k q : Nat} (h : IsScaled (num * 2 ^ 1074) den k q)
    (hden : 0 < den) (hfinite : k * 2 ^ 52 + q < infinity) :
    IsNearest (num / den) (k * 2 ^ 52 + q) := by
  have hq := h.le
  have hk := h.zero_or_le hden
  have hpositive := isNegative_of_lt hfinite
  have hx : (0 : ℚ) ≤ num / den := by positivity
  have hscale : (0 : ℚ) < 2 ^ 1074 * den :=
    mul_pos (pow_pos two_pos _) (Nat.cast_pos.2 hden)
  have hunits : ∀ v, |(magnitude (k * 2 ^ 52 + q) / 2 ^ 1074 : ℚ) - num / den| ≤
        |(magnitude v / 2 ^ 1074 : ℚ) - num / den| ∧
      (magnitude v ≠ magnitude (k * 2 ^ 52 + q) →
        |(magnitude v / 2 ^ 1074 : ℚ) - num / den| =
          |(magnitude (k * 2 ^ 52 + q) / 2 ^ 1074 : ℚ) - num / den| → Even q) := by
    intro v
    obtain ⟨hle, heven⟩ := h.dist_le hden v
    rw [abs_units_sub _ _ hden, abs_units_sub _ _ hden, magnitude_assembled hq hk hfinite]
    refine ⟨div_le_div_of_nonneg_right (Int.cast_le.2 hle) hscale.le, fun hne heq => ?_⟩
    exact heven hne (Int.cast_injective ((div_left_inj' hscale.ne').1 heq))
  have hnearest : ∀ v, |toRat (k * 2 ^ 52 + q) - num / den| ≤ |toRat v - num / den| := by
    intro v
    rw [toRat_of_positive hpositive]
    exact (hunits v).1.trans (abs_magnitude_sub_le v hx)
  have heven : Even q → Even (significand (k * 2 ^ 52 + q)) := by
    rw [even_significand_iff, Nat.even_iff, Nat.even_iff]
    omega
  refine ⟨isFinite_of_lt hfinite, hpositive, fun v _ => hnearest v, fun v _ hne heq => ?_⟩
  refine heven ((hunits v).2 (fun hsize => hne ?_) ?_)
  · exact toRat_eq_of_magnitude hx hpositive hsize (hnearest 0) heq
  · refine le_antisymm ?_ (hunits v).1
    rw [← toRat_of_positive hpositive, ← heq]
    exact abs_magnitude_sub_le v hx

theorem lt_limit_iff (num : Nat) {den : Nat} (hden : 0 < den) :
    (num / den : ℚ) < 2 ^ 1024 - 2 ^ 970 ↔
      num * 2 ^ 1074 < (2 ^ 54 - 1) * (den * 2 ^ 2044) := by
  have hden' : (0 : ℚ) < den := Nat.cast_pos.2 hden
  have hunit : (0 : ℚ) < 2 ^ 1074 := pow_pos two_pos _
  have hlimit : (2 : ℚ) ^ 1024 = 2 ^ 54 * 2 ^ 970 := by rw [← pow_add]
  have htop : (2 : ℚ) ^ 2044 = 2 ^ 970 * 2 ^ 1074 := by rw [← pow_add]
  have hodd : ((2 ^ 54 - 1 : ℕ) : ℚ) = 2 ^ 54 - 1 := by norm_num
  rw [div_lt_iff₀ hden', hlimit, ← Nat.cast_lt (α := ℚ), ← mul_lt_mul_iff_left₀ hunit,
    Nat.cast_mul, Nat.cast_mul, Nat.cast_mul, cast_two_pow, cast_two_pow, htop, hodd]
  generalize (2 : ℚ) ^ 970 = a
  generalize (2 : ℚ) ^ 1074 = b
  rw [show (2 ^ 54 * a - a) * den * b = (2 ^ 54 - 1) * (den * (a * b)) by ring]

/-- The word of a quotient is the one that it is rounded to. -/
theorem roundsTo_ofRatio (num : Nat) {den : Nat} (hden : 0 < den) :
    RoundsTo (num / den) (ofRatio num den) := by
  have hscaled := isScaled_roundDiv num hden
  have hfinite := (hscaled.lt_infinity_iff hden).trans (lt_limit_iff num hden).symm
  simp only [ofRatio, twoPow_eq]
  constructor
  · intro hlarge
    exact min_eq_left (Nat.not_lt.1 fun hlt => (hfinite.1 hlt).not_ge hlarge)
  · intro hsmall
    rw [min_eq_right (hfinite.2 hsmall).le]
    exact hscaled.isNearest hden (hfinite.2 hsmall)

theorem roundsTo_ofNat (n : Nat) : RoundsTo n (ofNat n) := by
  have hrounds := roundsTo_ofRatio n Nat.one_pos
  rwa [Nat.cast_one, div_one] at hrounds

example : ofNat (2 ^ 53 + 1) = ofNat (2 ^ 53) ∧ ofNat (2 ^ 53 + 3) = ofNat (2 ^ 53 + 4) := by
  decide +kernel

namespace IsNearest

variable {x y : ℚ} {v w : Nat}

theorem value_eq (h : IsNearest x w) : value w = toRat w := by
  refine if_neg ?_
  rintro rfl
  exact not_isFinite_infinity h.finite

theorem toRat_eq_of_isFinite (h : IsNearest (toRat v) w) (hv : IsFinite v) :
    toRat w = toRat v := by
  have hle := h.nearest v hv
  rw [sub_self, abs_zero] at hle
  exact sub_eq_zero.1 (abs_nonpos_iff.1 hle)

/-- If the order were turned round, both numbers would lie beyond the midpoint. -/
theorem toRat_le (hv : IsNearest x v) (hw : IsNearest y w) (h : x < y) : toRat v ≤ toRat w := by
  have hx := hv.nearest w hw.finite
  have hy := hw.nearest v hv.finite
  generalize toRat v = a at *
  generalize toRat w = b at *
  by_contra hlt
  have hmidpoint : a + b ≤ 2 * x := by
    rcases abs_cases (a - x) with ⟨ha, _⟩ | ⟨ha, _⟩ <;>
      rcases abs_cases (b - x) with ⟨hb, _⟩ | ⟨hb, _⟩ <;> linarith
  have hmidpoint' : 2 * y ≤ a + b := by
    rcases abs_cases (a - y) with ⟨ha, _⟩ | ⟨ha, _⟩ <;>
      rcases abs_cases (b - y) with ⟨hb, _⟩ | ⟨hb, _⟩ <;> linarith
  linarith

/-- Of two nearest words the number is halfway between both. Then no word stands between them,
and one of two neighbours is odd. -/
theorem not_lt (hv : IsNearest x v) (hw : IsNearest x w) : ¬ v < w := by
  intro hlt
  have hinfinity := hw.finite.lt_infinity hw.positive
  have hvalue : toRat v < toRat w := toRat_lt hlt hinfinity
  have heq : |toRat v - x| = |toRat w - x| :=
    le_antisymm (hv.nearest w hw.finite) (hw.nearest v hv.finite)
  rcases Nat.eq_or_lt_of_le (Nat.succ_le_of_lt hlt) with rfl | hbetween
  · have hevenLeft := hv.even _ hw.finite hvalue.ne' heq.symm
    have hevenRight := hw.even _ hv.finite hvalue.ne heq
    rw [even_significand_iff, Nat.even_iff] at hevenLeft hevenRight
    omega
  · have hlow : toRat v < toRat (v + 1) := toRat_lt (Nat.lt_succ_self v) (by omega)
    have hhigh : toRat (v + 1) < toRat w := toRat_lt hbetween hinfinity
    have hnearest := hv.nearest (v + 1) (isFinite_of_lt (by omega))
    generalize toRat v = a at *
    generalize toRat w = b at *
    generalize toRat (v + 1) = m at *
    rcases abs_cases (a - x) with ⟨ha, _⟩ | ⟨ha, _⟩ <;>
      rcases abs_cases (b - x) with ⟨hb, _⟩ | ⟨hb, _⟩ <;>
        rcases abs_cases (m - x) with ⟨hm, _⟩ | ⟨hm, _⟩ <;> linarith

theorem unique (hv : IsNearest x v) (hw : IsNearest x w) : v = w :=
  Nat.le_antisymm (Nat.not_lt.1 (hw.not_lt hv)) (Nat.not_lt.1 (hv.not_lt hw))

end IsNearest

theorem RoundsTo.unique {x : ℚ} {v w : Nat} (hv : RoundsTo x v) (hw : RoundsTo x w) : v = w := by
  rcases le_or_gt (2 ^ 1024 - 2 ^ 970) x with hx | hx
  · rw [hv.large hx, hw.large hx]
  · exact (hv.small hx).unique (hw.small hx)

theorem RoundsTo.value_le {x y : ℚ} {v w : Nat} (hv : RoundsTo x v) (hw : RoundsTo y w)
    (h : x ≤ y) : value v ≤ value w := by
  rcases h.eq_or_lt with rfl | h
  · rw [hv.unique hw]
  rcases le_or_gt (2 ^ 1024 - 2 ^ 970) y with hy | hy
  · rw [hw.large hy, value, value, if_pos rfl]
    exact le_top
  · have hv := hv.small (h.trans hy)
    have hw := hw.small hy
    rw [hv.value_eq, hw.value_eq, WithTop.coe_le_coe]
    exact hv.toRat_le hw h

theorem ofNat_zero : ofNat 0 = 0 := by
  have hround : ∀ den, roundDiv 0 den = 0 := by
    intro den
    rw [roundDiv, Nat.zero_mod, Nat.zero_div]
    rcases Nat.eq_zero_or_pos den with rfl | hden
    · rfl
    · exact if_pos (.inl hden)
  simp [ofNat, ofRatio, excess, units, hround]

theorem toRat_ofNat {n : Nat} (hn : n ≤ 2 ^ 53) : toRat (ofNat n) = n := by
  obtain ⟨v, hv, hn'⟩ := exists_toRat_eq hn
  have hsmall : (n : ℚ) < 2 ^ 1024 - 2 ^ 970 := by
    calc (n : ℚ) ≤ 2 ^ 53 := by exact_mod_cast hn
      _ < (2 ^ 54 - 1) * 1 := by norm_num
      _ ≤ (2 ^ 54 - 1) * 2 ^ 970 :=
        mul_le_mul_of_nonneg_left (one_le_pow₀ one_le_two) (by norm_num)
      _ = 2 ^ 1024 - 2 ^ 970 := by rw [sub_mul, one_mul, ← pow_add]
  have hnearest := (roundsTo_ofNat n).small hsmall
  rw [← hn'] at hnearest ⊢
  exact hnearest.toRat_eq_of_isFinite hv

end Binary64

end AssignLang
