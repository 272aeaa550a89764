import Mathlib.Tactic.ByContra

namespace IDAPlugins.SignedDivision

/-! # Signed numbers divided as unsigned ones

Where two signed 32-bit numbers are taken for their unsigned values before they are
divided, the quotient and the remainder are often other ones. These are the pairs for which
they stay the same modulo the size of a word.
-/

def Signed (value : Int) : Prop := -2147483648 ≤ value ∧ value < 2147483648

def unsigned (value : Int) : Int := value % 4294967296

theorem unsigned_of_nonneg {value : Int} (range : Signed value) (lower : 0 ≤ value) :
    unsigned value = value := by
  rw [unsigned]
  have := range.2
  omega

theorem unsigned_of_neg {value : Int} (range : Signed value) (upper : value < 0) :
    unsigned value = value + 4294967296 := by
  rw [unsigned]
  have := range.1
  omega

def QuotientKept (a b : Int) : Prop :=
  0 ≤ a ∧ 0 < b ∨ 0 ≤ a ∧ b < 0 ∧ a < -b ∨ a < 0 ∧ b = 1 ∨ a < 0 ∧ b < 0 ∧ a = b

def RemainderKept (a b : Int) : Prop :=
  0 ≤ a ∧ 0 < b ∨ 0 ≤ a ∧ b < 0 ∧ a < -b ∨ a < 0 ∧ 0 < b ∧ b ∣ a ∧ b ∣ 4294967296 ∨
    a < 0 ∧ b < 0 ∧ a = b

variable {a b : Int}

theorem ediv_eq_zero_iff (dividend : 0 ≤ a) (divisor : 0 < b) : a / b = 0 ↔ a < b := by
  constructor
  · intro none
    by_contra smaller
    have := (Int.le_ediv_iff_mul_le divisor).mpr (show 1 * b ≤ a by omega)
    omega
  · intro smaller
    exact Int.ediv_eq_zero_of_lt dividend smaller

theorem quotient_pos_neg (first : Signed a) (second : Signed b) (dividend : 0 ≤ a)
    (divisor : b < 0) :
    unsigned a / unsigned b % 4294967296 = a.tdiv b % 4294967296 ↔ a < -b := by
  have upper := first.2
  have lower := second.1
  rw [unsigned_of_nonneg first dividend, unsigned_of_neg second divisor,
    Int.ediv_eq_zero_of_lt dividend (by omega)]
  have quotient : a.tdiv b = -(a / -b) := by
    rw [← Int.tdiv_eq_ediv_of_nonneg dividend, Int.tdiv_neg, Int.neg_neg]
  have nonneg : 0 ≤ a / -b := Int.ediv_nonneg dividend (by omega)
  have small : a / -b ≤ a := Int.ediv_le_self _ dividend
  rw [quotient, ← ediv_eq_zero_iff dividend (by omega)]
  omega

theorem quotient_neg_pos (first : Signed a) (second : Signed b) (dividend : a < 0)
    (divisor : 0 < b) :
    unsigned a / unsigned b % 4294967296 = a.tdiv b % 4294967296 ↔ b = 1 := by
  have lower := first.1
  have upper := second.2
  rw [unsigned_of_neg first dividend, unsigned_of_nonneg second (Int.le_of_lt divisor)]
  have quotient : a.tdiv b = -(-a / b) := by
    rw [← Int.tdiv_eq_ediv_of_nonneg (by omega), Int.neg_tdiv, Int.neg_neg]
  rw [quotient]
  constructor
  · intro same
    by_contra more
    -- from 2 on the unsigned quotient is positive and below half a word
    have twice : 2 * 2147483648 ≤ b * 2147483648 := by
      apply Int.mul_le_mul_of_nonneg_right <;> omega
    have positive : 1 ≤ (a + 4294967296) / b :=
      (Int.le_ediv_iff_mul_le divisor).mpr (by omega)
    have half : (a + 4294967296) / b < 2147483648 :=
      Int.ediv_lt_of_lt_mul divisor (by omega)
    have nonneg : 0 ≤ -a / b := Int.ediv_nonneg (by omega) (by omega)
    have quarter : -a / b < 2147483648 := Int.ediv_lt_of_lt_mul divisor (by omega)
    omega
  · intro one
    rw [one, Int.ediv_one, Int.ediv_one]
    omega

theorem quotient_neg_neg (first : Signed a) (second : Signed b) (dividend : a < 0)
    (divisor : b < 0) :
    unsigned a / unsigned b % 4294967296 = a.tdiv b % 4294967296 ↔ a = b := by
  have lowerA := first.1
  have lowerB := second.1
  rw [unsigned_of_neg first dividend, unsigned_of_neg second divisor]
  have quotient : a.tdiv b = -a / -b := by
    rw [← Int.tdiv_eq_ediv_of_nonneg (by omega), Int.neg_tdiv_neg]
  rw [quotient]
  rcases Int.lt_trichotomy a b with lower | same | higher
  · -- the magnitude of the dividend is larger
    have zero : (a + 4294967296) / (b + 4294967296) = 0 :=
      Int.ediv_eq_zero_of_lt (by omega) (by omega)
    have positive : 1 ≤ -a / -b := (Int.le_ediv_iff_mul_le (by omega)).mpr (by omega)
    have small : -a / -b ≤ -a := Int.ediv_le_self _ (by omega)
    omega
  · subst same
    rw [Int.ediv_self (by omega), Int.ediv_self (by omega)]
    simp
  · have zero : -a / -b = 0 := Int.ediv_eq_zero_of_lt (by omega) (by omega)
    have positive : 1 ≤ (a + 4294967296) / (b + 4294967296) :=
      (Int.le_ediv_iff_mul_le (by omega)).mpr (by omega)
    have small : (a + 4294967296) / (b + 4294967296) < 2 :=
      Int.ediv_lt_of_lt_mul (by omega) (by omega)
    omega

theorem quotient_iff (first : Signed a) (second : Signed b) (divisor : b ≠ 0) :
    unsigned a / unsigned b % 4294967296 = a.tdiv b % 4294967296 ↔ QuotientKept a b := by
  rcases Int.lt_or_le a 0 with dividend | dividend
  · rcases Int.lt_or_gt_of_ne divisor with negative | positive
    · rw [quotient_neg_neg first second dividend negative, QuotientKept]
      omega
    · rw [quotient_neg_pos first second dividend positive, QuotientKept]
      omega
  · rcases Int.lt_or_gt_of_ne divisor with negative | positive
    · rw [quotient_pos_neg first second dividend negative, QuotientKept]
      omega
    · rw [unsigned_of_nonneg first dividend, unsigned_of_nonneg second (Int.le_of_lt positive),
        Int.tdiv_eq_ediv_of_nonneg dividend, QuotientKept]
      simp [dividend, positive]

theorem remainder_pos_neg (first : Signed a) (second : Signed b) (dividend : 0 ≤ a)
    (divisor : b < 0) :
    unsigned a % unsigned b % 4294967296 = a.tmod b % 4294967296 ↔ a < -b := by
  have upper := first.2
  have lower := second.1
  rw [unsigned_of_nonneg first dividend, unsigned_of_neg second divisor,
    Int.emod_eq_of_lt dividend (by omega : a < b + 4294967296)]
  have remainder : a.tmod b = a % -b := by
    rw [← Int.tmod_eq_emod_of_nonneg dividend, Int.tmod_neg]
  have nonneg : 0 ≤ a % -b := Int.emod_nonneg _ (by omega)
  have small : a % -b < -b := Int.emod_lt_of_pos _ (by omega)
  rw [remainder]
  constructor
  · intro same
    omega
  · intro smaller
    rw [Int.emod_eq_of_lt dividend smaller]

theorem remainder_neg_pos (first : Signed a) (second : Signed b) (dividend : a < 0)
    (divisor : 0 < b) :
    unsigned a % unsigned b % 4294967296 = a.tmod b % 4294967296 ↔ b ∣ a ∧ b ∣ 4294967296 := by
  have lower := first.1
  have upper := second.2
  rw [unsigned_of_neg first dividend, unsigned_of_nonneg second (Int.le_of_lt divisor)]
  have remainder : a.tmod b = -(-a % b) := by
    rw [← Int.tmod_eq_emod_of_nonneg (by omega), Int.neg_tmod, Int.neg_neg]
  have nonneg : 0 ≤ -a % b := Int.emod_nonneg _ (by omega)
  have small : -a % b < b := Int.emod_lt_of_pos _ divisor
  have wideNonneg : 0 ≤ (a + 4294967296) % b := Int.emod_nonneg _ (by omega)
  have wideSmall : (a + 4294967296) % b < b := Int.emod_lt_of_pos _ divisor
  rw [remainder]
  constructor
  · intro same
    have zero : -a % b = 0 ∧ (a + 4294967296) % b = 0 := by omega
    have divides : b ∣ a := Int.dvd_neg.mp (Int.dvd_of_emod_eq_zero zero.1)
    exact ⟨divides, (Int.dvd_iff_dvd_of_dvd_add (Int.dvd_of_emod_eq_zero zero.2)).mp divides⟩
  · intro divides
    rw [Int.emod_eq_zero_of_dvd (Int.dvd_neg.mpr divides.1),
      Int.emod_eq_zero_of_dvd (Int.dvd_add divides.1 divides.2)]
    rfl

theorem remainder_neg_neg (first : Signed a) (second : Signed b) (dividend : a < 0)
    (divisor : b < 0) :
    unsigned a % unsigned b % 4294967296 = a.tmod b % 4294967296 ↔ a = b := by
  have lowerA := first.1
  have lowerB := second.1
  rw [unsigned_of_neg first dividend, unsigned_of_neg second divisor]
  have remainder : a.tmod b = -(-a % -b) := by
    rw [← Int.tmod_eq_emod_of_nonneg (by omega), Int.tmod_neg, Int.neg_tmod, Int.neg_neg]
  have nonneg : 0 ≤ -a % -b := Int.emod_nonneg _ (by omega)
  have small : -a % -b < -b := Int.emod_lt_of_pos _ (by omega)
  rw [remainder]
  rcases Int.lt_trichotomy a b with lower | same | higher
  · rw [Int.emod_eq_of_lt (by omega : 0 ≤ a + 4294967296) (by omega)]
    omega
  · subst same
    rw [Int.emod_self, Int.emod_self]
    simp
  · have wide : (a + 4294967296) % (b + 4294967296) = a - b := by
      rw [← Int.sub_emod_right, Int.add_sub_add_right, Int.emod_eq_of_lt (by omega) (by omega)]
    rw [Int.emod_eq_of_lt (by omega : 0 ≤ -a) (by omega), wide]
    omega

theorem remainder_iff (first : Signed a) (second : Signed b) (divisor : b ≠ 0) :
    unsigned a % unsigned b % 4294967296 = a.tmod b % 4294967296 ↔ RemainderKept a b := by
  rcases Int.lt_or_le a 0 with dividend | dividend
  · rcases Int.lt_or_gt_of_ne divisor with negative | positive
    · rw [remainder_neg_neg first second dividend negative, RemainderKept]
      omega
    · rw [remainder_neg_pos first second dividend positive, RemainderKept]
      have signs : ¬ 0 ≤ a ∧ ¬ b < 0 := by omega
      simp [dividend, positive, signs]
  · rcases Int.lt_or_gt_of_ne divisor with negative | positive
    · rw [remainder_pos_neg first second dividend negative, RemainderKept]
      omega
    · rw [unsigned_of_nonneg first dividend, unsigned_of_nonneg second (Int.le_of_lt positive),
        Int.tmod_eq_emod_of_nonneg dividend, RemainderKept]
      simp [dividend, positive]

end IDAPlugins.SignedDivision
