import Mathlib.Algebra.Group.Nat.Defs

/-! Products in double precision, as far as a truncated tenth needs them.

A natural number is rounded to 53 significant bits, ties to even. The double nearest to
0.1 is a little more than 0.1, and its product with a number of 16 bits is never rounded
up to the next whole number, so that truncating the product divides by ten. -/
namespace Backwash.Sensor

/-- The spacing of the doubles next to `n`, where it is at least 1. -/
def ulp (n : Nat) : Nat := 2 ^ (n.log2 + 1 - 53)

/-- The double below `n` is not the nearest, or is as near as the one above and odd. -/
def roundsUp (n : Nat) : Prop :=
  2 * (n % ulp n) > ulp n ∨ (2 * (n % ulp n) = ulp n ∧ n / ulp n % 2 = 1)

instance (n : Nat) : Decidable (roundsUp n) := inferInstanceAs (Decidable (_ ∨ _))

/-- `n` as a double. -/
def roundDouble (n : Nat) : Nat := if roundsUp n then (n / ulp n + 1) * ulp n else n / ulp n * ulp n

/-- The double nearest to 0.1, in units of 2⁻⁵⁶. -/
def tenth : Nat := 7205759403792794

/-- `(int)(0.1 * n)`. -/
def timesTenth (n : Nat) : Nat := roundDouble (tenth * n) / 2 ^ 56

theorem roundDouble_le (n : Nat) : roundDouble n ≤ n + ulp n := by
  have hq : n / ulp n * ulp n ≤ n := Nat.div_mul_le_self n (ulp n)
  unfold roundDouble
  split
  · rw [Nat.add_mul, Nat.one_mul]
    omega
  · omega

/-- Rounding does not pass a multiple of the spacing. -/
theorem le_roundDouble {k n : Nat} (hk : k ≤ n) (hdvd : ulp n ∣ k) : k ≤ roundDouble n := by
  have hbelow : k ≤ n / ulp n * ulp n := by
    calc k = k / ulp n * ulp n := (Nat.div_mul_cancel hdvd).symm
      _ ≤ n / ulp n * ulp n := Nat.mul_le_mul_right _ (Nat.div_le_div_right hk)
  unfold roundDouble
  split
  · rw [Nat.add_mul]
    omega
  · exact hbelow

theorem ulp_dvd {n e : Nat} (h : n < 2 ^ (53 + e)) : ulp n ∣ 2 ^ e := by
  refine Nat.pow_dvd_pow 2 ?_
  by_cases hn : n = 0
  · subst hn
    simp
  · have := (Nat.log2_lt hn).mpr h
    omega

theorem timesTenth_eq {n : Nat} (h : n < 2 ^ 16) : timesTenth n = n / 10 := by
  have hulp : ulp (tenth * n) ∣ 2 ^ 16 := ulp_dvd (by unfold tenth; omega)
  have hle : ulp (tenth * n) ≤ 2 ^ 16 := Nat.le_of_dvd (by decide) hulp
  have hlow : n / 10 * 2 ^ 56 ≤ roundDouble (tenth * n) := by
    refine le_roundDouble (by unfold tenth; omega) ?_
    have hunit : ulp (tenth * n) ∣ 2 ^ 56 := Nat.dvd_trans hulp (Nat.pow_dvd_pow 2 (show 16 ≤ 56 by decide))
    exact Nat.dvd_trans hunit (Nat.dvd_mul_left _ _)
  have hhigh : roundDouble (tenth * n) < (n / 10 + 1) * 2 ^ 56 := by
    have := roundDouble_le (tenth * n)
    unfold tenth at *
    omega
  unfold timesTenth
  omega

end Backwash.Sensor
