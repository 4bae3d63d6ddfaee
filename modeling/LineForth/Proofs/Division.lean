import LineForth.Proofs.StackEffects

/-!
# Quotients and remainders

The quotient that `/` leaves and the remainder that `mod` leaves belong together: the
divisor times the quotient and the remainder make up the dividend, the remainder is smaller
than the divisor, and it is zero or has the sign of the dividend. Over the integers these three
facts determine both. One quotient of cells is no cell, and it wraps around; there the product
wraps around as well, and the dividend comes back all the same.
-/

set_option autoImplicit false

namespace LineForth

/-- The dividend is made up of the quotient and the remainder, as integers. -/
structure Splits (dividend divisor quotient remainder : Int) : Prop where
  total : quotient * divisor + remainder = dividend
  sign : remainder = 0 ∨ remainder.sign = dividend.sign
  small : remainder.natAbs < divisor.natAbs

theorem splits_iff {dividend divisor quotient remainder : Int} (nonzero : divisor ≠ 0) :
    Splits dividend divisor quotient remainder ↔
      quotient = dividend.tdiv divisor ∧ remainder = dividend.tmod divisor := by
  constructor
  · rintro ⟨total, sign, small⟩
    have total' : remainder + divisor * quotient = dividend := by
      rw [← total, Int.mul_comm, Int.add_comm]
    rcases Int.le_total 0 dividend with upward | downward
    · -- A remainder that is neither 0 nor positive would have another sign.
      have low : 0 ≤ remainder := by
        rcases sign with zero | same
        · exact Int.le_of_eq zero.symm
        · exact Int.sign_nonneg_iff.mp (same ▸ Int.sign_nonneg_iff.mpr upward)
      have unique := (Int.tdiv_tmod_unique upward nonzero).mpr ⟨total', low, by omega⟩
      exact ⟨unique.1.symm, unique.2.symm⟩
    · have high : remainder ≤ 0 := by
        rcases sign with zero | same
        · exact Int.le_of_eq zero
        · exact Int.sign_nonpos_iff.mp (same ▸ Int.sign_nonpos_iff.mpr downward)
      have unique := (Int.tdiv_tmod_unique' downward nonzero).mpr ⟨total', by omega, high⟩
      exact ⟨unique.1.symm, unique.2.symm⟩
  · rintro ⟨rfl, rfl⟩
    refine ⟨Int.tdiv_mul_add_tmod dividend divisor, ?_, ?_⟩
    · have sign := Int.sign_tmod dividend divisor
      split at sign
      · exact .inl (Int.sign_eq_zero_iff_zero.mp sign)
      · exact .inr sign
    · rw [Int.natAbs_tmod]
      exact Nat.mod_lt _ (Int.natAbs_pos.mpr nonzero)

namespace Builtin

/-- The quotient is no cell. -/
def Overflows (y x : Cell) : Prop := y = Int32.minValue ∧ x = -1

theorem toInt_div_eq_iff (y x : Cell) :
    (y / x).toInt = y.toInt.tdiv x.toInt ↔ ¬ Overflows y x := by
  constructor
  · rintro exact ⟨rfl, rfl⟩
    exact absurd exact (by decide)
  · intro fits
    by_cases least : y = Int32.minValue
    · exact Int32.toInt_div_of_ne_right y x fun unit => fits ⟨least, unit⟩
    · exact Int32.toInt_div_of_ne_left y x least

/-- The dividend comes back, whether or not the quotient wraps around. -/
theorem div_mul_add_mod (y x : Cell) : y / x * x + y % x = y := by
  calc y / x * x + y % x
      = Int32.ofInt (y.toInt.tdiv x.toInt * x.toInt + y.toInt.tmod x.toInt) := by
        rw [Int32.ofInt_add, Int32.ofInt_mul, ofInt_tdiv_toInt, ofInt_tmod_toInt,
          Int32.ofInt_toInt]
    _ = y := by rw [Int.tdiv_mul_add_tmod, Int32.ofInt_toInt]

theorem splits_cells_iff {y x : Cell} (nonzero : x ≠ 0) (fits : ¬ Overflows y x) (q r : Cell) :
    Splits y.toInt x.toInt q.toInt r.toInt ↔ q = y / x ∧ r = y % x := by
  have divisor : x.toInt ≠ 0 := fun zero => nonzero (Int32.toInt_inj.mp zero)
  rw [splits_iff divisor, ← (toInt_div_eq_iff y x).mpr fits, ← Int32.toInt_mod, Int32.toInt_inj,
    Int32.toInt_inj]

theorem splits_remainder (y : Cell) {x : Cell} (nonzero : x ≠ 0) :
    Splits y.toInt x.toInt (y.toInt.tdiv x.toInt) (y % x).toInt := by
  have divisor : x.toInt ≠ 0 := fun zero => nonzero (Int32.toInt_inj.mp zero)
  exact (splits_iff divisor).mpr ⟨rfl, Int32.toInt_mod y x⟩

theorem apply_of_run {operator : Builtin} {stack after : Stack}
    (ran : operator.run stack = .ok () after) : operator.apply stack = (.done, after) := by
  simp only [apply, ran]

/-- Dividing `y` by `x` leaves a quotient and a remainder that bring `y` back when they are
multiplied and added as cells. Except where the quotient wraps around, no other two cells
make up `y` without doing so. -/
theorem divide_modulus_agree (base : Stack) (y : Cell) {x : Cell} (nonzero : x ≠ 0) :
    ∃ quotient remainder product : Cell,
      divide.apply (x :: y :: base) = (.done, quotient :: base) ∧
      modulus.apply (x :: y :: base) = (.done, remainder :: base) ∧
      multiply.apply (x :: quotient :: base) = (.done, product :: base) ∧
      add.apply (remainder :: product :: base) = (.done, y :: base) ∧
      (remainder = 0 ∨ remainder.toInt.sign = y.toInt.sign) ∧
      remainder.toInt.natAbs < x.toInt.natAbs ∧
      (quotient.toInt = y.toInt.tdiv x.toInt ↔ ¬ Overflows y x) ∧
      (¬ Overflows y x → ∀ q r : Cell,
        Splits y.toInt x.toInt q.toInt r.toInt ↔ q = quotient ∧ r = remainder) := by
  have splits := splits_remainder y nonzero
  have restored : y % x + x * (y / x) = y := by
    rw [Int32.add_comm, Int32.mul_comm x, div_mul_add_mod]
  refine ⟨y / x, y % x, x * (y / x), ?_, ?_, rfl, ?_, ?_, splits.small, toInt_div_eq_iff y x,
    splits_cells_iff nonzero⟩
  · exact apply_of_run (division_of_ne_zero _ nonzero y base)
  · exact apply_of_run (division_of_ne_zero _ nonzero y base)
  · exact apply_of_run (run_of_result rfl restored.symm)
  · exact splits.sign.imp (fun zero => Int32.toInt_inj.mp zero) id

/-- A remainder below zero, and the one quotient that wraps around. -/
theorem divide_modulus_agree_negative :
    (divide.apply [2, -7, 1] = (.done, [-3, 1]) ∧ modulus.apply [2, -7, 1] = (.done, [-1, 1]) ∧
      ∀ q r : Cell, Splits (-7) 2 q.toInt r.toInt ↔ q = -3 ∧ r = -1) ∧
    (divide.apply [-1, Int32.minValue] = (.done, [Int32.minValue]) ∧
      ∃ product : Cell, multiply.apply [-1, Int32.minValue] = (.done, [product]) ∧
        add.apply [0, product] = (.done, [Int32.minValue])) := by
  constructor
  · obtain ⟨quotient, remainder, -, divided, left, -, -, -, -, -, only⟩ :=
      divide_modulus_agree [1] (-7) (x := 2) (by decide)
    have quotient_eq : divide.apply [2, -7, 1] = (.done, [-3, 1]) := by decide
    have remainder_eq : modulus.apply [2, -7, 1] = (.done, [-1, 1]) := by decide
    rw [quotient_eq] at divided
    rw [remainder_eq] at left
    cases divided
    cases left
    exact ⟨quotient_eq, remainder_eq, only (fun overflows => absurd overflows.2 (by decide))⟩
  · obtain ⟨quotient, remainder, product, divided, left, multiplied, added, -⟩ :=
      divide_modulus_agree [] Int32.minValue (x := -1) (by decide)
    have quotient_eq : divide.apply [-1, Int32.minValue] = (.done, [Int32.minValue]) := by decide
    have remainder_eq : modulus.apply [-1, Int32.minValue] = (.done, [0]) := by decide
    rw [quotient_eq] at divided
    rw [remainder_eq] at left
    cases divided
    cases left
    exact ⟨quotient_eq, product, multiplied, added⟩

end Builtin

end LineForth
