import LineForth.Proofs.Tokens
import LineForth.Builtin
import LineForth.Instruction
import LineForth.Numeral

/-!
# Decimal texts as numerals

The decimal text of a cell is read back as that cell. It is a token that a line keeps in
one piece, and it neither opens an instruction of its own nor names an operator.
-/

set_option autoImplicit false

namespace LineForth

theorem decimalNat_of_lt {value : Nat} (small : value < 10) :
    decimalNat value = [(48 + value).toUInt8] := by
  simp [decimalNat, Nat.toDigits_of_lt_base small, Nat.toNat_digitChar_of_lt_ten small]

theorem decimalNat_of_le {value : Nat} (large : 10 ≤ value) :
    decimalNat value = decimalNat (value / 10) ++ [(48 + value % 10).toUInt8] := by
  have last : value % 10 < 10 := Nat.mod_lt _ (by decide)
  simp [decimalNat, Nat.toDigits_of_base_le (by decide) large,
    Nat.toNat_digitChar_of_lt_ten last]

namespace Numeral

theorem digit?_of_lt {digit : Nat} (small : digit < 10) :
    digit? (48 + digit).toUInt8 = some digit := by
  have all : ∀ digit < 10, digit? (48 + digit).toUInt8 = some digit := by decide +kernel
  exact all digit small

theorem extend?_append_digit (start : Nat) (octets : Bytes) {digit : Nat} (small : digit < 10) :
    extend? start (octets ++ [(48 + digit).toUInt8]) =
      (extend? start octets).map fun value => value * 10 + digit := by
  induction octets generalizing start with
  | nil => simp only [List.nil_append, extend?, digit?_of_lt small, Option.map_some]
  | cons octet rest inductionHypothesis =>
    simp only [List.cons_append, extend?]
    cases digit? octet with
    | none => rfl
    | some leading => exact inductionHypothesis _

theorem extend?_decimalNat (value : Nat) : extend? 0 (decimalNat value) = some value := by
  induction value using Nat.strongRecOn with
  | ind value inductionHypothesis =>
    by_cases small : value < 10
    · simp only [decimalNat_of_lt small, extend?, digit?_of_lt small, Nat.zero_mul, Nat.zero_add]
    · have last : value % 10 < 10 := Nat.mod_lt _ (by decide)
      rw [decimalNat_of_le (by omega), extend?_append_digit 0 _ last,
        inductionHypothesis (value / 10) (by omega), Option.map_some]
      congr 1
      omega

/-- The octets of a decimal text are digits. -/
theorem digit_of_mem_decimalNat {value : Nat} {octet : UInt8}
    (membership : octet ∈ decimalNat value) : 0x30 ≤ octet ∧ octet ≤ 0x39 := by
  have digits : ∀ digit < 10, 0x30 ≤ (48 + digit).toUInt8 ∧ (48 + digit).toUInt8 ≤ 0x39 := by
    decide +kernel
  induction value using Nat.strongRecOn with
  | ind value inductionHypothesis =>
    by_cases small : value < 10
    · rw [decimalNat_of_lt small, List.mem_singleton] at membership
      rw [membership]
      exact digits value small
    · rw [decimalNat_of_le (by omega), List.mem_append, List.mem_singleton] at membership
      rcases membership with earlier | rfl
      · exact inductionHypothesis (value / 10) (by omega) earlier
      · exact digits _ (Nat.mod_lt _ (by decide))

theorem exists_decimalNat_eq (value : Nat) : ∃ octet rest, decimalNat value = octet :: rest := by
  apply List.exists_cons_of_ne_nil
  by_cases small : value < 10
  · simp [decimalNat_of_lt small]
  · simp [decimalNat_of_le (show 10 ≤ value by omega)]

theorem magnitude?_decimalNat (value : Nat) : magnitude? (decimalNat value) = some value := by
  obtain ⟨octet, rest, shape⟩ := exists_decimalNat_eq value
  have read := extend?_decimalNat value
  rw [shape] at read ⊢
  exact read

theorem integer?_decimal (value : Int) : integer? (decimal value) = some value := by
  unfold decimal
  split
  next negative =>
    have sign : text "-" = [0x2D] := by decide +kernel
    have magnitude : -(value.natAbs : Int) = value := by omega
    rw [sign, List.singleton_append, integer?, if_neg (by decide), if_pos rfl,
      magnitude?_decimalNat]
    exact congrArg some magnitude
  next positive =>
    obtain ⟨octet, rest, shape⟩ := exists_decimalNat_eq value.natAbs
    have leading : octet ∈ decimalNat value.natAbs := by simp [shape]
    have digit := digit_of_mem_decimalNat leading
    have unsigned : ¬ octet = 0x2B ∧ ¬ octet = 0x2D := by
      constructor
      all_goals
        rintro rfl
        exact absurd digit (by decide)
    have magnitude : (value.natAbs : Int) = value := by omega
    have read := magnitude?_decimalNat value.natAbs
    rw [shape] at read ⊢
    rw [integer?, if_neg unsigned.1, if_neg unsigned.2, read]
    exact congrArg some magnitude

/-- Printing a cell and reading it gives the cell back. -/
theorem parse?_decimal (cell : Cell) : parse? (decimal cell.toInt) = some cell := by
  have lower := Int32.le_toInt cell
  have upper := Int32.toInt_lt cell
  have within : fits cell.toInt = true := by
    simp only [fits, Bool.and_eq_true, decide_eq_true_eq]
    omega
  simp only [parse?, integer?_decimal, within, if_true, Int32.ofInt_toInt]

theorem solid_decimal (value : Int) : Token.Solid (decimal value) := by
  have digits : ∀ octet ∈ decimalNat value.natAbs, Bytes.Graphic octet := by
    intro octet membership
    obtain ⟨lower, upper⟩ := digit_of_mem_decimalNat membership
    simp only [UInt8.le_iff_toNat_le] at lower upper
    simp only [Bytes.Graphic, UInt8.lt_iff_toNat_lt]
    simp at lower upper ⊢
    omega
  obtain ⟨octet, rest, shape⟩ := exists_decimalNat_eq value.natAbs
  unfold decimal
  split
  · apply Token.solid_of_graphic (by simp [shape])
    intro octet membership
    rcases List.mem_append.mp membership with sign | digit
    · have graphic : ∀ octet ∈ text "-", Bytes.Graphic octet := by decide +kernel
      exact graphic octet sign
    · exact digits octet digit
  · exact Token.solid_of_graphic (by simp [shape]) digits

section Numerals

variable {token : Token} {cell : Cell} (numeral : parse? token = some cell)

include numeral

theorem not_mem_special : token ∉ Token.special := by
  have none : ∀ special ∈ Token.special, parse? special = none := by decide +kernel
  intro membership
  rw [none token membership] at numeral
  cases numeral

theorem ofName?_eq_none : Builtin.ofName? token = none := by
  have none : ∀ operator ∈ Builtin.all, parse? operator.name = none := by decide +kernel
  apply List.find?_eq_none.mpr
  intro operator membership
  rw [decide_eq_true_eq]
  rintro rfl
  rw [none operator membership] at numeral
  cases numeral

end Numerals

end Numeral

end LineForth
