import LineForth.Text.Bytes

/-!
# Decimal text of integers
-/

set_option autoImplicit false

namespace LineForth

def decimalNat (value : Nat) : Bytes :=
  (Nat.toDigits 10 value).map (fun digit => digit.toNat.toUInt8)

/-- Shortest decimal notation: a minus sign if negative, then the digits
without leading zeros. -/
def decimal (value : Int) : Bytes :=
  if value < 0 then text "-" ++ decimalNat value.natAbs else decimalNat value.natAbs

end LineForth
