import LineForth.Stack

/-!
# Numerals

A numeral is an optional sign and one or more ASCII digits whose value fits in a
cell. Leading zeros are allowed; nothing else is.
-/

set_option autoImplicit false

namespace LineForth

namespace Numeral

def digit? (octet : UInt8) : Option Nat :=
  if 0x30 ≤ octet ∧ octet ≤ 0x39 then some (octet.toNat - 0x30) else none

/-- Appends digits to a value read so far. -/
def extend? : (value : Nat) → Bytes → Option Nat
  | value, [] => some value
  | value, octet :: rest =>
    match digit? octet with
    | some digit => extend? (value * 10 + digit) rest
    | none => none

def magnitude? : Bytes → Option Nat
  | [] => none
  | digits => extend? 0 digits

def integer? : Bytes → Option Int
  | [] => none
  | sign :: digits =>
    if sign = 0x2B then (magnitude? digits).map fun value => (value : Int)
    else if sign = 0x2D then (magnitude? digits).map fun value => -(value : Int)
    else (magnitude? (sign :: digits)).map fun value => (value : Int)

def fits (value : Int) : Bool := -2147483648 ≤ value && value ≤ 2147483647

def parse? (token : Bytes) : Option Cell :=
  match integer? token with
  | some value => if fits value then some (Int32.ofInt value) else none
  | none => none

end Numeral

/-- A word may have any name that does not read as a number. -/
def validWordName (name : Bytes) : Bool := (Numeral.parse? name).isNone

end LineForth
