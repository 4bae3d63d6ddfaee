import LineForth.Command.Integer

/-!
# Duration arguments

A duration argument is an optional sign and a sequence of decimal numbers, each
with a unit; a lone `0` needs no unit. It is counted in nanoseconds.
-/

set_option autoImplicit false

namespace LineForth

namespace Duration

def isDigit (octet : UInt8) : Bool := 0x30 ≤ octet && octet ≤ 0x39

def point : UInt8 := 0x2E

def isNumeric (octet : UInt8) : Bool := octet = point || isDigit octet

/-- The units in nanoseconds. A microsecond may be written with either mu. -/
def units : List (Bytes × Nat) :=
  [(text "ns", 1), (text "us", 1000), ([0xC2, 0xB5, 0x73], 1000), ([0xCE, 0xBC, 0x73], 1000),
    (text "ms", 1000000), (text "s", 1000000000), (text "m", 60000000000),
    (text "h", 3600000000000)]

def limit : Nat := 0x8000000000000000

def value (digits : Bytes) : Nat :=
  digits.foldl (fun total digit => total * 10 + (digit.toNat - 0x30)) 0

def tenths (digits : Bytes) : Nat := digits.foldl (fun scale _ => scale * 10) 1

/-- Nanoseconds of a fraction of a unit, rounded down. -/
def fraction (digits : Bytes) (unit : Nat) : Nat := value digits * unit / tenths digits

/-- One number with its unit, and what follows it. -/
def item? (octets : Bytes) : Option (Nat × Bytes) :=
  let whole := octets.takeWhile isDigit
  let afterWhole := octets.dropWhile isDigit
  let (decimals, afterNumber) :=
    if afterWhole.head? = some point then
      ((afterWhole.drop 1).takeWhile isDigit, (afterWhole.drop 1).dropWhile isDigit)
    else ([], afterWhole)
  let unitName := afterNumber.takeWhile fun octet => !isNumeric octet
  if whole.isEmpty && decimals.isEmpty then none
  else
    match units.lookup unitName with
    | none => none
    | some unit =>
      let nanoseconds := value whole * unit + fraction decimals unit
      if limit < nanoseconds then none
      else some (nanoseconds, afterNumber.dropWhile fun octet => !isNumeric octet)

def items? : (fuel total : Nat) → Bytes → Option Nat
  | _, total, [] => some total
  | 0, _, _ => none
  | fuel + 1, total, octets =>
    match item? octets with
    | none => none
    | some (nanoseconds, rest) =>
      if limit < total + nanoseconds then none else items? fuel (total + nanoseconds) rest

def parse (argument : Bytes) : Except ArgumentProblem Int :=
  let negative := argument.head? = some 0x2D
  let body := if negative ∨ argument.head? = some 0x2B then argument.drop 1 else argument
  if body = text "0" then .ok 0
  else if body.isEmpty then .error .malformed
  else
    match items? body.length 0 body with
    | none => .error .malformed
    | some total =>
      if negative then .ok (-(total : Int))
      else if total < limit then .ok (total : Int)
      else .error .malformed

end Duration

end LineForth
