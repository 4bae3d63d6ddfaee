import LineForth.Text.Bytes

/-!
# Integer arguments

An integer argument has an optional sign, an optional base mark (`0b`, `0o`, `0x`,
or a leading `0` for octal), and digits of that base, between which single
underscores may stand. It must fit in 64 bits.
-/

set_option autoImplicit false

namespace LineForth

/-- Why an argument is refused. -/
inductive ArgumentProblem where
  | malformed
  | outOfRange
  deriving DecidableEq, Repr

namespace ArgumentProblem

def message : ArgumentProblem → Bytes
  | malformed => text "parse error"
  | outOfRange => text "value out of range"

end ArgumentProblem

namespace Integer

def underscore : UInt8 := 0x5F

/-- The lower case of an ASCII letter. -/
def lower (octet : UInt8) : UInt8 := octet ||| 0x20

def digit? (octet : UInt8) : Option Nat :=
  if 0x30 ≤ octet ∧ octet ≤ 0x39 then some (octet.toNat - 0x30)
  else if 0x61 ≤ lower octet ∧ lower octet ≤ 0x7A then some ((lower octet).toNat - 0x61 + 10)
  else none

/-- The first value that needs more than 64 bits. -/
def wordLimit : Nat := 0x10000000000000000

/-- Reads digits of a base and skips underscores. The first octet that is no
digit, or the first digit that makes the value too large, decides the answer. -/
def digits (base : Nat) : (value : Nat) → Bytes → Except ArgumentProblem Nat
  | value, [] => .ok value
  | value, octet :: rest =>
    if octet = underscore then digits base value rest
    else
      match digit? octet with
      | none => .error .malformed
      | some digit =>
        if base ≤ digit then .error .malformed
        else if wordLimit ≤ value * base + digit then .error .outOfRange
        else digits base (value * base + digit) rest

/-- Every underscore stands behind a digit and before one. -/
def separated : (afterDigit : Bool) → Bytes → Bool
  | _, [] => true
  | afterDigit, octet :: rest =>
    if octet = underscore then afterDigit && !rest.isEmpty && separated false rest
    else separated true rest

/-- The base of an unsigned literal and its digits. -/
def splitBase : Bytes → Nat × Bytes
  | 0x30 :: mark :: first :: rest =>
    if lower mark = 0x62 then (2, first :: rest)
    else if lower mark = 0x6F then (8, first :: rest)
    else if lower mark = 0x78 then (16, first :: rest)
    else (8, mark :: first :: rest)
  | 0x30 :: rest => (8, rest)
  | literal => (10, literal)

/-- Underscores are checked with the base mark, which counts as a digit. -/
def wellSeparated : Bytes → Bool
  | 0x30 :: mark :: rest =>
    if lower mark = 0x62 ∨ lower mark = 0x6F ∨ lower mark = 0x78 then separated true rest
    else separated true (mark :: rest)
  | literal => separated false literal

def unsigned (literal : Bytes) : Except ArgumentProblem Nat :=
  if literal.isEmpty then .error .malformed
  else
    let (base, body) := splitBase literal
    match digits base 0 body with
    | .error problem => .error problem
    | .ok value => if wellSeparated literal then .ok value else .error .malformed

def signedLimit : Nat := 0x8000000000000000

def parse : Bytes → Except ArgumentProblem Int
  | [] => .error .malformed
  | sign :: rest =>
    let negative := sign = 0x2D
    match unsigned (if sign = 0x2B ∨ negative then rest else sign :: rest) with
    | .error problem => .error problem
    | .ok value =>
      if negative then
        if value ≤ signedLimit then .ok (-(value : Int)) else .error .outOfRange
      else if value < signedLimit then .ok (value : Int) else .error .outOfRange

end Integer

end LineForth
