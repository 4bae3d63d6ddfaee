import LineForth.Failure
import LineForth.Journal

/-!
# Outputs

An output takes octets and can be flushed. A write reports how many octets were
taken; a flush reports which devices it reached.
-/

set_option autoImplicit false

namespace LineForth

/-- How a text is handed over. A buffering output passes a large `direct` write
on in one piece when its buffer is empty, and takes a `staged` one buffer by
buffer. Other outputs treat both alike. -/
inductive Passage where
  | direct
  | staged
  deriving DecidableEq, Repr

structure Written where
  taken : Nat
  outcome : Outcome
  deriving DecidableEq, Repr

structure Flushed where
  outcome : Outcome
  events : List Event
  deriving DecidableEq, Repr

class Output (σ : Type) where
  write : Passage → Bytes → σ → Written × σ
  flush : σ → Flushed × σ

/-- Devices that are written to by their numbers, without a buffer. -/
class Devices (δ : Type) where
  write : Nat → Bytes → δ → Written × δ

end LineForth
