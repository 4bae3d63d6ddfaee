import LineForth.Failure

/-!
# Recovery from panics

A task ends by returning, with or without a failure, or by a panic. Recovery
turns the panic into a failure that carries the name of the recovering operation
and, if the panic was raised with a failure, that failure as its cause.
-/

set_option autoImplicit false

namespace LineForth

inductive Task where
  | succeed
  | fail (failure : Failure)
  | panicWith (failure : Failure)
  | panic (shown : Bytes)
  /-- Take the element at an index of an empty list. -/
  | index (position : Int)
  | divideByZero
  deriving DecidableEq, Repr

namespace Task

def indexOutOfRange (position : Int) : Failure :=
  let place := text "index out of range [" ++ decimal position ++ text "]"
  .trap (if position < 0 then place else place ++ text " with length 0")

def outcome : Task → Outcome
  | succeed => .done
  | fail failure => .failed failure
  | panicWith failure => .panicked (.failure failure)
  | panic shown => .panicked (.value shown)
  | index position => .panicked (.failure (indexOutOfRange position))
  | divideByZero => .panicked (.failure (.trap (text "integer divide by zero")))

end Task

namespace Outcome

def failure? : Outcome → Option Failure
  | failed failure => some failure
  | _ => none

/-- Panics with the failure that an operation returned. -/
def raise : Outcome → Outcome
  | failed failure => panicked (.failure failure)
  | outcome => outcome

/-- Puts a context in front of a failure. -/
def inContext (description : Bytes) : Outcome → Outcome
  | failed failure => failed (.context description failure)
  | outcome => outcome

end Outcome

namespace Task

/-- Recovers the task under `name`. If `outer` is given, a failure is raised again
and recovered under that name; if `wrap` is given, it becomes the context. -/
def recovered (task : Task) (name : Bytes) (outer wrap : Option Bytes) : Outcome :=
  let first := task.outcome.recover name
  let second := match outer with
    | some outerName => first.raise.recover outerName
    | none => first
  match wrap with
  | some description => second.inContext description
  | none => second

end Task

end LineForth
