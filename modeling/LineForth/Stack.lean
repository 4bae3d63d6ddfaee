import LineForth.Failure

/-!
# The stack of cells

The stack is kept with its top first; it is shown from the bottom to the top.
Taking a cell off is the only stack operation that can fail, and it says what it
was taking the cell for.
-/

set_option autoImplicit false

namespace LineForth

abbrev Cell := Int32

abbrev Stack := List Cell

/-- A stack operation may fail; what it did before stays done. -/
abbrev Operation (result : Type) := EStateM Failure Stack result

namespace Stack

def push (cell : Cell) : Operation Unit := fun stack => .ok () (cell :: stack)

def pop (operand : Bytes) : Operation Cell
  | [] => .error (.emptyStack operand) []
  | cell :: rest => .ok cell rest

def clear : Operation Unit := fun _ => .ok () []

def bottomUp (stack : Stack) : List Cell := stack.reverse

/-- The cells between brackets, bottom first. -/
def render (stack : Stack) : Bytes :=
  text "[" ++ Bytes.join (text ", ") (stack.bottomUp.map fun cell => decimal cell.toInt) ++
    text "]"

end Stack

end LineForth
