import LineForth.Stack

/-!
# Built-in operators

The operator table is fixed. An operator takes its operands off the stack one by
one, the top first, and pushes its results; operands taken before a failure stay
taken. Arithmetic wraps around at 32 bits and division truncates.
-/

set_option autoImplicit false

namespace LineForth

inductive Builtin where
  | add
  | subtract
  | multiply
  | divide
  | modulus
  | negate
  | abs
  | max
  | min
  | dup
  | swap
  | rot
  | drop
  | nip
  | tuck
  | copyOver
  | equal
  | notEqual
  | greater
  | less
  | atLeast
  | atMost
  | clearStack
  | invert
  deriving DecidableEq, Repr

namespace Builtin

def all : List Builtin :=
  [add, subtract, multiply, divide, modulus, negate, abs, max, min, dup, swap, rot, drop, nip,
    tuck, copyOver, equal, notEqual, greater, less, atLeast, atMost, clearStack, invert]

def name : Builtin → Bytes
  | add => text "+"
  | subtract => text "-"
  | multiply => text "*"
  | divide => text "/"
  | modulus => text "mod"
  | negate => text "negate"
  | abs => text "abs"
  | max => text "max"
  | min => text "min"
  | dup => text "dup"
  | swap => text "swap"
  | rot => text "rot"
  | drop => text "drop"
  | nip => text "nip"
  | tuck => text "tuck"
  | copyOver => text "over"
  | equal => text "="
  | notEqual => text "!="
  | greater => text ">"
  | less => text "<"
  | atLeast => text ">="
  | atMost => text "<="
  | clearStack => text "clearstack"
  | invert => text "invert"

def names : List Bytes := all.map name

def ofName? (token : Bytes) : Option Builtin := all.find? fun builtin => builtin.name = token

/-- All bits set for true, none for false. -/
def truth (holds : Bool) : Cell := if holds then -1 else 0

def popOnly (builtin : Builtin) : Operation Cell :=
  Stack.pop (text "argument for " ++ builtin.name)

def popFirst (builtin : Builtin) : Operation Cell :=
  Stack.pop (text "first argument for " ++ builtin.name)

def popSecond (builtin : Builtin) : Operation Cell :=
  Stack.pop (text "second argument for " ++ builtin.name)

def popThird (builtin : Builtin) : Operation Cell :=
  Stack.pop (text "third argument for " ++ builtin.name)

def unary (builtin : Builtin) (result : Cell → Cell) : Operation Unit := do
  let a ← popOnly builtin
  Stack.push (result a)

/-- The results of a binary operator come from the top cell and the one below. -/
def binary (builtin : Builtin) (result : (top below : Cell) → Cell) : Operation Unit := do
  let top ← popFirst builtin
  let below ← popSecond builtin
  Stack.push (result top below)

def division (builtin : Builtin) (result : (top below : Cell) → Cell) : Operation Unit := do
  let top ← popFirst builtin
  let below ← popSecond builtin
  if top = 0 then throw .divideByZero
  Stack.push (result top below)

def comparison (builtin : Builtin) (holds : (top below : Cell) → Bool) : Operation Unit :=
  binary builtin fun top below => truth (holds top below)

/-- The effect of an operator on the stack. -/
def run : Builtin → Operation Unit
  | add => binary add fun top below => top + below
  | subtract => binary subtract fun top below => below - top
  | multiply => binary multiply fun top below => top * below
  | divide => division divide fun top below => below / top
  | modulus => division modulus fun top below => below % top
  | negate => unary negate fun a => -a
  | abs => unary abs fun a => if a < 0 then -a else a
  | max => binary max fun top below => if top > below then top else below
  | min => binary min fun top below => if top < below then top else below
  | dup => do
    let a ← popOnly dup
    Stack.push a
    Stack.push a
  | swap => do
    let a ← popFirst swap
    let b ← popSecond swap
    Stack.push a
    Stack.push b
  | rot => do
    let a ← popFirst rot
    let b ← popSecond rot
    let c ← popThird rot
    Stack.push b
    Stack.push a
    Stack.push c
  | drop => do
    let _ ← popOnly drop
  | nip => do
    let a ← popFirst nip
    let _ ← popSecond nip
    Stack.push a
  | tuck => do
    let a ← popFirst tuck
    let b ← popSecond tuck
    Stack.push a
    Stack.push b
    Stack.push a
  | copyOver => do
    let a ← popFirst copyOver
    let b ← popSecond copyOver
    Stack.push b
    Stack.push a
    Stack.push b
  | equal => comparison equal fun a b => b = a
  | notEqual => comparison notEqual fun a b => b ≠ a
  | greater => comparison greater fun a b => b > a
  | less => comparison less fun a b => b < a
  | atLeast => comparison atLeast fun a b => b ≥ a
  | atMost => comparison atMost fun a b => b ≤ a
  | clearStack => Stack.clear
  | invert => unary invert fun a => truth (a = 0)

/-- Applies an operator: how it ended, and the stack it leaves. -/
def apply (builtin : Builtin) (stack : Stack) : Outcome × Stack :=
  match builtin.run stack with
  | .ok _ after => (.done, after)
  | .error failure after => (.failed failure, after)

end Builtin

end LineForth
