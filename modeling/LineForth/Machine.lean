import LineForth.Builtin
import LineForth.Instruction
import LineForth.Output.Basic
import LineForth.Table
import LineForth.Tracer

/-!
# The machine

A machine holds what evaluation reads and changes: the stack, the words, the
constants, the number of active calls and its limit, the trace and the output.
-/

set_option autoImplicit false

namespace LineForth

structure Machine (σ : Type) where
  stack : Stack
  words : Table (List Token)
  constants : Table Cell
  /-- The number of active calls. -/
  depth : Nat
  maxDepth : Nat
  /-- Whether the stack is printed after every line that succeeds. -/
  echo : Bool
  tracer : Tracer
  /-- Whether failed lines are recorded in the journal. -/
  reportsLines : Bool
  output : σ
  journal : Journal

/-- What a token stands for. -/
inductive Meaning where
  | word (body : List Token)
  | builtin (operator : Builtin)
  | constant (value : Cell)
  | literal (value : Cell)
  | unknown
  deriving DecidableEq, Repr

namespace Machine

variable {σ : Type}

def defaultMaxDepth : Nat := 1024

def initial (output : σ) : Machine σ where
  stack := []
  words := Table.empty
  constants := Table.empty
  depth := 0
  maxDepth := defaultMaxDepth
  echo := false
  tracer := Tracer.silent
  reportsLines := false
  output := output
  journal := []

/-- Words come before operators, operators before constants, and constants
before numbers. -/
def meaning (m : Machine σ) (token : Token) : Meaning :=
  match m.words.lookup? token with
  | some body => .word body
  | none =>
    match Builtin.ofName? token with
    | some operator => .builtin operator
    | none =>
      match m.constants.lookup? token with
      | some value => .constant value
      | none =>
        match Numeral.parse? token with
        | some value => .literal value
        | none => .unknown

/-- The name under which the trace shows an instruction. -/
def ruleName (m : Machine σ) : Instruction → Bytes
  | .define _ _ => text "define"
  | .print => text "print"
  | .words => text "words"
  | .constant _ => text "constant"
  | .say _ => text "string"
  | .refer token =>
    match m.meaning token with
    | .word _ => text "call"
    | .builtin _ => text "builtin"
    | .constant _ => text "const"
    | .literal _ => text "literal"
    | .unknown => text "literal"

def trace (m : Machine σ) (mark message : Bytes) : Machine σ :=
  match m.tracer.log mark message with
  | (none, tracer) => { m with tracer := tracer }
  | (some line, tracer) => { m with tracer := tracer, journal := .trace line :: m.journal }

def traceRule (m : Machine σ) (rule : Bytes) (token : Token) : Machine σ :=
  m.trace (text "#") (rule ++ text " " ++ token.quote ++ text " -- " ++ m.stack.render)

def record (m : Machine σ) (events : List Event) : Machine σ :=
  { m with journal := m.journal.record events }

def write [Output σ] (m : Machine σ) (passage : Passage) (octets : Bytes) :
    Outcome × Machine σ :=
  let (written, output) := Output.write passage octets m.output
  (written.outcome, { m with output := output })

def flush [Output σ] (m : Machine σ) : Outcome × Machine σ :=
  let (flushed, output) := Output.flush m.output
  (flushed.outcome, { m with output := output, journal := m.journal.record flushed.events })

def margin : Bytes := text "  "

/-- One more active call. -/
def enter (m : Machine σ) : Machine σ :=
  { m with
    depth := m.depth + 1
    tracer := if m.tracer.active then m.tracer.enter margin else m.tracer }

/-- One active call less. -/
def leave (m : Machine σ) : Machine σ :=
  { m with
    depth := m.depth - 1
    tracer := if m.tracer.active then m.tracer.leave else m.tracer }

end Machine

end LineForth
