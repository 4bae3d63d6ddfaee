import LineForth.Numeral
import LineForth.Token

/-!
# Instructions

The tokens of a line or of a word body are read into instructions. Reading looks
at the tokens alone: which construct a token opens, and where the construct
ends, depends neither on the stack nor on what is defined. A construct that is
not finished when the tokens run out, or that cannot go on, ends the program
with a failure after the instructions before it.
-/

set_option autoImplicit false

namespace LineForth

inductive Instruction where
  /-- Bind a word to a body. -/
  | define (name : Token) (body : List Token)
  /-- Print the whole stack. -/
  | print
  /-- List the operators and the words. -/
  | words
  /-- Bind the top of the stack to a name. -/
  | constant (name : Token)
  /-- Print a text and a newline. -/
  | say (line : Bytes)
  /-- Do what a token stands for: a word, an operator, a constant or a number. -/
  | refer (token : Token)
  deriving DecidableEq, Repr

/-- An instruction whose tokens are still being read. -/
inductive Pending where
  | idle
  | definition
  /-- The body tokens so far are held newest first. -/
  | body (name : Token) (reversed : List Token)
  | constantName
  /-- The pieces so far are held newest first. -/
  | string (reversed : List Token)
  deriving DecidableEq, Repr

inductive Reading where
  | pending (state : Pending)
  | complete (instruction : Instruction)
  | invalid (failure : Failure)
  deriving DecidableEq, Repr

structure Program where
  instructions : List Instruction
  /-- How the program ends once all its instructions have succeeded. -/
  ending : Outcome
  deriving DecidableEq, Repr

namespace Token

def colon : Token := text ":"

def semicolon : Token := text ";"

def dot : Token := text "."

def words : Token := text "words"

def constant : Token := text "constant"

def quotation : Token := text ".\""

def quoteMark : Bytes := text "\""

/-- The tokens that open an instruction of their own, whatever is defined. -/
def special : List Token := [colon, dot, words, constant, quotation]

end Token

namespace Instruction

/-- The token that the instruction starts with. -/
def opener : Instruction → Token
  | define _ _ => Token.colon
  | print => Token.dot
  | words => Token.words
  | constant _ => Token.constant
  | say _ => Token.quotation
  | refer token => token

end Instruction

namespace Pending

/-- How a program ends whose tokens run out in this state. -/
def ending : Pending → Outcome
  | idle => .done
  | definition => .failed .unterminatedDefinition
  | body _ _ => .failed .unterminatedDefinition
  | constantName => .failed .missingConstantName
  | string _ => .failed .unterminatedString

def start (token : Token) : Reading :=
  if token.isEmpty then .pending idle
  else if token = Token.colon then .pending definition
  else if token = Token.dot then .complete .print
  else if token = Token.words then .complete .words
  else if token = Token.constant then .pending constantName
  else if token = Token.quotation then .pending (string [])
  else .complete (.refer token)

/-- The text of a string literal. A closing token of one quote mark adds no
piece, so the space before it is dropped. -/
def closeString (reversed : List Token) (token : Token) : Bytes :=
  let pieces := if token = Token.quoteMark then reversed else token.dropLast :: reversed
  Bytes.join [Bytes.space] pieces.reverse

def feed : Pending → Token → Reading
  | idle, token => start token
  | definition, token =>
    if token.isEmpty then .pending definition
    else if validWordName token then .pending (body token [])
    else .invalid (.invalidWordName token)
  | body name reversed, token =>
    if token = Token.semicolon then .complete (.define name reversed.reverse)
    else if token.isEmpty then .pending (body name reversed)
    else .pending (body name (token :: reversed))
  | constantName, token =>
    if token.isEmpty then .pending constantName else .complete (.constant token)
  | string reversed, token =>
    if token.endsWith Token.quoteMark then .complete (.say (closeString reversed token))
    else .pending (string (token :: reversed))

end Pending

namespace Program

def readFrom : Pending → List Token → Program
  | state, [] => ⟨[], state.ending⟩
  | state, token :: rest =>
    match state.feed token with
    | .pending next => readFrom next rest
    | .complete instruction =>
      let program := readFrom .idle rest
      ⟨instruction :: program.instructions, program.ending⟩
    | .invalid failure => ⟨[], .failed failure⟩

def ofTokens (tokens : List Token) : Program := readFrom .idle tokens

end Program

end LineForth
