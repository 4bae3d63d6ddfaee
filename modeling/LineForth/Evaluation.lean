import LineForth.Machine

/-!
# Evaluation

A program is executed instruction by instruction and stops at the first one that
does not succeed; what was done before stays done. A call executes the body of a
word with one more call active. The recursion follows the number of calls that
the limit still allows, so a word that calls itself ends in a failure.
-/

set_option autoImplicit false

namespace LineForth

namespace Machine

variable {σ : Type}

def defineWord (m : Machine σ) (name : Token) (body : List Token) : Machine σ :=
  let defined := { m with words := m.words.define name body }
  match m.words.lookup? name with
  | none =>
    defined.trace (text ":") (text "define " ++ name ++ text " " ++ Bytes.quoteList body)
  | some before =>
    defined.trace (text ":") (text "redefine " ++ name ++ text " " ++ Bytes.quoteList body ++
      text " (was " ++ Bytes.quoteList before ++ text ")")

def defineConstant (m : Machine σ) (name : Token) (value : Cell) : Machine σ :=
  let defined := { m with constants := m.constants.define name value }
  match m.constants.lookup? name with
  | none =>
    defined.trace (text ":") (text "define constant " ++ name ++ text " = " ++
      decimal value.toInt)
  | some before =>
    defined.trace (text ":") (text "redefine constant " ++ name ++ text " = " ++
      decimal value.toInt ++ text " (was " ++ decimal before.toInt ++ text ")")

/-- Takes the value off the stack and binds it. -/
def bindConstant (m : Machine σ) (name : Token) : Outcome × Machine σ :=
  match Stack.pop (text "value for constant " ++ name) m.stack with
  | .ok value rest => (.done, { m with stack := rest }.defineConstant name value)
  | .error failure rest => (.failed failure, { m with stack := rest })

def operate (m : Machine σ) (operator : Builtin) : Outcome × Machine σ :=
  let (outcome, stack) := operator.apply m.stack
  (outcome, { m with stack := stack })

def push (m : Machine σ) (value : Cell) : Machine σ := { m with stack := value :: m.stack }

/-- How the body of a word is called. -/
abbrev Call (σ : Type) := Token → List Token → Machine σ → Outcome × Machine σ

def refer (call : Call σ) (token : Token) (m : Machine σ) : Outcome × Machine σ :=
  match m.meaning token with
  | .word body => call token body m
  | .builtin operator => m.operate operator
  | .constant value => (.done, m.push value)
  | .literal value => (.done, m.push value)
  | .unknown => (.failed (.unknownToken token), m)

variable [Output σ]

def printStack (m : Machine σ) : Outcome × Machine σ :=
  m.write .direct (text "> " ++ m.stack.render ++ [Bytes.newline])

/-- The operators in table order, then the words in definition order. -/
def listWords (m : Machine σ) : Outcome × Machine σ :=
  m.write .staged
    (Bytes.join [Bytes.space] (Builtin.names ++ m.words.names) ++ [Bytes.newline])

def say (m : Machine σ) (line : Bytes) : Outcome × Machine σ :=
  m.write .staged (line ++ [Bytes.newline])

def perform (call : Call σ) (instruction : Instruction) (m : Machine σ) :
    Outcome × Machine σ :=
  match instruction with
  | .define name body => (.done, m.defineWord name body)
  | .print => m.printStack
  | .words => m.listWords
  | .constant name => m.bindConstant name
  | .say line => m.say line
  | .refer token => refer call token m

def performAll (call : Call σ) (ending : Outcome) :
    List Instruction → Machine σ → Outcome × Machine σ
  | [], m => (ending, m)
  | instruction :: rest, m =>
    match perform call instruction m with
    | (.done, after) =>
      performAll call ending rest (after.traceRule (m.ruleName instruction) instruction.opener)
    | stopped => stopped

def execute (call : Call σ) (tokens : List Token) (m : Machine σ) : Outcome × Machine σ :=
  let program := Program.ofTokens tokens
  performAll call program.ending program.instructions m

/-- Calls a word while `levels` more calls may become active. The depth and the
margin are restored however the body ends. -/
def call : (levels : Nat) → Call σ
  | 0, name, _, m => (.failed (.recursionLimit name m.depth), m)
  | levels + 1, name, body, m =>
    let (outcome, after) := execute (call levels) body m.enter
    (outcome.blame name, after.leave)

/-- Executes tokens under the limit of the machine. -/
def evalTokens (tokens : List Token) (m : Machine σ) : Outcome × Machine σ :=
  execute (call (m.maxDepth - m.depth)) tokens m

def echoStack (m : Machine σ) : Outcome × Machine σ :=
  if m.echo then m.printStack else (.done, m)

/-- Flushes, unless a panic is under way, and keeps an earlier failure. -/
def finish (result : Outcome × Machine σ) : Outcome × Machine σ :=
  match result with
  | (.panicked panic, m) => (.panicked panic, m)
  | (outcome, m) =>
    let (flushed, after) := m.flush
    (outcome.orElse flushed, after)

/-- Evaluates one line. Panics of its tokens are recovered; the echo of the
stack and the flush stand outside that recovery. -/
def eval (line : Bytes) (m : Machine σ) : Outcome × Machine σ :=
  let (outcome, evaluated) :=
    evalTokens (tokenize line) (m.trace (text ">") (text "eval " ++ line.quote))
  match outcome.recover (text "eval") with
  | .done => finish evaluated.echoStack
  | failed => finish (failed, evaluated)

end Machine

end LineForth
