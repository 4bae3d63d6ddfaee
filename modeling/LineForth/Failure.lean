import LineForth.Text.Decimal
import LineForth.Text.Quoted

/-!
# Failures and outcomes

A failure is what an operation reports; it may carry the failure that caused it.
A panic is no report but an abrupt end: it passes through everything until some
operation recovers it, which turns it into a failure.
-/

set_option autoImplicit false

namespace LineForth

inductive Failure where
  /-- An operand was missing; `operand` says which one. -/
  | emptyStack (operand : Bytes)
  | invalidWordName (name : Bytes)
  | unknownToken (token : Bytes)
  /-- A call of `callee` was refused because `depth` calls were active. -/
  | recursionLimit (callee : Bytes) (depth : Nat)
  | unterminatedDefinition
  | unterminatedString
  | missingConstantName
  | divideByZero
  | endOfInput
  | shortWrite
  | canceled
  | deadlineExceeded
  /-- A violated check of the machine itself, such as an index out of range. -/
  | trap (description : Bytes)
  | other (description : Bytes)
  /-- A failure attributed to the word whose body raised it. -/
  | inWord (word : Bytes) (cause : Failure)
  /-- A failure with its context in front. -/
  | context (description : Bytes) (cause : Failure)
  /-- A recovered panic that was raised with a plain value. -/
  | panicked (name value : Bytes)
  /-- A recovered panic that was raised with a failure. -/
  | panickedWith (name : Bytes) (cause : Failure)
  deriving DecidableEq, Repr

/-- What a panic was raised with. -/
inductive Panic where
  | value (shown : Bytes)
  | failure (cause : Failure)
  deriving DecidableEq, Repr

inductive Outcome where
  | done
  | failed (failure : Failure)
  | panicked (panic : Panic)
  deriving DecidableEq, Repr

namespace Failure

def message : Failure → Bytes
  | emptyStack operand => text "empty stack: " ++ operand
  | invalidWordName name => text "invalid word name " ++ name.quote
  | unknownToken token => text "unknown token " ++ token.quote
  | recursionLimit callee depth =>
    text "recursion limit exceeded calling " ++ callee.quote ++ text " at depth " ++
      decimalNat depth
  | unterminatedDefinition => text "unterminated word definition"
  | unterminatedString => text "unterminated string"
  | missingConstantName => text "missing constant name"
  | divideByZero => text "division by zero"
  | endOfInput => text "EOF"
  | shortWrite => text "short write"
  | canceled => text "context canceled"
  | deadlineExceeded => text "context deadline exceeded"
  | trap description => text "runtime error: " ++ description
  | other description => description
  | inWord word cause => text "in " ++ word ++ text ": " ++ cause.message
  | context description cause => description ++ text ": " ++ cause.message
  | panicked name value => recovered name value
  | panickedWith name cause => recovered name cause.message
where
  recovered (name shown : Bytes) : Bytes :=
    if name.isEmpty then text "paniced: " ++ shown else name ++ text " paniced: " ++ shown

/-- The failure directly behind this one. -/
def cause? : Failure → Option Failure
  | inWord _ cause => some cause
  | context _ cause => some cause
  | panickedWith _ cause => some cause
  | _ => none

/-- The failure itself and every failure behind it, outermost first. -/
def chain : Failure → List Failure
  | inWord word cause => inWord word cause :: cause.chain
  | context description cause => context description cause :: cause.chain
  | panickedWith name cause => panickedWith name cause :: cause.chain
  | failure => [failure]

def isPanic : Failure → Bool
  | panicked _ _ => true
  | panickedWith _ _ => true
  | _ => false

def isInWord : Failure → Bool
  | inWord _ _ => true
  | _ => false

/-- Whether the end of the input is the failure or one behind it. -/
def isEndOfInput (failure : Failure) : Bool := failure.chain.contains endOfInput

/-- The message, and behind a recovered panic the place of its call stack. -/
def detail (failure : Failure) : Bytes :=
  if failure.isPanic then failure.message ++ text "\nPanic stack: ..." else failure.message

/-- Attributes a failure to a word, unless it is already attributed to one. -/
def blame (word : Bytes) (failure : Failure) : Failure :=
  if failure.isInWord then failure else inWord word failure

/-- The kinds of failure that callers tell apart. -/
inductive Kind where
  | panic
  | emptyStack
  | invalidWordName
  | unknownToken
  | recursionLimit
  | unterminatedDefinition
  | unterminatedString
  | missingConstantName
  | divideByZero
  | endOfInput
  | shortWrite
  | canceled
  | other
  deriving DecidableEq, Repr

/-- The kind of a failure without regard to the failures behind it. -/
def ownKind : Failure → Kind
  | emptyStack _ => .emptyStack
  | invalidWordName _ => .invalidWordName
  | unknownToken _ => .unknownToken
  | recursionLimit _ _ => .recursionLimit
  | unterminatedDefinition => .unterminatedDefinition
  | unterminatedString => .unterminatedString
  | missingConstantName => .missingConstantName
  | divideByZero => .divideByZero
  | endOfInput => .endOfInput
  | shortWrite => .shortWrite
  | canceled => .canceled
  | panicked _ _ => .panic
  | panickedWith _ _ => .panic
  | _ => .other

/-- The order in which a chain is searched for a kind. -/
def kinds : List Kind :=
  [.panic, .emptyStack, .invalidWordName, .unknownToken, .recursionLimit,
    .unterminatedDefinition, .unterminatedString, .missingConstantName, .divideByZero,
    .endOfInput, .shortWrite, .canceled]

/-- The first of `kinds` that some failure of the chain has. -/
def kind (failure : Failure) : Kind :=
  (kinds.find? fun kind => failure.chain.any fun link => link.ownKind = kind).getD .other

/-- The word that the failure is attributed to. -/
def word? (failure : Failure) : Option Bytes :=
  failure.chain.findSome? fun link =>
    match link with
    | inWord word _ => some word
    | _ => none

/-- The refused call in the chain: the callee and the number of active calls. -/
def refusedCall? (failure : Failure) : Option (Bytes × Nat) :=
  failure.chain.findSome? fun link =>
    match link with
    | recursionLimit callee depth => some (callee, depth)
    | _ => none

end Failure

namespace Panic

def shown : Panic → Bytes
  | value shown => shown
  | failure cause => cause.message

def recover (name : Bytes) : Panic → Failure
  | value shown => .panicked name shown
  | failure cause => .panickedWith name cause

end Panic

namespace Outcome

def ofFailure? : Option Failure → Outcome
  | none => done
  | some failure => failed failure

/-- Turns a panic into a failure under the given name. -/
def recover (name : Bytes) : Outcome → Outcome
  | panicked panic => failed (panic.recover name)
  | outcome => outcome

/-- Attributes a failure to a word; panics pass unchanged. -/
def blame (word : Bytes) : Outcome → Outcome
  | failed failure => failed (failure.blame word)
  | outcome => outcome

/-- The first failure wins: `later` counts only after success. A panic of `later`
always counts. -/
def orElse (earlier later : Outcome) : Outcome :=
  match earlier, later with
  | _, panicked panic => panicked panic
  | done, later => later
  | earlier, _ => earlier

end Outcome

end LineForth
