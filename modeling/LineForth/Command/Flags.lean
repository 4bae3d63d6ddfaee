import LineForth.Command.Duration
import LineForth.Machine

/-!
# Command line flags

Flags come before the file names. A flag starts with one or two dashes; a
switch takes a value only behind an equals sign, every other flag takes one
behind an equals sign or as the next argument. Two dashes alone end the flags,
and so does the first argument that is no flag.
-/

set_option autoImplicit false

namespace LineForth

inductive Flag where
  | dump
  | echo
  | history
  | maxDepth
  | prompt
  | strict
  | timeout
  | trace
  deriving DecidableEq, Repr

/-- What the command line asks for. -/
structure Options where
  dump : Bool
  echo : Bool
  history : Bytes
  maxDepth : Int
  prompt : Bytes
  strict : Bool
  /-- In nanoseconds; 0 sets no time limit. -/
  timeout : Int
  trace : Bool
  files : List Bytes
  deriving DecidableEq, Repr

/-- Why the command line is not followed. -/
inductive UsageProblem where
  | help
  | badSyntax (argument : Bytes)
  | undefined (name : Bytes)
  | needsArgument (name : Bytes)
  | invalidSwitch (value name : Bytes) (problem : ArgumentProblem)
  | invalidValue (value name : Bytes) (problem : ArgumentProblem)
  deriving DecidableEq, Repr

namespace Flag

def all : List Flag := [dump, echo, history, maxDepth, prompt, strict, timeout, trace]

def name : Flag → Bytes
  | dump => text "dump"
  | echo => text "echo"
  | history => text "history"
  | maxDepth => text "max-depth"
  | prompt => text "prompt"
  | strict => text "strict"
  | timeout => text "timeout"
  | trace => text "trace"

def ofName? (name : Bytes) : Option Flag := all.find? fun flag => flag.name = name

def isSwitch : Flag → Bool
  | dump => true
  | echo => true
  | strict => true
  | trace => true
  | _ => false

/-- The type of value that the usage text shows. -/
def valueType : Flag → Bytes
  | history => text " string"
  | maxDepth => text " int"
  | prompt => text " string"
  | timeout => text " duration"
  | _ => []

def description : Flag → Bytes
  | dump => text "dump interpreter state to stderr at exit"
  | echo => text "print the stack after every line"
  | history => text "interactive history file"
  | maxDepth => text "limit word nesting depth (default 1024)"
  | prompt => text "interactive prompt (default \"> \")"
  | strict => text "exit non-zero if any line fails"
  | timeout => text "specify a time limit"
  | trace => text "enable trace logging"

end Flag

namespace UsageProblem

def usage : Bytes :=
  text "Usage of goforth:\n" ++
    Flag.all.flatMap fun flag =>
      text "  -" ++ flag.name ++ flag.valueType ++ text "\n    \t" ++ flag.description ++
        text "\n"

def message : UsageProblem → Bytes
  | help => []
  | badSyntax argument => text "bad flag syntax: " ++ argument ++ text "\n"
  | undefined name => text "flag provided but not defined: -" ++ name ++ text "\n"
  | needsArgument name => text "flag needs an argument: -" ++ name ++ text "\n"
  | invalidSwitch value name problem =>
    text "invalid boolean value " ++ value.quote ++ text " for -" ++ name ++ text ": " ++
      problem.message ++ text "\n"
  | invalidValue value name problem =>
    text "invalid value " ++ value.quote ++ text " for flag -" ++ name ++ text ": " ++
      problem.message ++ text "\n"

def exitCode : UsageProblem → Nat
  | help => 0
  | _ => 2

end UsageProblem

namespace Options

def initial : Options where
  dump := false
  echo := false
  history := []
  maxDepth := Machine.defaultMaxDepth
  prompt := text "> "
  strict := false
  timeout := 0
  trace := false
  files := []

def trueWords : List Bytes :=
  [text "1", text "t", text "T", text "true", text "TRUE", text "True"]

def falseWords : List Bytes :=
  [text "0", text "f", text "F", text "false", text "FALSE", text "False"]

def parseSwitch (value : Bytes) : Except ArgumentProblem Bool :=
  if trueWords.contains value then .ok true
  else if falseWords.contains value then .ok false
  else .error .malformed

/-- Sets a flag from the text of its value. -/
def set (options : Options) (flag : Flag) (value : Bytes) : Except ArgumentProblem Options :=
  match flag with
  | .dump => (parseSwitch value).map fun on => { options with dump := on }
  | .echo => (parseSwitch value).map fun on => { options with echo := on }
  | .strict => (parseSwitch value).map fun on => { options with strict := on }
  | .trace => (parseSwitch value).map fun on => { options with trace := on }
  | .history => .ok { options with history := value }
  | .prompt => .ok { options with prompt := value }
  | .maxDepth => (Integer.parse value).map fun limit => { options with maxDepth := limit }
  | .timeout => (Duration.parse value).map fun limit => { options with timeout := limit }

def setSwitch (options : Options) (flag : Flag) (value : Bytes) : Except UsageProblem Options :=
  match options.set flag value with
  | .ok changed => .ok changed
  | .error problem => .error (.invalidSwitch value flag.name problem)

def setValue (options : Options) (flag : Flag) (value : Bytes) : Except UsageProblem Options :=
  match options.set flag value with
  | .ok changed => .ok changed
  | .error problem => .error (.invalidValue value flag.name problem)

def dash : UInt8 := 0x2D

def equals : UInt8 := 0x3D

/-- What one argument is at the place of a flag. -/
inductive Shape where
  | file
  | terminator
  | malformed
  | flag (name : Bytes) (value : Option Bytes)
  deriving DecidableEq, Repr

/-- The name of a flag and the value behind its first equals sign. -/
def splitValue (flag : Bytes) : Bytes × Option Bytes :=
  let name := flag.takeWhile fun octet => octet ≠ equals
  match flag.dropWhile fun octet => octet ≠ equals with
  | [] => (name, none)
  | _ :: value => (name, some value)

def shape (argument : Bytes) : Shape :=
  if argument.length < 2 ∨ argument.head? ≠ some dash then .file
  else if argument = [dash, dash] then .terminator
  else
    let flag := if argument[1]? = some dash then argument.drop 2 else argument.drop 1
    if flag.head? = some dash ∨ flag.head? = some equals then .malformed
    else
      let (name, value) := splitValue flag
      .flag name value

def parseFrom (options : Options) : List Bytes → Except UsageProblem Options
  | [] => .ok options
  | argument :: rest =>
    match shape argument with
    | .file => .ok { options with files := argument :: rest }
    | .terminator => .ok { options with files := rest }
    | .malformed => .error (.badSyntax argument)
    | .flag name value =>
      match Flag.ofName? name with
      | none =>
        if name = text "help" ∨ name = text "h" then .error .help else .error (.undefined name)
      | some flag =>
        if flag.isSwitch then
          match options.setSwitch flag (value.getD (text "true")) with
          | .ok changed => parseFrom changed rest
          | .error problem => .error problem
        else
          match value, rest with
          | some value, rest =>
            match options.setValue flag value with
            | .ok changed => parseFrom changed rest
            | .error problem => .error problem
          | none, [] => .error (.needsArgument name)
          | none, next :: others =>
            match options.setValue flag next with
            | .ok changed => parseFrom changed others
            | .error problem => .error problem

def parse (arguments : List Bytes) : Except UsageProblem Options := initial.parseFrom arguments

end Options

end LineForth
