import LineForth.Text.Decimal
import LineForth.Text.Quoted

/-!
# Message templates

A template is literal text with directives. A directive is a percent sign, any
flags, and a verb: `v` shows an argument as it is, `s` a text, `d` an integer,
`q` an argument in quotes, and a second percent sign is a percent sign. What
does not fit is shown in the result instead of being dropped: an argument of
the wrong type, a missing argument, arguments left over, a directive without a
verb.
-/

set_option autoImplicit false

namespace LineForth

inductive Argument where
  | bytes (value : Bytes)
  | integer (value : Int)
  deriving DecidableEq, Repr

namespace Template

/-- The flags that change how an integer without a sign is shown. -/
structure Flags where
  plus : Bool
  space : Bool

def noFlags : Flags := ⟨false, false⟩

def flag? (flags : Flags) (octet : UInt8) : Option Flags :=
  if octet = 0x2B then some { flags with plus := true }
  else if octet = 0x20 then some { flags with space := true }
  else if octet = 0x2D ∨ octet = 0x23 ∨ octet = 0x30 then some flags
  else none

def signed (flags : Flags) (value : Int) : Bytes :=
  if value < 0 then decimal value
  else if flags.plus then text "+" ++ decimal value
  else if flags.space then text " " ++ decimal value
  else decimal value

def quoteInteger (value : Int) : Bytes :=
  let c := if 0 ≤ value then Char.ofNat value.toNat else Utf8.replacement
  let shown := if (c.toNat : Int) = value then c else Utf8.replacement
  Quoted.enclose (Char.ofNat 0x27) [.character shown]

def typed : Argument → Bytes
  | .bytes value => text "string=" ++ value
  | .integer value => text "int=" ++ decimal value

def mismatch (verb : Char) (argument : Argument) : Bytes :=
  text "%!" ++ Utf8.encode verb ++ text "(" ++ typed argument ++ text ")"

def directive (flags : Flags) (verb : Char) (argument : Argument) : Bytes :=
  match argument with
  | .bytes value =>
    if verb = 'v' ∨ verb = 's' then value
    else if verb = 'q' then value.quote
    else mismatch verb argument
  | .integer value =>
    if verb = 'v' then signed { flags with plus := false } value
    else if verb = 'd' then signed flags value
    else if verb = 'q' then quoteInteger value
    else mismatch verb argument

def missing (verb : Char) : Bytes :=
  text "%!" ++ Utf8.encode verb ++ text "(MISSING)"

def leftOver : List Argument → Bytes
  | [] => []
  | arguments =>
    text "%!(EXTRA " ++ Bytes.join (text ", ") (arguments.map typed) ++ text ")"

/-- Where the reading of a template stands. -/
inductive Position where
  | literal
  | directive (flags : Flags)
  /-- Inside a verb of several octets. -/
  | verb (following : Nat)

def percent : UInt8 := 0x25

def renderFrom : Position → Bytes → List Argument → Bytes
  | .directive _, [], arguments => text "%!(NOVERB)" ++ leftOver arguments
  | .literal, [], arguments => leftOver arguments
  | .verb _, [], arguments => leftOver arguments
  | .verb (following + 1), _ :: rest, arguments => renderFrom (.verb following) rest arguments
  | .directive flags, octet :: rest, arguments =>
    match flag? flags octet with
    | some more => renderFrom (.directive more) rest arguments
    | none =>
      if octet = percent then percent :: renderFrom .literal rest arguments
      else
        let (glyph, following) := Utf8.front octet rest
        match arguments with
        | [] => missing glyph.char ++ renderFrom (.verb following) rest []
        | argument :: others =>
          directive flags glyph.char argument ++ renderFrom (.verb following) rest others
  | .literal, octet :: rest, arguments =>
    if octet = percent then renderFrom (.directive noFlags) rest arguments
    else octet :: renderFrom .literal rest arguments
  | .verb 0, octet :: rest, arguments =>
    if octet = percent then renderFrom (.directive noFlags) rest arguments
    else octet :: renderFrom .literal rest arguments

def render (template : Bytes) (arguments : List Argument) : Bytes :=
  renderFrom .literal template arguments

/-- A message without arguments is taken literally. -/
def message (template : Bytes) : List Argument → Bytes
  | [] => template
  | arguments => render template arguments

end Template

end LineForth
