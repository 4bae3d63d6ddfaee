import LineForth.Text.Template

/-!
# Tracing

A trace line is a margin, a mark and a message. Marks line up at the right: the
widest mark so far sets the width, and a shorter one is padded by repeating its
first character. Margins nest, one for each level that is entered and not left.
-/

set_option autoImplicit false

namespace LineForth

structure Tracer where
  active : Bool
  /-- The margins of the levels entered, innermost first. -/
  margins : List Bytes
  /-- The length in octets of the widest mark so far. -/
  markWidth : Nat
  deriving DecidableEq, Repr

namespace Tracer

def silent : Tracer := ⟨false, [], 0⟩

def listening : Tracer := ⟨true, [], 0⟩

def enter (tracer : Tracer) (margin : Bytes) : Tracer :=
  { tracer with margins := margin :: tracer.margins }

def leave (tracer : Tracer) : Tracer :=
  { tracer with margins := tracer.margins.drop 1 }

/-- Pads by the number of octets that are missing, one character for each. -/
def pad (width : Nat) (mark : Bytes) : Bytes :=
  match Utf8.glyphs mark with
  | [] => mark
  | glyph :: _ =>
    (List.replicate (width - mark.length) (Utf8.encode glyph.char)).flatten ++ mark

/-- The margins are part of the template that the line is made from. -/
def line (tracer : Tracer) (mark message : Bytes) : Bytes :=
  Template.render (tracer.margins.reverse.flatten ++ text "%v %v")
    [.bytes (pad tracer.markWidth mark), .bytes message]

/-- The trace line for a message, if anyone listens. -/
def log (tracer : Tracer) (mark message : Bytes) : Option Bytes × Tracer :=
  if tracer.active then
    (some (tracer.line mark message),
      { tracer with markWidth := Nat.max tracer.markWidth mark.length })
  else (none, tracer)

end Tracer

end LineForth
