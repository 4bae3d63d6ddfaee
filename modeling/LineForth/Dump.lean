import LineForth.Machine

/-!
# Dumps

A dump shows the state of a machine: the depth, the stack, and one section each
for the words and the constants, if there are any. The names of a section are
padded to one width, so that its values line up. A dump is put out line by line.
How the body of a word is shown is up to whoever asks for the dump.
-/

set_option autoImplicit false

namespace LineForth

namespace Dump

/-- A column wider than this is not laid out. -/
def widestColumn : Nat := 1000000

/-- The width is measured in octets, the padding in characters. -/
def columnWidth (names : List Bytes) : Nat := (names.map List.length).foldl Nat.max 0

def pad (width : Nat) (name : Bytes) : Bytes :=
  if width ≤ widestColumn then
    name ++ List.replicate (width - Utf8.count name) Bytes.space
  else text "%!(BADWIDTH)" ++ name

def row (width : Nat) (name value : Bytes) : Bytes :=
  text "  " ++ pad width name ++ text " " ++ value ++ [Bytes.newline]

def heading (title : Bytes) : Bytes := text "# " ++ title ++ [Bytes.newline]

def block (title : Bytes) (names : List Bytes) (value : Bytes → Bytes) : List Bytes :=
  if names.isEmpty then []
  else
    let width := columnWidth names
    heading title :: names.map fun name => row width name (value name)

/-- A body as a list of quoted tokens. -/
def renderBody : List Token → Bytes
  | [] => text "nil"
  | body =>
    text "[]string\x7b" ++ Bytes.join (text ", ") (body.map Bytes.quote) ++ text "\x7d"

end Dump

namespace Machine

variable {σ : Type}

def dumpLines (m : Machine σ) (render : List Token → Bytes) : List Bytes :=
  [Dump.heading (text "Interp Dump"),
    text "  depth: " ++ decimalNat m.depth ++ text "/" ++ decimalNat m.maxDepth ++
      [Bytes.newline],
    text "  stack: " ++ m.stack.render ++ [Bytes.newline]] ++
    Dump.block (text "Words") m.words.names
      (fun name => render ((m.words.lookup? name).getD [])) ++
    Dump.block (text "Constants") m.constants.names
      (fun name => decimal ((m.constants.lookup? name).getD 0).toInt)

def dump (m : Machine σ) (render : List Token → Bytes) : Bytes := (m.dumpLines render).flatten

end Machine

end LineForth
