import LineForth.Text.Blank

/-!
# Tokens

A line is cut at every single space and each piece is trimmed, so runs of spaces
give blank tokens. A cursor walks the tokens of a line once, from left to right.
-/

set_option autoImplicit false

namespace LineForth

abbrev Token := Bytes

def tokenize (line : Bytes) : List Token :=
  (Bytes.fields Bytes.space line).map Bytes.trim

structure Cursor where
  /-- How many tokens have been handed out. -/
  index : Nat
  /-- The tokens not handed out yet. -/
  remaining : List Token
  deriving DecidableEq, Repr

namespace Cursor

def ofTokens (tokens : List Token) : Cursor := ⟨0, tokens⟩

def next (cursor : Cursor) : Option Token × Cursor :=
  match cursor.remaining with
  | [] => (none, cursor)
  | token :: rest => (some token, ⟨cursor.index + 1, rest⟩)

def nameFrom : (index : Nat) → List Token → Option Token × Cursor
  | index, [] => (none, ⟨index, []⟩)
  | index, token :: rest =>
    if token.isEmpty then nameFrom (index + 1) rest else (some token, ⟨index + 1, rest⟩)

/-- The next token that is not blank. -/
def name (cursor : Cursor) : Option Token × Cursor :=
  nameFrom cursor.index cursor.remaining

end Cursor

end LineForth
