import LineForth.Text.Printable

/-!
# Quoted text

Messages show byte strings between double quotes. Printable characters stand
for themselves; every other character and every stray octet is written as an
escape, so a quoted text is always well-formed and on one line.
-/

set_option autoImplicit false

namespace LineForth

namespace Quoted

def backslash : UInt8 := 0x5C

def hexDigit (value : Nat) : UInt8 :=
  if value < 10 then (0x30 + value).toUInt8 else (0x57 + value).toUInt8

/-- The lowest `width` hexadecimal digits. -/
def hexadecimal : (width value : Nat) → Bytes
  | 0, _ => []
  | width + 1, value => hexadecimal width (value / 16) ++ [hexDigit (value % 16)]

/-- The control characters with a letter of their own. -/
def letters : List (Nat × UInt8) :=
  [(0x07, 0x61), (0x08, 0x62), (0x0C, 0x66), (0x0A, 0x6E), (0x0D, 0x72), (0x09, 0x74),
    (0x0B, 0x76)]

def escape (mark : Char) : Glyph → Bytes
  | .stray octet => backslash :: 0x78 :: hexadecimal 2 octet.toNat
  | .character c =>
    if c = mark ∨ c.toNat = backslash.toNat then backslash :: Utf8.encode c
    else if isPrintable c then Utf8.encode c
    else
      match letters.lookup c.toNat with
      | some letter => [backslash, letter]
      | none =>
        if c.toNat < 0x20 ∨ c.toNat = 0x7F then backslash :: 0x78 :: hexadecimal 2 c.toNat
        else if c.toNat < 0x10000 then backslash :: 0x75 :: hexadecimal 4 c.toNat
        else backslash :: 0x55 :: hexadecimal 8 c.toNat

def enclose (mark : Char) (glyphs : List Glyph) : Bytes :=
  Utf8.encode mark ++ glyphs.flatMap (escape mark) ++ Utf8.encode mark

end Quoted

namespace Bytes

def quote (octets : Bytes) : Bytes := Quoted.enclose (Char.ofNat 0x22) (Utf8.glyphs octets)

/-- The quoted pieces between brackets, with spaces between them. -/
def quoteList (pieces : List Bytes) : Bytes :=
  text "[" ++ join [space] (pieces.map quote) ++ text "]"

end Bytes

end LineForth
