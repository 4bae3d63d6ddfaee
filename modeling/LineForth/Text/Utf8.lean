import LineForth.Text.Bytes

/-!
# Characters in byte strings

A byte string is read as characters from the left. A well-formed UTF-8 sequence
is one character; an octet that starts no well-formed sequence stands alone, so
every byte string has exactly one reading and no octet is lost.
-/

set_option autoImplicit false

namespace LineForth

inductive Glyph where
  | character (c : Char)
  /-- An octet that belongs to no well-formed sequence. -/
  | stray (octet : UInt8)
  deriving DecidableEq, Repr

namespace Utf8

/-- What a first octet promises: how many octets follow it, the payload it
carries, and the range that the second octet must lie in. -/
structure Lead where
  following : Nat
  payload : Nat
  low : UInt8
  high : UInt8

def lead? (octet : UInt8) : Option Lead :=
  if octet < 0x80 then some ⟨0, octet.toNat, 0x80, 0xBF⟩
  else if octet < 0xC2 then none
  else if octet < 0xE0 then some ⟨1, octet.toNat - 0xC0, 0x80, 0xBF⟩
  else if octet = 0xE0 then some ⟨2, 0, 0xA0, 0xBF⟩
  else if octet = 0xED then some ⟨2, 0xD, 0x80, 0x9F⟩
  else if octet < 0xF0 then some ⟨2, octet.toNat - 0xE0, 0x80, 0xBF⟩
  else if octet = 0xF0 then some ⟨3, 0, 0x90, 0xBF⟩
  else if octet < 0xF4 then some ⟨3, octet.toNat - 0xF0, 0x80, 0xBF⟩
  else if octet = 0xF4 then some ⟨3, 4, 0x80, 0x8F⟩
  else none

/-- Reads `count` continuation octets behind the payload read so far. Only the
first of them has the range of the lead octet; the others take any
continuation octet. -/
def continue? (low high : UInt8) : (count payload : Nat) → Bytes → Option Nat
  | 0, payload, _ => some payload
  | _ + 1, _, [] => none
  | count + 1, payload, octet :: rest =>
    if low ≤ octet ∧ octet ≤ high then
      continue? 0x80 0xBF count (payload * 64 + (octet.toNat - 0x80)) rest
    else none

/-- The character or stray octet at the front of `octet :: rest`, with the
number of octets of `rest` that belong to it. -/
def front (octet : UInt8) (rest : Bytes) : Glyph × Nat :=
  match lead? octet with
  | none => (.stray octet, 0)
  | some lead =>
    match continue? lead.low lead.high lead.following lead.payload rest with
    | none => (.stray octet, 0)
    | some value => (.character (Char.ofNat value), lead.following)

def glyphsAfter : Nat → Bytes → List Glyph
  | _, [] => []
  | skipped + 1, _ :: rest => glyphsAfter skipped rest
  | 0, octet :: rest =>
    let (glyph, following) := front octet rest
    glyph :: glyphsAfter following rest

/-- The reading of a byte string. -/
def glyphs (octets : Bytes) : List Glyph := glyphsAfter 0 octets

/-- How many characters and stray octets there are. -/
def count (octets : Bytes) : Nat := (glyphs octets).length

def isValid (octets : Bytes) : Bool :=
  (glyphs octets).all fun glyph =>
    match glyph with
    | .character _ => true
    | .stray _ => false

def encode (c : Char) : Bytes := String.utf8EncodeChar c

/-- Stands in for an octet that is no character. -/
def replacement : Char := Char.ofNat 0xFFFD

theorem length_glyphsAfter_le (skipped : Nat) (octets : Bytes) :
    (glyphsAfter skipped octets).length ≤ octets.length := by
  induction octets generalizing skipped with
  | nil => simp [glyphsAfter]
  | cons octet rest inductionHypothesis =>
    cases skipped with
    | zero => simpa [glyphsAfter] using inductionHypothesis _
    | succ fewer => exact Nat.le_succ_of_le (inductionHypothesis fewer)

theorem count_le_length (octets : Bytes) : count octets ≤ octets.length :=
  length_glyphsAfter_le 0 octets

end Utf8

/-- The character shown for a glyph. -/
def Glyph.char : Glyph → Char
  | .character c => c
  | .stray _ => Utf8.replacement

end LineForth
