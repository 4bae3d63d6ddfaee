import LineForth.Text.Utf8

/-!
# White space at the ends of a byte string

The white space characters are those with the Unicode property White_Space.
A byte string is trimmed by taking whole encodings of such characters away from
its ends; an octet that is no part of one ends the trimming.
-/

set_option autoImplicit false

namespace LineForth

namespace Blank

def codePoints : List Nat :=
  [0x09, 0x0A, 0x0B, 0x0C, 0x0D, 0x20, 0x85, 0xA0, 0x1680, 0x2000, 0x2001, 0x2002, 0x2003,
    0x2004, 0x2005, 0x2006, 0x2007, 0x2008, 0x2009, 0x200A, 0x2028, 0x2029, 0x202F, 0x205F,
    0x3000]

def encodings : List Bytes := codePoints.map (fun value => Utf8.encode (Char.ofNat value))

/-- The octets that one of the sequences takes at the front, and 0 if none of
them stands there. -/
def leading (sequences : List Bytes) (octets : Bytes) : Nat :=
  match sequences.find? (fun sequence => sequence.isPrefixOf octets) with
  | some sequence => sequence.length
  | none => 0

/-- Drops `skipped` octets, then sequences from the front for as long as one of
them stands there. -/
def strip (sequences : List Bytes) : (skipped : Nat) → Bytes → Bytes
  | _, [] => []
  | skipped + 1, _ :: rest => strip sequences skipped rest
  | 0, octet :: rest =>
    match leading sequences (octet :: rest) with
    | 0 => octet :: rest
    | following + 1 => strip sequences following rest

end Blank

namespace Bytes

def trimStart (octets : Bytes) : Bytes := Blank.strip Blank.encodings 0 octets

def trimEnd (octets : Bytes) : Bytes :=
  (Blank.strip (Blank.encodings.map List.reverse) 0 octets.reverse).reverse

def trim (octets : Bytes) : Bytes := (trimStart octets).trimEnd

/-- Nothing but white space. -/
def isBlank (octets : Bytes) : Bool := octets.trim.isEmpty

end Bytes

end LineForth
