import LineForth.Proofs.Text.Readings
import LineForth.Proofs.Tokens
import Mathlib.Data.List.DropRight

/-!
# Trimming and readings

Trimming takes encodings of white space away from both ends of a byte string, without reading
it. It comes to the same as reading the byte string and dropping the white space characters
at both ends of the reading: the octets of a character do not occur in a byte string without
being read as this character. An octet that belongs to no character is no white space.
-/

set_option autoImplicit false

namespace LineForth

namespace Glyph

/-- A white space character. -/
def isBlank : Glyph → Bool
  | character c => Blank.codePoints.contains c.toNat
  | stray _ => false

/-- A reading without the white space at its ends. -/
def trimmed (reading : List Glyph) : List Glyph :=
  (reading.dropWhile isBlank).rdropWhile isBlank

theorem octets_mem_encodings {glyph : Glyph} (blank : glyph.isBlank = true) :
    glyph.octets ∈ Blank.encodings := by
  cases glyph with
  | stray octet => cases blank
  | character c =>
    rw [isBlank, List.contains_iff_mem] at blank
    have member := List.mem_map_of_mem (f := fun value => Utf8.encode (Char.ofNat value)) blank
    rwa [Char.ofNat_toNat] at member

end Glyph

namespace Blank

theorem strip_eq_drop (sequences : List Bytes) (skipped : Nat) (octets : Bytes) :
    strip sequences skipped octets = strip sequences 0 (octets.drop skipped) := by
  induction skipped generalizing octets with
  | zero => rfl
  | succ fewer inductionHypothesis =>
    cases octets with
    | nil => rfl
    | cons octet rest => exact inductionHypothesis rest

/-- Nothing is dropped, or a sequence in front is. -/
theorem strip_cases {sequences : List Bytes} (solid : [] ∉ sequences) (octets : Bytes) :
    (strip sequences 0 octets = octets ∧ ∀ sequence ∈ sequences, ¬ sequence <+: octets) ∨
      ∃ sequence ∈ sequences, ∃ rest, octets = sequence ++ rest ∧
        strip sequences 0 octets = strip sequences 0 rest := by
  by_cases none : leading sequences octets = 0
  · exact .inl ⟨strip_of_leading none, (leading_eq_zero_iff solid octets).mp none⟩
  · right
    cases found : sequences.find? fun sequence => sequence.isPrefixOf octets with
    | none => simp [leading, found] at none
    | some sequence =>
      have membership := List.mem_of_find?_eq_some found
      have stands := List.find?_some found
      rw [ List.isPrefixOf_iff_prefix] at stands
      obtain ⟨rest, rfl⟩ := stands
      refine ⟨sequence, membership, rest, rfl, ?_⟩
      cases sequence with
      | nil => exact absurd membership solid
      | cons first following =>
        have taken : leading sequences (first :: (following ++ rest)) = following.length + 1 := by
          rw [leading, ← List.cons_append, found]
          rfl
        simp only [List.cons_append, strip, taken]
        rw [strip_eq_drop, List.drop_left]

/-- What holds where nothing is dropped, and stays when a sequence is put in front, holds of
all octets. -/
theorem strip_induct {sequences : List Bytes} (solid : [] ∉ sequences) {P : Bytes → Prop}
    (bare : ∀ octets, strip sequences 0 octets = octets →
      (∀ sequence ∈ sequences, ¬ sequence <+: octets) → P octets)
    (dropped : ∀ sequence ∈ sequences, ∀ rest,
      strip sequences 0 (sequence ++ rest) = strip sequences 0 rest → P rest → P (sequence ++ rest))
    (octets : Bytes) : P octets := by
  rcases strip_cases solid octets with ⟨same, none⟩ | ⟨sequence, membership, rest, rfl, same⟩
  · exact bare octets same none
  · have shorter : rest.length < (sequence ++ rest).length := by
      have positive := List.length_pos_iff.mpr fun empty : sequence = [] =>
        solid (empty ▸ membership)
      rw [List.length_append]
      omega
    exact dropped sequence membership rest same (strip_induct solid bare dropped rest)
termination_by octets.length

theorem solid_encodings : [] ∉ encodings := by decide +kernel

/-- The encoding of white space is read as such, whatever stands around it. -/
theorem glyphs_encoding {sequence : Bytes} (membership : sequence ∈ encodings) :
    ∃ glyph : Glyph, glyph.isBlank = true ∧
      (∀ rest, Utf8.glyphs (sequence ++ rest) = glyph :: Utf8.glyphs rest) ∧
      ∀ before, Utf8.glyphs (before ++ sequence) = Utf8.glyphs before ++ [glyph] := by
  have reads : ∀ value ∈ codePoints,
      let sequence := Utf8.encode (Char.ofNat value)
      sequence ≠ [] ∧ (sequence.headD 0 < 0x80 ∨ 0xBF < sequence.headD 0) ∧
        Utf8.front (sequence.headD 0) sequence.tail =
          (.character (Char.ofNat value), sequence.tail.length) ∧
        (Glyph.character (Char.ofNat value)).isBlank = true := by
    decide +kernel
  obtain ⟨value, listed, rfl⟩ := List.mem_map.mp membership
  obtain ⟨nonempty, boundary, read, blank⟩ := reads value listed
  refine ⟨.character (Char.ofNat value), blank, ?_⟩
  generalize Utf8.encode (Char.ofNat value) = sequence at nonempty boundary read
  cases sequence with
  | nil => exact absurd rfl nonempty
  | cons first following =>
    rw [List.headD_cons] at boundary
    rw [List.headD_cons, List.tail_cons] at read
    have start (rest : Bytes) : Utf8.glyphs (first :: following ++ rest) =
        .character (Char.ofNat value) :: Utf8.glyphs rest := by
      rw [List.cons_append, Utf8.glyphs_cons, Utf8.front_append read, List.drop_left]
    refine ⟨start, ?_⟩
    intro before
    have alone := start []
    rw [List.append_nil] at alone
    rw [Utf8.glyphs_append boundary, alone]
    rfl

end Blank

namespace Bytes

open Utf8 (glyphs flatMap_glyphs)

theorem glyphs_trimStart (octets : Bytes) :
    glyphs octets.trimStart = (glyphs octets).dropWhile Glyph.isBlank := by
  induction octets using Blank.strip_induct Blank.solid_encodings with
  | bare octets same none =>
    have whole := flatMap_glyphs octets
    rw [trimStart, same]
    cases reading : glyphs octets with
    | nil => rfl
    | cons glyph others =>
      rw [reading, List.flatMap_cons] at whole
      have shows : ¬ glyph.isBlank = true := by
        intro blank
        exact none _ (Glyph.octets_mem_encodings blank) ⟨_, whole⟩
      rw [List.dropWhile_cons, if_neg shows]
  | dropped sequence membership rest same inductionHypothesis =>
    obtain ⟨glyph, blank, front, -⟩ := Blank.glyphs_encoding membership
    rw [trimStart, same, front, List.dropWhile_cons, if_pos blank]
    exact inductionHypothesis

/-- The octets are taken from their end here, so they are looked at in reverse. -/
theorem glyphs_trimEnd_reverse (reversed : Bytes) :
    glyphs (trimEnd reversed.reverse) = (glyphs reversed.reverse).rdropWhile Glyph.isBlank := by
  have solid : [] ∉ Blank.encodings.map List.reverse := by
    simpa using Blank.solid_encodings
  induction reversed using Blank.strip_induct solid with
  | bare reversed same none =>
    have whole := flatMap_glyphs reversed.reverse
    rw [trimEnd, List.reverse_reverse, same]
    rcases List.eq_nil_or_concat (glyphs reversed.reverse) with empty | ⟨others, glyph, reading⟩
    · rw [empty]
      rfl
    · rw [List.concat_eq_append] at reading
      rw [reading, List.flatMap_append, List.flatMap_singleton] at whole
      have shows : ¬ glyph.isBlank = true := by
        intro blank
        have listed := List.mem_map_of_mem (f := List.reverse) (Glyph.octets_mem_encodings blank)
        refine none _ listed ?_
        rw [← List.reverse_reverse reversed, ← whole, List.reverse_append]
        exact List.prefix_append _ _
      rw [reading, List.rdropWhile_concat_neg _ _ _ shows]
  | dropped reversed membership rest same inductionHypothesis =>
    obtain ⟨sequence, listed, rfl⟩ := List.mem_map.mp membership
    obtain ⟨glyph, blank, -, last⟩ := Blank.glyphs_encoding listed
    have trimmed : trimEnd (sequence.reverse ++ rest).reverse = trimEnd rest.reverse := by
      rw [trimEnd, trimEnd, List.reverse_reverse, List.reverse_reverse, same]
    rw [trimmed, inductionHypothesis, List.reverse_append, List.reverse_reverse, last,
      List.rdropWhile_concat_pos _ _ _ blank]

theorem glyphs_trimEnd (octets : Bytes) :
    glyphs octets.trimEnd = (glyphs octets).rdropWhile Glyph.isBlank := by
  have reversed := glyphs_trimEnd_reverse octets.reverse
  rwa [List.reverse_reverse] at reversed

/-- Trimming drops the white space characters at both ends of the reading, and nothing
else. -/
theorem glyphs_trim (octets : Bytes) : glyphs octets.trim = Glyph.trimmed (glyphs octets) := by
  rw [trim, glyphs_trimEnd, glyphs_trimStart, Glyph.trimmed]

end Bytes

end LineForth
