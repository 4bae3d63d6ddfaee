import LineForth.Token

/-!
# The tokens of a line

Trimming a trimmed byte string changes nothing: what is left begins with no white
space, and it goes on beginning with none when its end is taken off. So every
token of a line is free of spaces and has no white space at its ends, whether or
not its octets are well-formed characters.
-/

set_option autoImplicit false

namespace LineForth

namespace Blank

theorem leading_nil (sequences : List Bytes) : leading sequences [] = 0 := by
  unfold leading
  split
  next sequence found =>
    have stands := List.find?_some found
    rw [ List.isPrefixOf_iff_prefix, List.prefix_nil] at stands
    simp [stands]
  next => rfl

theorem leading_eq_zero_iff {sequences : List Bytes} (solid : [] ∉ sequences) (octets : Bytes) :
    leading sequences octets = 0 ↔ ∀ sequence ∈ sequences, ¬ sequence <+: octets := by
  unfold leading
  split
  next sequence found =>
    have membership := List.mem_of_find?_eq_some found
    have stands := List.find?_some found
    rw [ List.isPrefixOf_iff_prefix] at stands
    constructor
    · intro empty
      rw [List.length_eq_zero_iff] at empty
      exact absurd (empty ▸ membership) solid
    · intro none
      exact absurd stands (none sequence membership)
  next missing =>
    simpa [List.find?_eq_none, List.isPrefixOf_iff_prefix] using missing

theorem strip_suffix_self (sequences : List Bytes) (skipped : Nat) (octets : Bytes) :
    strip sequences skipped octets <:+ octets := by
  induction octets generalizing skipped with
  | nil => exact List.suffix_refl _
  | cons octet rest inductionHypothesis =>
    cases skipped with
    | succ fewer => exact (inductionHypothesis fewer).trans (List.suffix_cons octet rest)
    | zero =>
      simp only [strip]
      split
      · exact List.suffix_refl _
      · exact (inductionHypothesis _).trans (List.suffix_cons octet rest)

theorem leading_strip (sequences : List Bytes) (skipped : Nat) (octets : Bytes) :
    leading sequences (strip sequences skipped octets) = 0 := by
  induction octets generalizing skipped with
  | nil => exact leading_nil sequences
  | cons octet rest inductionHypothesis =>
    cases skipped with
    | succ fewer => exact inductionHypothesis fewer
    | zero =>
      simp only [strip]
      split
      next front => exact front
      next following front => exact inductionHypothesis following

theorem strip_of_leading {sequences : List Bytes} {octets : Bytes}
    (front : leading sequences octets = 0) : strip sequences 0 octets = octets := by
  cases octets with
  | nil => rfl
  | cons octet rest => simp only [strip, front]

end Blank

namespace Bytes

theorem trimStart_suffix_self (octets : Bytes) : octets.trimStart <:+ octets :=
  Blank.strip_suffix_self _ _ _

theorem trimEnd_prefix_self (octets : Bytes) : octets.trimEnd <+: octets := by
  have suffix := Blank.strip_suffix_self (Blank.encodings.map List.reverse) 0 octets.reverse
  exact List.reverse_suffix.mp (by simpa [trimEnd] using suffix)

theorem trimEnd_trimEnd (octets : Bytes) : octets.trimEnd.trimEnd = octets.trimEnd := by
  unfold trimEnd
  rw [List.reverse_reverse, Blank.strip_of_leading (Blank.leading_strip _ _ _)]

theorem trim_infix_self (octets : Bytes) : octets.trim <:+: octets :=
  (trimEnd_prefix_self _).isInfix.trans (trimStart_suffix_self _).isInfix

theorem trim_trim (octets : Bytes) : octets.trim.trim = octets.trim := by
  have solid : [] ∉ Blank.encodings := by decide +kernel
  -- What stands in front of the trimmed octets stood there before the end was cut.
  have front : Blank.leading Blank.encodings octets.trim = 0 := by
    rw [Blank.leading_eq_zero_iff solid]
    intro sequence membership stands
    have before := Blank.leading_strip Blank.encodings 0 octets
    rw [Blank.leading_eq_zero_iff solid] at before
    exact before sequence membership (stands.trans (trimEnd_prefix_self _))
  have start : octets.trim.trimStart = octets.trim := Blank.strip_of_leading front
  calc octets.trim.trim = octets.trim.trimStart.trimEnd := rfl
    _ = octets.trim.trimEnd := by rw [start]
    _ = octets.trim := trimEnd_trimEnd _

/-- Neither a space nor a control character, nor part of a longer encoding. -/
def Graphic (octet : UInt8) : Prop := 0x20 < octet ∧ octet < 0x7F

instance (octet : UInt8) : Decidable (Graphic octet) :=
  inferInstanceAs (Decidable (0x20 < octet ∧ octet < 0x7F))

/-- Nothing is trimmed from octets that all show. -/
theorem trim_of_graphic {octets : Bytes} (graphic : ∀ octet ∈ octets, Graphic octet) :
    octets.trim = octets := by
  have hidden : ∀ sequence ∈ Blank.encodings, ∀ octet ∈ sequence, ¬ Graphic octet := by
    decide +kernel
  have strips (sequences : List Bytes) (solid : [] ∉ sequences)
      (unseen : ∀ sequence ∈ sequences, ∀ octet ∈ sequence, ¬ Graphic octet) (shown : Bytes)
      (visible : ∀ octet ∈ shown, Graphic octet) : Blank.strip sequences 0 shown = shown := by
    apply Blank.strip_of_leading
    rw [Blank.leading_eq_zero_iff solid]
    rintro (_ | ⟨octet, rest⟩) membership stands
    · exact solid membership
    · exact unseen _ membership octet (by simp) (visible octet (stands.subset (by simp)))
  have start : octets.trimStart = octets := by
    apply strips _ (by decide +kernel) hidden octets graphic
  have ends : octets.trimEnd = octets := by
    unfold trimEnd
    rw [strips _ (by decide +kernel), List.reverse_reverse]
    · intro sequence membership octet inside
      obtain ⟨forward, source, rfl⟩ := List.mem_map.mp membership
      exact hidden forward source octet (List.mem_reverse.mp inside)
    · simpa using graphic
  rw [trim, start, ends]

theorem filter_ne_of_not_mem {separator : UInt8} {octets : Bytes} (absent : separator ∉ octets) :
    octets.filter (fun octet => octet ≠ separator) = octets := by
  apply List.filter_eq_self.mpr
  intro octet membership
  rw [decide_eq_true_eq]
  rintro rfl
  exact absent membership

theorem separator_not_mem_of_mem_fields {separator : UInt8} {octets piece : Bytes}
    (membership : piece ∈ fields separator octets) : separator ∉ piece := by
  induction octets generalizing piece with
  | nil =>
    simp only [fields, List.mem_singleton] at membership
    simp [membership]
  | cons octet rest inductionHypothesis =>
    simp only [fields] at membership
    split at membership
    next =>
      rcases List.mem_cons.mp membership with rfl | later
      · simp
      · exact inductionHypothesis later
    next different =>
      cases pieces : fields separator rest with
      | nil => exact absurd pieces (fields_ne_nil separator rest)
      | cons first others =>
        rw [pieces] at membership inductionHypothesis
        rcases List.mem_cons.mp membership with rfl | later
        · simp only [List.mem_cons, not_or]
          exact ⟨fun same => different same.symm, inductionHypothesis (by simp)⟩
        · exact inductionHypothesis (List.mem_cons_of_mem _ later)

end Bytes

namespace Token

/-- As a line is cut: without a space, and without white space at the ends. -/
structure Cut (token : Token) : Prop where
  unspaced : Bytes.space ∉ token
  trimmed : Bytes.trim token = token

/-- A token that is not blank. -/
structure Solid (token : Token) : Prop extends Cut token where
  nonblank : token ≠ []

end Token

theorem Token.solid_of_graphic {token : Token} (nonblank : token ≠ [])
    (graphic : ∀ octet ∈ token, Bytes.Graphic octet) : token.Solid := by
  refine ⟨⟨?_, Bytes.trim_of_graphic graphic⟩, nonblank⟩
  intro spaced
  exact absurd (graphic _ spaced) (by decide)

theorem cut_of_mem_tokenize {line : Bytes} {token : Token} (membership : token ∈ tokenize line) :
    token.Cut := by
  obtain ⟨piece, source, rfl⟩ := List.mem_map.mp membership
  refine ⟨?_, Bytes.trim_trim piece⟩
  intro spaced
  exact Bytes.separator_not_mem_of_mem_fields source ((Bytes.trim_infix_self piece).mem spaced)

end LineForth
