import LineForth.Text.Utf8

/-!
# Readings of byte strings

A byte string is read from the left, but its reading does not depend on where one starts:
the octets of a character begin with one that no character goes on with. So a reading falls
apart wherever the second part does not begin with such an octet, and the glyphs, written
out again, are the octets they were read from.
-/

set_option autoImplicit false

namespace LineForth

namespace Glyph

/-- The octets that the glyph is read from. -/
def octets : Glyph → Bytes
  | character c => Utf8.encode c
  | stray octet => [octet]

end Glyph

namespace Utf8

theorem glyphsAfter_eq (skipped : Nat) (octets : Bytes) :
    glyphsAfter skipped octets = glyphs (octets.drop skipped) := by
  induction skipped generalizing octets with
  | zero => rfl
  | succ fewer inductionHypothesis =>
    cases octets with
    | nil => rfl
    | cons octet rest => exact inductionHypothesis rest

theorem glyphs_cons (octet : UInt8) (rest : Bytes) :
    glyphs (octet :: rest) = (front octet rest).1 :: glyphs (rest.drop (front octet rest).2) := by
  rw [← glyphsAfter_eq]
  rfl

section Leads

/-- What a first octet promises, by the number of octets that follow. The shortest form is
the only one, and surrogates are no characters. -/
inductive Leads (octet : UInt8) (lead : Lead) : Prop
  | one (alone : lead.following = 0) (range : octet.toNat < 0x80)
      (payload : lead.payload = octet.toNat)
  | two (followed : lead.following = 1) (range : 0xC2 ≤ octet.toNat ∧ octet.toNat < 0xE0)
      (payload : lead.payload = octet.toNat - 0xC0)
  | three (followed : lead.following = 2) (range : 0xE0 ≤ octet.toNat ∧ octet.toNat < 0xF0)
      (payload : lead.payload = octet.toNat - 0xE0)
      (shortest : octet.toNat = 0xE0 → 0xA0 ≤ lead.low.toNat)
      (scalar : octet.toNat = 0xED → lead.high.toNat ≤ 0x9F)
  | four (followed : lead.following = 3) (range : 0xF0 ≤ octet.toNat ∧ octet.toNat ≤ 0xF4)
      (payload : lead.payload = octet.toNat - 0xF0)
      (shortest : octet.toNat = 0xF0 → 0x90 ≤ lead.low.toNat)
      (scalar : octet.toNat = 0xF4 → lead.high.toNat ≤ 0x8F)

variable {octet : UInt8} {lead : Lead}

/-- A first octet is followed by octets that continue a character. -/
theorem leads_of_lead? (found : lead? octet = some lead) :
    Leads octet lead ∧ 0x80 ≤ lead.low.toNat ∧ lead.high.toNat ≤ 0xBF := by
  simp only [lead?, UInt8.lt_iff_toNat_lt, ← UInt8.toNat_inj, UInt8.reduceToNat] at found
  by_cases ascii : octet.toNat < 0x80
  · rw [if_pos ascii] at found
    cases found
    exact ⟨.one rfl ascii rfl, by simp, by simp⟩
  rw [if_neg ascii] at found
  by_cases overlong : octet.toNat < 0xC2
  · rw [if_pos overlong] at found
    cases found
  rw [if_neg overlong] at found
  by_cases second : octet.toNat < 0xE0
  · rw [if_pos second] at found
    cases found
    exact ⟨.two rfl (by omega) rfl, by simp, by simp⟩
  rw [if_neg second] at found
  by_cases lowest : octet.toNat = 0xE0
  · rw [if_pos lowest] at found
    cases found
    exact ⟨.three rfl (by omega) (by simp only; omega) (by simp) (by omega), by simp, by simp⟩
  rw [if_neg lowest] at found
  by_cases surrogate : octet.toNat = 0xED
  · rw [if_pos surrogate] at found
    cases found
    exact ⟨.three rfl (by omega) (by simp only; omega) (by omega) (by simp), by simp, by simp⟩
  rw [if_neg surrogate] at found
  by_cases third : octet.toNat < 0xF0
  · rw [if_pos third] at found
    cases found
    exact ⟨.three rfl (by omega) rfl (by omega) (by omega), by simp, by simp⟩
  rw [if_neg third] at found
  by_cases least : octet.toNat = 0xF0
  · rw [if_pos least] at found
    cases found
    exact ⟨.four rfl (by omega) (by simp only; omega) (by simp) (by omega), by simp, by simp⟩
  rw [if_neg least] at found
  by_cases fourth : octet.toNat < 0xF4
  · rw [if_pos fourth] at found
    cases found
    exact ⟨.four rfl (by omega) rfl (by omega) (by omega), by simp, by simp⟩
  rw [if_neg fourth] at found
  by_cases greatest : octet.toNat = 0xF4
  · rw [if_pos greatest] at found
    cases found
    exact ⟨.four rfl (by omega) (by simp only; omega) (by omega) (by simp), by simp, by simp⟩
  rw [if_neg greatest] at found
  cases found

end Leads

section Continue

theorem continue?_zero (low high : UInt8) (payload : Nat) (rest : Bytes) :
    continue? low high 0 payload rest = some payload := by
  cases rest <;> rfl

variable {low high : UInt8} {count payload value : Nat} {rest : Bytes}

theorem continue?_succ (read : continue? low high (count + 1) payload rest = some value) :
    ∃ octet others, rest = octet :: others ∧ low.toNat ≤ octet.toNat ∧ octet.toNat ≤ high.toNat ∧
      continue? 0x80 0xBF count (payload * 64 + (octet.toNat - 0x80)) others = some value := by
  cases rest with
  | nil => cases read
  | cons octet others =>
    simp only [continue?] at read
    split at read
    next within =>
      exact ⟨octet, others, rfl, UInt8.le_iff_toNat_le.mp within.1,
        UInt8.le_iff_toNat_le.mp within.2, read⟩
    next => cases read

/-- What follows a character is not looked at. -/
theorem continue?_append (read : continue? low high count payload rest = some value)
    (more : Bytes) : continue? low high count payload (rest ++ more) = some value := by
  induction count generalizing low high payload rest with
  | zero =>
    rw [continue?_zero] at read ⊢
    exact read
  | succ fewer inductionHypothesis =>
    obtain ⟨octet, others, rfl, atLeast, atMost, read⟩ := continue?_succ read
    rw [List.cons_append, continue?, if_pos]
    · exact inductionHypothesis read
    · exact ⟨UInt8.le_iff_toNat_le.mpr atLeast, UInt8.le_iff_toNat_le.mpr atMost⟩

/-- A character ends before an octet that continues none. -/
theorem continue?_boundary {before more : Bytes} {octet : UInt8}
    (boundary : octet.toNat < 0x80 ∨ 0xBF < octet.toNat)
    (range : 0x80 ≤ low.toNat ∧ high.toNat ≤ 0xBF)
    (read : continue? low high count payload (before ++ octet :: more) = some value) :
    count ≤ before.length ∧ continue? low high count payload before = some value := by
  induction count generalizing low high payload before with
  | zero =>
    rw [continue?_zero] at read ⊢
    exact ⟨Nat.zero_le _, read⟩
  | succ fewer inductionHypothesis =>
    obtain ⟨first, others, same, atLeast, atMost, read⟩ := continue?_succ read
    cases before with
    | nil =>
      cases same
      omega
    | cons given rest =>
      cases same
      obtain ⟨short, alone⟩ := inductionHypothesis ⟨by simp, by simp⟩ read
      refine ⟨by simpa using short, ?_⟩
      rw [continue?, if_pos]
      · exact alone
      · exact ⟨UInt8.le_iff_toNat_le.mpr atLeast, UInt8.le_iff_toNat_le.mpr atMost⟩

end Continue

section Encode

theorem toNat_ofNat {value : Nat} (valid : value.isValidChar) :
    (Char.ofNat value).val.toNat = value := by
  rw [Char.ofNat, dif_pos valid]
  rfl

theorem ofNat_eq {number : Nat} (octet : UInt8) (same : number = octet.toNat) :
    UInt8.ofNat number = octet := by
  rw [same, UInt8.ofNat_toNat]

/-- A character that is read is the one that the octets encode. -/
theorem encode_of_continue? {octet : UInt8} {rest : Bytes} {lead : Lead} {value : Nat}
    (leads : Leads octet lead) (range : 0x80 ≤ lead.low.toNat ∧ lead.high.toNat ≤ 0xBF)
    (read : continue? lead.low lead.high lead.following lead.payload rest = some value) :
    encode (Char.ofNat value) ++ rest.drop lead.following = octet :: rest := by
  cases leads with
  | one alone ascii payload =>
    rw [alone, continue?_zero, Option.some.injEq] at read
    have valid : value.isValidChar := by
      simp only [Nat.isValidChar]
      omega
    rw [encode, String.utf8EncodeChar, toNat_ofNat valid, if_pos (by omega),
      ofNat_eq octet (by omega), alone]
    rfl
  | two followed first payload =>
    rw [followed] at read
    obtain ⟨b, rest, rfl, low, high, read⟩ := continue?_succ read
    rw [continue?_zero, Option.some.injEq] at read
    have valid : value.isValidChar := by
      simp only [Nat.isValidChar]
      omega
    rw [encode, String.utf8EncodeChar, toNat_ofNat valid, if_neg (by omega), if_pos (by omega),
      ofNat_eq octet (by omega), ofNat_eq b (by omega), followed]
    rfl
  | three followed first payload shortest scalar =>
    rw [followed] at read
    obtain ⟨b, rest, rfl, low, high, read⟩ := continue?_succ read
    obtain ⟨c, rest, rfl, cLow, cHigh, read⟩ := continue?_succ read
    rw [continue?_zero, Option.some.injEq] at read
    simp only [UInt8.reduceToNat] at cLow cHigh
    have valid : value.isValidChar := by
      simp only [Nat.isValidChar]
      omega
    rw [encode, String.utf8EncodeChar, toNat_ofNat valid, if_neg (by omega), if_neg (by omega),
      if_pos (by omega), ofNat_eq octet (by omega), ofNat_eq b (by omega),
      ofNat_eq c (by omega), followed]
    rfl
  | four followed first payload shortest scalar =>
    rw [followed] at read
    obtain ⟨b, rest, rfl, low, high, read⟩ := continue?_succ read
    obtain ⟨c, rest, rfl, cLow, cHigh, read⟩ := continue?_succ read
    obtain ⟨d, rest, rfl, dLow, dHigh, read⟩ := continue?_succ read
    rw [continue?_zero, Option.some.injEq] at read
    simp only [UInt8.reduceToNat] at cLow cHigh dLow dHigh
    have valid : value.isValidChar := by
      simp only [Nat.isValidChar]
      omega
    rw [encode, String.utf8EncodeChar, toNat_ofNat valid, if_neg (by omega), if_neg (by omega),
      if_neg (by omega), ofNat_eq octet (by omega), ofNat_eq b (by omega),
      ofNat_eq c (by omega), ofNat_eq d (by omega), followed]
    rfl

theorem encode_of_front {octet : UInt8} {rest : Bytes} {c : Char} {following : Nat}
    (read : front octet rest = (.character c, following)) :
    encode c ++ rest.drop following = octet :: rest := by
  unfold front at read
  split at read
  next => cases read
  next lead found =>
    split at read
    next => cases read
    next value continued =>
      cases read
      obtain ⟨leads, range⟩ := leads_of_lead? found
      exact encode_of_continue? leads range continued

theorem front_of_stray {octet stray : UInt8} {rest : Bytes} {following : Nat}
    (read : front octet rest = (.stray stray, following)) : stray = octet ∧ following = 0 := by
  unfold front at read
  split at read
  next =>
    cases read
    exact ⟨rfl, rfl⟩
  next =>
    split at read
    next =>
      cases read
      exact ⟨rfl, rfl⟩
    next => cases read

theorem octets_front (octet : UInt8) (rest : Bytes) :
    (front octet rest).1.octets ++ rest.drop (front octet rest).2 = octet :: rest := by
  rcases read : front octet rest with ⟨c | stray, following⟩
  · exact encode_of_front read
  · obtain ⟨rfl, rfl⟩ := front_of_stray read
    rfl

end Encode

/-- No octet is lost in a reading. -/
theorem flatMap_glyphs (octets : Bytes) : (glyphs octets).flatMap Glyph.octets = octets := by
  match octets with
  | [] => rfl
  | octet :: rest =>
    rw [glyphs_cons, List.flatMap_cons, flatMap_glyphs (rest.drop (front octet rest).2),
      octets_front]
termination_by octets.length
decreasing_by
  rw [List.length_drop, List.length_cons]
  omega

theorem front_append {octet : UInt8} {rest : Bytes} {c : Char} {following : Nat}
    (read : front octet rest = (.character c, following)) (more : Bytes) :
    front octet (rest ++ more) = (.character c, following) := by
  unfold front at read ⊢
  split at read
  next => cases read
  next lead found =>
    split at read
    next => cases read
    next value continued =>
      cases read
      simp only [continue?_append continued]

/-- An octet that continues no character. -/
def Boundary (octet : UInt8) : Prop := octet.toNat < 0x80 ∨ 0xBF < octet.toNat

theorem front_of_boundary (octet : UInt8) {next : UInt8} (boundary : Boundary next)
    (before more : Bytes) :
    front octet (before ++ next :: more) = front octet before ∧
      (front octet before).2 ≤ before.length := by
  unfold front
  split
  next => exact ⟨rfl, Nat.zero_le _⟩
  next lead found =>
    cases continued : continue? lead.low lead.high lead.following lead.payload
        (before ++ next :: more) with
    | some value =>
      obtain ⟨short, alone⟩ := continue?_boundary boundary (leads_of_lead? found).2 continued
      rw [alone]
      exact ⟨rfl, short⟩
    | none =>
      -- What could be read before the boundary could be read across it.
      cases alone : continue? lead.low lead.high lead.following lead.payload before with
      | none => exact ⟨rfl, Nat.zero_le _⟩
      | some value =>
        rw [continue?_append alone] at continued
        cases continued

/-- A reading falls apart where the second part begins with an octet that continues no
character. -/
theorem glyphs_append {octet : UInt8} (boundary : Boundary octet) (before more : Bytes) :
    glyphs (before ++ octet :: more) = glyphs before ++ glyphs (octet :: more) := by
  match before with
  | [] => rfl
  | first :: rest =>
    obtain ⟨same, short⟩ := front_of_boundary first boundary rest more
    rw [List.cons_append, glyphs_cons, glyphs_cons first rest, same, List.cons_append,
      List.drop_append_of_le_length short,
      glyphs_append boundary (rest.drop (front first rest).2) more]
termination_by before.length
decreasing_by
  rw [List.length_drop, List.length_cons]
  omega

end Utf8

end LineForth
