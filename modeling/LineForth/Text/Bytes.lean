/-!
# Byte strings

Lines, tokens, names, messages and output are sequences of octets. They need
not be well-formed UTF-8, so they are kept as lists of octets and looked at as
characters only where a rule speaks about characters.
-/

set_option autoImplicit false

namespace LineForth

abbrev Bytes := List UInt8

/-- The octets of an ASCII text. -/
def text (s : String) : Bytes :=
  s.toList.map (fun c => c.toNat.toUInt8)

namespace Bytes

def space : UInt8 := 0x20

def newline : UInt8 := 0x0A

def carriageReturn : UInt8 := 0x0D

/-- The pieces between the separators. There is one more piece than there are
separators, so the empty string has one empty piece. -/
def fields (separator : UInt8) : Bytes → List Bytes
  | [] => [[]]
  | octet :: rest =>
    if octet = separator then [] :: fields separator rest
    else
      match fields separator rest with
      | [] => [[octet]]
      | first :: others => (octet :: first) :: others

/-- The pieces in order, with `separator` between neighbours. -/
def join (separator : Bytes) : List Bytes → Bytes
  | [] => []
  | [piece] => piece
  | piece :: rest => piece ++ separator ++ join separator rest

theorem fields_ne_nil (separator : UInt8) (octets : Bytes) : fields separator octets ≠ [] := by
  cases octets with
  | nil => simp [fields]
  | cons octet rest =>
    simp only [fields]
    split
    · simp
    · split <;> simp

theorem length_fields (separator : UInt8) (octets : Bytes) :
    (fields separator octets).length = octets.count separator + 1 := by
  induction octets with
  | nil => rfl
  | cons octet rest inductionHypothesis =>
    by_cases same : octet = separator
    · simp [fields, same, inductionHypothesis]
    · simp only [fields, if_neg same]
      split
      next empty => exact absurd empty (fields_ne_nil separator rest)
      next first others nonempty =>
        rw [nonempty] at inductionHypothesis
        simpa [List.count_cons, same] using inductionHypothesis

theorem join_fields (separator : UInt8) (octets : Bytes) :
    join [separator] (fields separator octets) = octets := by
  induction octets with
  | nil => rfl
  | cons octet rest inductionHypothesis =>
    by_cases same : octet = separator
    · simp only [fields, if_pos same]
      cases pieces : fields separator rest with
      | nil => exact absurd pieces (fields_ne_nil separator rest)
      | cons first others =>
        rw [pieces] at inductionHypothesis
        simp [join, inductionHypothesis, same]
    · simp only [fields, if_neg same]
      cases pieces : fields separator rest with
      | nil => exact absurd pieces (fields_ne_nil separator rest)
      | cons first others =>
        rw [pieces] at inductionHypothesis
        cases others with
        | nil => simpa [join] using inductionHypothesis
        | cons second more => simpa [join] using inductionHypothesis

/-- Cuts after the first newline. -/
def cutLine? : Bytes → Option (Bytes × Bytes)
  | [] => none
  | octet :: rest =>
    if octet = newline then some ([octet], rest)
    else (cutLine? rest).map fun (line, others) => (octet :: line, others)

theorem append_of_cutLine? {octets line rest : Bytes} (cut : cutLine? octets = some (line, rest)) :
    line ++ rest = octets := by
  induction octets generalizing line rest with
  | nil => simp [cutLine?] at cut
  | cons octet others inductionHypothesis =>
    simp only [cutLine?] at cut
    split at cut
    · simp only [Option.some.injEq, Prod.mk.injEq] at cut
      simp [← cut.1, ← cut.2]
    · obtain ⟨⟨front, back⟩, inner, same⟩ := Option.map_eq_some_iff.mp cut
      simp only [Prod.mk.injEq] at same
      rw [← same.1, ← same.2, List.cons_append, inductionHypothesis inner]

theorem ne_nil_of_cutLine? {octets line rest : Bytes} (cut : cutLine? octets = some (line, rest)) :
    line ≠ [] := by
  cases octets with
  | nil => simp [cutLine?] at cut
  | cons octet others =>
    simp only [cutLine?] at cut
    split at cut
    · simp only [Option.some.injEq, Prod.mk.injEq] at cut
      simp [← cut.1]
    · obtain ⟨⟨front, back⟩, _, same⟩ := Option.map_eq_some_iff.mp cut
      simp only [Prod.mk.injEq] at same
      simp [← same.1]

/-- Drops the longest run of octets at the end that all satisfy `removable`. -/
def dropEndWhile (removable : UInt8 → Bool) (octets : Bytes) : Bytes :=
  (octets.reverse.dropWhile removable).reverse

/-- The line without the carriage returns and newlines at its end. -/
def chomp (line : Bytes) : Bytes :=
  dropEndWhile (fun octet => octet = newline || octet = carriageReturn) line

def endsWith (octets ending : Bytes) : Bool := ending.isSuffixOf octets

end Bytes

end LineForth
