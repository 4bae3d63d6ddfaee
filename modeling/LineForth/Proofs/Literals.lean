import LineForth.Output.Console
import LineForth.Proofs.Numerals
import LineForth.Proofs.Sequencing
import Mathlib.Data.Nat.Digits.Defs

/-!
# Numerals as tokens

The numerals are given by a grammar that knows nothing of reading: an optional sign and one
or more digits, each of which counts by its place. Reading accepts exactly those numerals
whose value fits in a cell, and it gives that value. So a token that opens no construct, and
that is bound to nothing, is pushed if it is such a numeral and refused if it is not, wherever
it stands; and the names that a word may not have are exactly these numerals.
-/

set_option autoImplicit false

namespace LineForth

namespace Numeral

def IsDigit (octet : UInt8) : Prop := 0x30 ≤ octet ∧ octet ≤ 0x39

instance (octet : UInt8) : Decidable (IsDigit octet) :=
  inferInstanceAs (Decidable (0x30 ≤ octet ∧ octet ≤ 0x39))

/-- One or more digits. -/
structure Digits (octets : Bytes) : Prop where
  nonempty : octets ≠ []
  digits : ∀ octet ∈ octets, IsDigit octet

/-- The value of digits by their places, the last one counting once. -/
def placeValue (digits : Bytes) : Nat :=
  Nat.ofDigits 10 (digits.reverse.map fun octet => octet.toNat - 0x30)

/-- The grammar of numerals, with the value of each. -/
inductive Denotes : Bytes → Int → Prop
  | unsigned {digits : Bytes} (valid : Digits digits) : Denotes digits (placeValue digits)
  | plus {digits : Bytes} (valid : Digits digits) : Denotes (0x2B :: digits) (placeValue digits)
  | minus {digits : Bytes} (valid : Digits digits) :
      Denotes (0x2D :: digits) (-(placeValue digits : Int))

/-- A numeral of a value that a cell can hold. -/
structure Fits (token : Bytes) (value : Int) : Prop where
  denotes : Denotes token value
  lower : -2 ^ 31 ≤ value
  upper : value ≤ 2 ^ 31 - 1

theorem digit?_eq_some_iff {octet : UInt8} {digit : Nat} :
    digit? octet = some digit ↔ IsDigit octet ∧ digit = octet.toNat - 0x30 := by
  unfold digit? IsDigit
  split
  next inside => simp [inside, eq_comm]
  next outside => simp [outside]

theorem placeValue_cons (octet : UInt8) (rest : Bytes) :
    placeValue (octet :: rest) = (octet.toNat - 0x30) * 10 ^ rest.length + placeValue rest := by
  simp only [placeValue, List.reverse_cons, List.map_append, Nat.ofDigits_append,
    List.length_map, List.length_reverse, List.map_singleton, Nat.ofDigits_singleton]
  ring

/-- The digits read so far are moved up by as many places as there are digits to come. -/
theorem extend?_eq_some_iff {start value : Nat} {octets : Bytes} :
    extend? start octets = some value ↔
      (∀ octet ∈ octets, IsDigit octet) ∧
        value = start * 10 ^ octets.length + placeValue octets := by
  induction octets generalizing start with
  | nil => simp [extend?, placeValue, eq_comm]
  | cons octet rest inductionHypothesis =>
    simp only [extend?]
    split
    next digit read =>
      obtain ⟨isDigit, rfl⟩ := digit?_eq_some_iff.mp read
      have places : (start * 10 + (octet.toNat - 0x30)) * 10 ^ rest.length + placeValue rest =
          start * 10 ^ (octet :: rest).length + placeValue (octet :: rest) := by
        rw [placeValue_cons, List.length_cons]
        ring
      rw [inductionHypothesis, places, List.forall_mem_cons, and_iff_right isDigit]
    next unread =>
      have noDigit : ¬ IsDigit octet := by
        intro isDigit
        rw [digit?_eq_some_iff.mpr ⟨isDigit, rfl⟩] at unread
        cases unread
      simp [noDigit]

theorem magnitude?_eq_some_iff {octets : Bytes} {value : Nat} :
    magnitude? octets = some value ↔ Digits octets ∧ value = placeValue octets := by
  cases octets with
  | nil =>
    simp only [magnitude?, reduceCtorEq, false_iff]
    rintro ⟨valid, -⟩
    exact valid.nonempty rfl
  | cons octet rest =>
    rw [magnitude?, extend?_eq_some_iff, Nat.zero_mul, Nat.zero_add]
    · constructor
      · rintro ⟨digits, same⟩
        exact ⟨⟨by simp, digits⟩, same⟩
      · rintro ⟨valid, same⟩
        exact ⟨valid.digits, same⟩
    · simp

theorem sign_not_digits {sign : UInt8} {digits : Bytes} (isSign : sign = 0x2B ∨ sign = 0x2D) :
    ¬ Digits (sign :: digits) := by
  intro valid
  have digit := valid.digits sign (by simp)
  rcases isSign with rfl | rfl
  · exact absurd digit (by decide)
  · exact absurd digit (by decide)

theorem integer?_cons (sign : UInt8) (digits : Bytes) :
    integer? (sign :: digits) =
      if sign = 0x2B then (magnitude? digits).map fun value : Nat => (value : Int)
      else if sign = 0x2D then (magnitude? digits).map fun value : Nat => -(value : Int)
      else (magnitude? (sign :: digits)).map fun value : Nat => (value : Int) := by
  simp only [integer?]
  cases magnitude? digits <;> cases magnitude? (sign :: digits) <;> rfl

theorem denotes_of_integer? {token : Bytes} {value : Int} (read : integer? token = some value) :
    Denotes token value := by
  cases token with
  | nil => simp [integer?] at read
  | cons sign digits =>
    rw [integer?_cons] at read
    split at read
    next isPlus =>
      obtain ⟨magnitude, found, rfl⟩ := Option.map_eq_some_iff.mp read
      obtain ⟨valid, rfl⟩ := magnitude?_eq_some_iff.mp found
      rw [isPlus]
      exact .plus valid
    next =>
      split at read
      next isMinus =>
        obtain ⟨magnitude, found, rfl⟩ := Option.map_eq_some_iff.mp read
        obtain ⟨valid, rfl⟩ := magnitude?_eq_some_iff.mp found
        rw [isMinus]
        exact .minus valid
      next =>
        obtain ⟨magnitude, found, rfl⟩ := Option.map_eq_some_iff.mp read
        obtain ⟨valid, rfl⟩ := magnitude?_eq_some_iff.mp found
        exact .unsigned valid

theorem integer?_of_denotes {token : Bytes} {value : Int} (denotes : Denotes token value) :
    integer? token = some value := by
  cases denotes with
  | unsigned valid =>
    have found := magnitude?_eq_some_iff.mpr ⟨valid, rfl⟩
    cases token with
    | nil => exact absurd rfl valid.nonempty
    | cons first rest =>
      have notPlus : first ≠ 0x2B := fun plus => sign_not_digits (.inl plus) valid
      have notMinus : first ≠ 0x2D := fun minus => sign_not_digits (.inr minus) valid
      rw [integer?_cons, if_neg notPlus, if_neg notMinus, found, Option.map_some]
  | plus valid =>
    rw [integer?_cons, if_pos rfl, magnitude?_eq_some_iff.mpr ⟨valid, rfl⟩, Option.map_some]
  | minus valid =>
    rw [integer?_cons, if_neg (by decide), if_pos rfl, magnitude?_eq_some_iff.mpr ⟨valid, rfl⟩,
      Option.map_some]

theorem fits_iff {value : Int} : fits value = true ↔ -2 ^ 31 ≤ value ∧ value ≤ 2 ^ 31 - 1 := by
  simp [fits]

/-- A token reads as a cell exactly if it is a numeral of the value of the cell. -/
theorem parse?_eq_some_iff {token : Bytes} {cell : Cell} :
    parse? token = some cell ↔ Fits token cell.toInt := by
  have within := fits_iff.mpr ⟨Int32.le_toInt cell, by have := Int32.toInt_lt cell; omega⟩
  constructor
  · intro read
    unfold parse? at read
    split at read
    next value integer =>
      split at read
      next fit =>
        obtain ⟨lower, upper⟩ := fits_iff.mp fit
        cases read
        have same : (Int32.ofInt value).toInt = value :=
          Int32.toInt_ofInt_of_le lower (by omega)
        rw [same]
        exact ⟨denotes_of_integer? integer, lower, upper⟩
      next => cases read
    next => cases read
  · intro numeral
    simp only [parse?, integer?_of_denotes numeral.denotes, within, if_true,
      Int32.ofInt_toInt]

/-- A numeral that fits in a cell reads as the cell of its value. -/
theorem Fits.exists_cell {token : Bytes} {value : Int} (numeral : Fits token value) :
    ∃ cell : Cell, cell.toInt = value ∧ parse? token = some cell := by
  have bound : value < 2 ^ 31 := Int.lt_of_le_sub_one numeral.upper
  have same : (Int32.ofInt value).toInt = value := Int32.toInt_ofInt_of_le numeral.lower bound
  exact ⟨_, same, parse?_eq_some_iff.mpr (same.symm ▸ numeral)⟩

theorem exists_parse?_eq_some_iff {token : Bytes} :
    (∃ cell, parse? token = some cell) ↔ ∃ value, Fits token value := by
  constructor
  · rintro ⟨cell, read⟩
    exact ⟨_, parse?_eq_some_iff.mp read⟩
  · rintro ⟨value, numeral⟩
    obtain ⟨cell, -, read⟩ := numeral.exists_cell
    exact ⟨cell, read⟩

end Numeral

theorem validWordName_eq_false_iff (name : Bytes) :
    validWordName name = false ↔ ∃ value, Numeral.Fits name value := by
  rw [← Numeral.exists_parse?_eq_some_iff, ← Option.isSome_iff_exists, validWordName,
    ← Option.not_isSome]
  simp

namespace Machine

variable {σ : Type}

/-- The token opens no construct and is bound to nothing, so it can only be a number. -/
structure Unbound (m : Machine σ) (token : Token) : Prop where
  nonblank : token ≠ []
  ordinary : token ∉ Token.special
  unnamed : m.words.lookup? token = none
  inoperative : Builtin.ofName? token = none
  unassigned : m.constants.lookup? token = none

section Meaning

variable {m : Machine σ} {token : Token}

theorem meaning_of_numeral {value : Cell} (parsed : Numeral.parse? token = some value)
    (unnamed : m.words.lookup? token = none) (unbound : m.constants.lookup? token = none) :
    m.meaning token = .literal value := by
  unfold meaning
  rw [unnamed, Numeral.ofName?_eq_none parsed, unbound, parsed]

theorem Unbound.meaning_of_unread (unbound : m.Unbound token)
    (unread : Numeral.parse? token = none) : m.meaning token = .unknown := by
  unfold meaning
  rw [unbound.unnamed, unbound.inoperative, unbound.unassigned, unread]

end Meaning

variable [Output σ] {m : Machine σ} {token : Token}

/-- A numeral is pushed, and the tokens behind it go on from there. -/
theorem execute_numeral (call : Call σ) {value : Cell} (parsed : Numeral.parse? token = some value)
    (unnamed : m.words.lookup? token = none) (unbound : m.constants.lookup? token = none)
    (rest : List Token) :
    m.execute call (token :: rest) =
      ((m.push value).traceRule (text "literal") token).execute call rest := by
  have nonblank : token ≠ [] := by
    rintro rfl
    cases parsed
  have literal := meaning_of_numeral parsed unnamed unbound
  have pushed : m.perform call (.refer token) = (.done, m.push value) := by
    simp only [perform, refer, literal]
  have rule : m.ruleName (.refer token) = text "literal" := by simp only [ruleName, literal]
  have program := Program.ofTokens_cons_of_ordinary nonblank (Numeral.not_mem_special parsed) rest
  simp only [execute, program, performAll, pushed, rule, Instruction.opener]

theorem Unbound.execute_of_unread (unbound : m.Unbound token) (call : Call σ)
    (unread : Numeral.parse? token = none) (rest : List Token) :
    m.execute call (token :: rest) = (.failed (.unknownToken token), m) := by
  have refused : m.perform call (.refer token) = (.failed (.unknownToken token), m) := by
    simp only [perform, refer, unbound.meaning_of_unread unread]
  have program := Program.ofTokens_cons_of_ordinary unbound.nonblank unbound.ordinary rest
  simp only [execute, program, performAll, refused]

/-- A token that can only be a number is pushed exactly if it is a numeral of a value that
fits in a cell, and then with that value. Otherwise it is refused as unknown, the machine
stays as it was, and the tokens behind it are not looked at. This holds for every way of
calling words, so in a line as well as in the body of a word. The names that words may not
have are these numerals and nothing else. -/
theorem execute_unbound (call : Call σ) (m : Machine σ) :
    (∀ token, m.Unbound token →
      ((m.execute call [token]).1 = .done ↔ ∃ value, Numeral.Fits token value) ∧
      (∀ value, Numeral.Fits token value → ∃ cell : Cell, cell.toInt = value ∧
        (m.execute call [token]).2.stack = cell :: m.stack ∧
        ∀ rest, m.execute call (token :: rest) =
          ((m.push cell).traceRule (text "literal") token).execute call rest) ∧
      ((¬ ∃ value, Numeral.Fits token value) → ∀ rest,
        m.execute call (token :: rest) = (.failed (.unknownToken token), m))) ∧
      ∀ name, validWordName name = false ↔ ∃ value, Numeral.Fits name value := by
  refine ⟨?_, validWordName_eq_false_iff⟩
  intro token unbound
  have pushes {cell : Cell} (parsed : Numeral.parse? token = some cell) :=
    execute_numeral call parsed unbound.unnamed unbound.unassigned
  have refuses (unfit : ¬ ∃ value, Numeral.Fits token value) := by
    rw [← Numeral.exists_parse?_eq_some_iff, ← Option.isSome_iff_exists,
      Option.not_isSome_iff_eq_none] at unfit
    exact unbound.execute_of_unread call unfit
  refine ⟨⟨?_, ?_⟩, ?_, refuses⟩
  · intro done
    by_contra unfit
    rw [refuses unfit] at done
    cases done
  · intro fits
    obtain ⟨cell, parsed⟩ := Numeral.exists_parse?_eq_some_iff.mpr fits
    rw [pushes parsed]
    rfl
  · intro value fits
    obtain ⟨cell, rfl, parsed⟩ := fits.exists_cell
    refine ⟨cell, rfl, ?_, pushes parsed⟩
    rw [pushes parsed]
    exact trace_stack _ _ _

/-- A word and a constant are named almost like the numerals below. -/
def nearNumerals : Machine Console :=
  { Machine.initial Console.silent with
    words := Table.empty.define (text "2147483648") [text "7"]
    constants := Table.empty.define (text "-2147483648") 8 }

theorem execute_unbound_nearNumerals :
    nearNumerals.words.names = [text "2147483648"] ∧
      nearNumerals.constants.names = [text "-2147483648"] ∧
      (∃ cell : Cell, cell.toInt = -2147483648 ∧
        (nearNumerals.evalTokens [text "-002147483648"]).2.stack = [cell]) ∧
      (∀ rest, nearNumerals.evalTokens (text "+2147483648" :: rest) =
        (.failed (.unknownToken (text "+2147483648")), nearNumerals)) ∧
      validWordName (text "-") = true := by
  have smallest : nearNumerals.Unbound (text "-002147483648") :=
    ⟨by decide +kernel, by decide +kernel, by decide +kernel, by decide +kernel, by decide +kernel⟩
  have tooLarge : nearNumerals.Unbound (text "+2147483648") :=
    ⟨by decide +kernel, by decide +kernel, by decide +kernel, by decide +kernel, by decide +kernel⟩
  obtain ⟨evaluated, names⟩ :=
    execute_unbound (call (nearNumerals.maxDepth - nearNumerals.depth)) nearNumerals
  obtain ⟨-, pushed, -⟩ := evaluated _ smallest
  obtain ⟨-, -, refused⟩ := evaluated _ tooLarge
  have digits : Numeral.Digits (text "002147483648") := ⟨by decide +kernel, by decide +kernel⟩
  have value : Numeral.placeValue (text "002147483648") = 2147483648 := by decide +kernel
  have fits : Numeral.Fits (text "-002147483648") (-2147483648) := by
    have denotes := Numeral.Denotes.minus digits
    rw [value] at denotes
    exact ⟨denotes, by decide, by decide⟩
  have unfit : ¬ ∃ value, Numeral.Fits (text "+2147483648") value := by
    rw [← names]
    decide +kernel
  obtain ⟨cell, same, stack, -⟩ := pushed _ fits
  exact ⟨by decide +kernel, by decide +kernel, ⟨cell, same, stack⟩, refused unfit,
    by decide +kernel⟩

end Machine

end LineForth
