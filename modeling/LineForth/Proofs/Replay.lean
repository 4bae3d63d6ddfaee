import LineForth.Proofs.Abbreviation
import LineForth.Proofs.LineByLine
import LineForth.Proofs.Literals
import LineForth.Proofs.Table

/-!
# Dictionaries as lines

What a machine has come to know can be written down in lines: one for each word and one
for each constant, in the order of their tables. A fresh machine that evaluates these
lines comes to know the same. The words are always rebuilt. The constants are rebuilt if
none of them is named like a number, for such a name would take the place of a value that
a later line is about.
-/

set_option autoImplicit false

namespace LineForth

/-- The line that binds `name` to a value. -/
def constantLine (name : Bytes) (value : Cell) : Bytes :=
  Bytes.join [Bytes.space] [decimal value.toInt, Token.constant, name]

theorem tokenize_constantLine {name : Token} (cut : name.Cut) (value : Cell) :
    tokenize (constantLine name value) = [decimal value.toInt, Token.constant, name] := by
  have constant : Token.Cut Token.constant := ⟨by decide +kernel, by decide +kernel⟩
  apply tokenize_join (by simp)
  simp only [List.forall_mem_cons, List.not_mem_nil, false_implies, implies_true, and_true]
  exact ⟨(Numeral.solid_decimal _).toCut, constant, cut⟩

/-- A body that is written with single spaces is stored as it was. -/
theorem stored_tokenize_join {body : List Token} (inBody : ∀ token ∈ body, Token.InBody token) :
    stored (tokenize (Bytes.join [Bytes.space] body)) = body ∧
      Token.semicolon ∉ tokenize (Bytes.join [Bytes.space] body) := by
  cases body with
  | nil => exact ⟨by decide +kernel, by decide +kernel⟩
  | cons first rest =>
    rw [tokenize_join (by simp) fun token membership => (inBody token membership).1.toCut]
    constructor
    · apply List.filter_eq_self.mpr
      intro token membership
      simpa using (inBody token membership).1.nonblank
    · intro membership
      exact (inBody _ membership).2 rfl

theorem Program.ofTokens_constant {numeral name : Token} {value : Cell}
    (parsed : Numeral.parse? numeral = some value) (shown : numeral ≠ []) (nonblank : name ≠ []) :
    ofTokens [numeral, Token.constant, name] = ⟨[.refer numeral, .constant name], .done⟩ := by
  have ordinary := Numeral.not_mem_special parsed
  have referred : Pending.idle.feed numeral = .complete (.refer numeral) :=
    Pending.start_of_ordinary shown ordinary
  have opened : Pending.idle.feed Token.constant = .pending .constantName := by decide +kernel
  have named : Pending.constantName.feed name = .complete (.constant name) := by
    simp [Pending.feed, nonblank]
  simp only [ofTokens, readFrom, referred, opened, named, Pending.ending]

namespace Machine

variable {σ : Type}

/-- The lines that define the words, in the order of their table. -/
def wordLines (m : Machine σ) : List Bytes :=
  m.words.entries.map fun (name, body) => definitionLine name (Bytes.join [Bytes.space] body)

/-- The lines that bind the constants, in the order of their table. -/
def constantLines (m : Machine σ) : List Bytes :=
  m.constants.entries.map fun (name, value) => constantLine name value

variable [Output σ]

/-- Evaluates lines one by one, up to the first that does not succeed. -/
def evalLines (m : Machine σ) : List Bytes → Outcome × Machine σ
  | [] => (.done, m)
  | line :: rest =>
    match m.eval line with
    | (.done, after) => after.evalLines rest
    | stopped => stopped

theorem evalLines_cons_of_done {m : Machine σ} {line : Bytes} (done : (m.eval line).1 = .done)
    (rest : List Bytes) : m.evalLines (line :: rest) = (m.eval line).2.evalLines rest := by
  rcases evaluated : m.eval line with ⟨outcome, after⟩
  rw [evaluated] at done
  cases done
  simp only [evalLines, evaluated]

/-- Lines for the members of a list, each of which succeeds if those before it did. -/
theorem evalLines_map {α : Type} {P : List α → Machine σ → Prop} {line : α → Bytes}
    {members : List α} (step : ∀ front member rest, members = front ++ member :: rest →
      ∀ m, P front m → (m.eval (line member)).1 = .done ∧
        P (front ++ [member]) (m.eval (line member)).2)
    {m : Machine σ} (initially : P [] m) :
    (m.evalLines (members.map line)).1 = .done ∧
      P members (m.evalLines (members.map line)).2 := by
  -- The induction is on the members to come; the machine knows those in front of them.
  suffices run : ∀ rest front m, members = front ++ rest → P front m →
      (m.evalLines (rest.map line)).1 = .done ∧ P members (m.evalLines (rest.map line)).2 from
    run members [] m rfl initially
  intro rest
  induction rest with
  | nil =>
    rintro front m rfl knows
    rw [List.append_nil]
    exact ⟨rfl, knows⟩
  | cons member rest inductionHypothesis =>
    intro front m split knows
    obtain ⟨done, knows⟩ := step front member rest split m knows
    rw [List.map_cons, evalLines_cons_of_done done]
    apply inductionHypothesis _ _ _ knows
    rw [split, List.append_assoc, List.singleton_append]

theorem evalLine_constantLine {name : Token} (solid : name.Solid) (value : Cell) {m : Machine σ}
    (unnamed : m.words.lookup? (decimal value.toInt) = none)
    (unbound : m.constants.lookup? (decimal value.toInt) = none) :
    (m.evalLine (constantLine name value)).1 = .done ∧
      (m.evalLine (constantLine name value)).2.stack = m.stack ∧
      (m.evalLine (constantLine name value)).2.words = m.words ∧
      (m.evalLine (constantLine name value)).2.constants = m.constants.define name value := by
  have parsed := Numeral.parse?_decimal value
  have literal (mark message : Bytes) :
      (m.trace mark message).meaning (decimal value.toInt) = .literal value := by
    apply meaning_of_numeral parsed
    · rw [trace_words, unnamed]
    · rw [trace_constants, unbound]
  have bound (current : Machine σ) (top : current.stack = value :: m.stack) :
      ∃ message, current.bindConstant name =
        (.done, { current with
          stack := m.stack
          constants := current.constants.define name value }.trace (text ":") message) := by
    obtain ⟨message, same⟩ :=
      { current with stack := m.stack }.exists_defineConstant_eq name value
    exact ⟨message, by simp only [bindConstant, top, Stack.pop, same]⟩
  obtain ⟨message, same⟩ := bound (((m.trace (text ">") (text "eval " ++
    (constantLine name value).quote)).push value).traceRule (text "literal")
      (decimal value.toInt)) (by simp [push, traceRule])
  simp only [evalLine, evalTokens, execute, tokenize_constantLine solid.toCut,
    Program.ofTokens_constant parsed (Numeral.solid_decimal _).nonblank solid.nonblank, performAll,
    perform, refer, ruleName, literal, Instruction.opener, same]
  simp [push, traceRule]

/-- A machine with nothing on its stack that knows the given words and constants, and
whose output does not fail. -/
structure Knows (unfailing : Unfailing σ) (words : List (Bytes × List Token))
    (constants : List (Bytes × Cell)) (m : Machine σ) : Prop where
  stack : m.stack = []
  words : m.words.entries = words
  constants : m.constants.entries = constants
  intact : unfailing.intact m.output

namespace Knows

variable {unfailing : Unfailing σ} {words : List (Bytes × List Token)}
  {constants : List (Bytes × Cell)} {m : Machine σ}

/-- What the tokens of a line come to is what the line comes to, if they succeed. -/
theorem eval {line : Bytes} (intact : unfailing.intact m.output)
    (done : (m.evalLine line).1 = .done) (stack : (m.evalLine line).2.stack = [])
    (defined : (m.evalLine line).2.words.entries = words)
    (bound : (m.evalLine line).2.constants.entries = constants) :
    (m.eval line).1 = .done ∧ Knows unfailing words constants (m.eval line).2 := by
  have reached : unfailing.blind.intact (m.evalLine line).2.output := evalLine_intact intact line
  have agrees : Agrees unfailing.blind m m := ⟨.refl intact, rfl, rfl⟩
  have still := (agrees.eval line).2.2.intact
  obtain ⟨output, journal, concluded⟩ := exists_conclude_eq (m.evalLine line)
  rw [eval_eq_conclude] at still ⊢
  constructor
  · rw [conclude_of_intact unfailing reached, done]
    rfl
  · rw [concluded] at still ⊢
    exact ⟨stack, defined, bound, still⟩

/-- A line that defines a new word adds it behind the others. -/
theorem eval_definitionLine (knows : Knows unfailing words constants m) {name : Token}
    {body : List Token} (solid : name.Solid) (valid : Numeral.parse? name = none)
    (inBody : ∀ token ∈ body, Token.InBody token) (new : name ∉ words.map Prod.fst) :
    let line := definitionLine name (Bytes.join [Bytes.space] body)
    (m.eval line).1 = .done ∧
      Knows unfailing (words ++ [(name, body)]) constants (m.eval line).2 := by
  intro line
  obtain ⟨kept, unclosed⟩ := stored_tokenize_join inBody
  obtain ⟨done, stack, defined, bound⟩ :=
    evalLine_definitionLine solid (by simp [validWordName, valid]) unclosed m
  apply eval knows.intact done
  · rw [stack, knows.stack]
  · rw [defined, kept, Table.entries_define, knows.words, Table.put_of_not_mem new]
  · rw [bound, knows.constants]

/-- A line that binds a new constant adds it behind the others, if its value is not the name
of something else. -/
theorem eval_constantLine (knows : Knows unfailing words constants m) {name : Token}
    (value : Cell) (solid : name.Solid)
    (unnamed : ∀ other ∈ words.map Prod.fst, Numeral.parse? other = none)
    (unbound : ∀ other ∈ constants.map Prod.fst, Numeral.parse? other = none)
    (new : name ∉ constants.map Prod.fst) :
    let line := constantLine name value
    (m.eval line).1 = .done ∧
      Knows unfailing words (constants ++ [(name, value)]) (m.eval line).2 := by
  intro line
  have free {α : Type} {table : Table α}
      (others : ∀ other ∈ table.entries.map Prod.fst, Numeral.parse? other = none) :
      table.lookup? (decimal value.toInt) = none := by
    rw [← Option.not_isSome_iff_eq_none, ← Table.mem_names_iff, Table.names_eq]
    intro membership
    have parsed := others _ membership
    rw [Numeral.parse?_decimal] at parsed
    cases parsed
  obtain ⟨done, stack, defined, bound⟩ := evalLine_constantLine solid value
    (free (knows.words ▸ unnamed)) (free (knows.constants ▸ unbound))
  apply eval knows.intact done
  · rw [stack, knows.stack]
  · rw [defined, knows.words]
  · rw [bound, Table.entries_define, knows.constants, Table.put_of_not_mem new]

end Knows

end Machine

namespace Interpreter

open Machine (Knows)

variable {σ τ : Type} [Output σ] [Output τ] {interpreter : Interpreter σ}
  {unfailing : Unfailing τ} {m : Machine τ}

theorem Reachable.knows_words (reached : Reachable interpreter)
    (knows : Knows unfailing [] [] m) :
    (m.evalLines interpreter.machine.wordLines).1 = .done ∧
      Knows unfailing interpreter.machine.words.entries []
        (m.evalLines interpreter.machine.wordLines).2 := by
  apply Machine.evalLines_map (P := fun words => Knows unfailing words [])
  · rintro front ⟨name, body⟩ rest split m knows
    have membership : (name, body) ∈ interpreter.machine.words.entries := by simp [split]
    obtain ⟨solid, valid⟩ := reached.orderly.words _ _ membership
    exact knows.eval_definitionLine solid valid (reached.orderly.bodies _ _ membership)
      (Table.not_mem_names_front split)
  · exact knows

theorem Reachable.knows_constants (reached : Reachable interpreter)
    (unlike : ∀ name ∈ interpreter.machine.constants.names, Numeral.parse? name = none)
    (knows : Knows unfailing interpreter.machine.words.entries [] m) :
    (m.evalLines interpreter.machine.constantLines).1 = .done ∧
      Knows unfailing interpreter.machine.words.entries interpreter.machine.constants.entries
        (m.evalLines interpreter.machine.constantLines).2 := by
  have unnamed : ∀ name ∈ interpreter.machine.words.entries.map Prod.fst,
      Numeral.parse? name = none := by
    intro name membership
    obtain ⟨⟨_, body⟩, entry, rfl⟩ := List.mem_map.mp membership
    exact (reached.orderly.words _ _ entry).2
  apply Machine.evalLines_map
    (P := fun constants => Knows unfailing interpreter.machine.words.entries constants)
  · rintro front ⟨name, value⟩ rest split m knows
    have membership : (name, value) ∈ interpreter.machine.constants.entries := by simp [split]
    apply knows.eval_constantLine value (reached.orderly.constants _ _ membership) unnamed
    · intro other earlier
      apply unlike
      rw [Table.names_eq, split, List.map_append]
      exact List.mem_append_left _ earlier
    · exact Table.not_mem_names_front split
  · exact knows

/-- The lines of its words, in the order of their table, rebuild the words of a reachable
interpreter on a fresh machine. If no constant is named like a number, the lines of its
constants then rebuild them as well, and the stack is left empty. -/
theorem Reachable.replay_rebuilds (reached : Reachable interpreter) (unfailing : Unfailing τ)
    (fresh : m.Fresh) (intact : unfailing.intact m.output) :
    let defined := m.evalLines interpreter.machine.wordLines
    let bound := defined.2.evalLines interpreter.machine.constantLines
    (defined.1 = .done ∧ defined.2.words = interpreter.machine.words) ∧
      ((∀ name ∈ interpreter.machine.constants.names, Numeral.parse? name = none) →
        bound.1 = .done ∧ bound.2.words = interpreter.machine.words ∧
          bound.2.constants = interpreter.machine.constants ∧ bound.2.stack = []) := by
  intro defined bound
  have nothing : Knows unfailing [] [] m :=
    ⟨fresh.stack, by rw [fresh.words]; rfl, by rw [fresh.constants]; rfl, intact⟩
  obtain ⟨done, knows⟩ := reached.knows_words nothing
  refine ⟨⟨done, Table.eq_of_entries knows.words⟩, ?_⟩
  intro unlike
  obtain ⟨done, knows⟩ := reached.knows_constants unlike knows
  exact ⟨done, Table.eq_of_entries knows.words, Table.eq_of_entries knows.constants, knows.stack⟩

/-- Words named like the tokens that open and close a definition, a name with a tab and an
octet that is no text, bodies without tokens, and a constant named like a word. -/
def oddlyNamed : OnConsole :=
  let started := Session.start (.group [])
  ((((((started.eval (text ": ; 1 2 ;")).2.eval (text ": : ;")).2.eval
    (text ": a\tb" ++ [0xff] ++ text "  .\" x \" : ;")).2.eval
    (text "-7 constant constant 2147483647 constant ;")).2.eval
    (text ": ; \";  ;")).2.eval (text "-2147483648 constant ;")).2

theorem reachable_oddlyNamed : Reachable oddlyNamed :=
  ((((((Reachable.start _).eval _).eval _).eval _).eval _).eval _).eval _

theorem Reachable.replay_rebuilds_oddlyNamed :
    let fresh := Machine.initial Machine.twoDevices
    let defined := fresh.evalLines oddlyNamed.machine.wordLines
    let bound := defined.2.evalLines oddlyNamed.machine.constantLines
    oddlyNamed.machine.wordLines =
        [text ": ; \"; ;", text ": :  ;", text ": a\tb" ++ [0xff] ++ text " .\" x \" : ;"] ∧
      oddlyNamed.machine.constantLines =
        [text "-7 constant constant", text "-2147483648 constant ;"] ∧
      (defined.1 = .done ∧ defined.2.words = oddlyNamed.machine.words) ∧
      bound.1 = .done ∧ bound.2.words = oddlyNamed.machine.words ∧
      bound.2.constants = oddlyNamed.machine.constants ∧ bound.2.stack = [] := by
  have fresh : (Machine.initial Machine.twoDevices).Fresh := ⟨rfl, rfl, rfl, rfl, by decide⟩
  obtain ⟨defined, bound⟩ := reachable_oddlyNamed.replay_rebuilds Console.reliable.toUnfailing
    fresh Machine.twoDevices_dependable
  exact ⟨by decide +kernel, by decide +kernel, defined, bound (by decide +kernel)⟩

end Interpreter

end LineForth
