import LineForth.Proofs.LineComposition
import LineForth.Proofs.NestingLimit
import LineForth.Proofs.Storage
import LineForth.Proofs.Table

/-!
# Words as abbreviations

A word that a line defines stands for its text: if the text succeeds where the word is
defined, then so does the word, unless it comes to a call that the nesting limit
refuses, and the two leave the same stack and the same constants. They also put out the
same, as long as no string of the text has a blank token in it. The word runs with one
more call active than its text, so the two runs are compared at different depths.
-/

set_option autoImplicit false

namespace LineForth

namespace Machine

variable {σ ν : Type} [Output σ] {reliable : Reliable σ ν}

/-- Machines that go on in the same way at any depth, as far as the output is looked at. -/
structure Akin (reliable : Reliable σ ν) (m m' : Machine σ) : Prop extends Same m m' where
  intact : reliable.intact m.output
  intact' : reliable.intact m'.output
  view : reliable.view m'.output = reliable.view m.output

namespace Akin

variable {m m' : Machine σ}

theorem of_output {after after' : Machine σ} (akin : Akin reliable m m') (same : Same after after')
    (kept : after.output = m.output) (kept' : after'.output = m'.output) :
    Akin reliable after after' := by
  refine ⟨same, ?_, ?_, ?_⟩
  · rw [kept]
    exact akin.intact
  · rw [kept']
    exact akin.intact'
  · rw [kept, kept']
    exact akin.view

theorem trace (akin : Akin reliable m m') (mark message mark' message' : Bytes) :
    Akin reliable (m.trace mark message) (m'.trace mark' message') :=
  akin.of_output (akin.toSame.trace _ _ _ _) (trace_output _ _ _) (trace_output _ _ _)

theorem write (akin : Akin reliable m m') (passage : Passage) (octets : Bytes) :
    (m'.write passage octets).1 = (m.write passage octets).1 ∧
      Akin reliable (m.write passage octets).2 (m'.write passage octets).2 := by
  constructor
  · exact (reliable.write_done passage octets akin.intact').trans
      (reliable.write_done passage octets akin.intact).symm
  · refine ⟨⟨akin.stack, akin.words, akin.constants⟩,
      reliable.write_intact passage octets akin.intact,
      reliable.write_intact passage octets akin.intact', ?_⟩
    calc reliable.view (m'.write passage octets).2.output
        = reliable.extend octets (reliable.view m'.output) :=
          reliable.view_write passage octets akin.intact'
      _ = reliable.extend octets (reliable.view m.output) := by rw [akin.view]
      _ = reliable.view (m.write passage octets).2.output :=
          (reliable.view_write passage octets akin.intact).symm

/-- The first run may make one call less than the second, so it is excused once it
comes to a call that is refused. -/
theorem lockstep (reliable : Reliable σ ν) :
    Lockstep (fun _ _ => True) (fun levels levels' => levels' = levels + 1)
      (fun first _ => first.1.HitsLimit) (Akin reliable) where
  onward_first hits onward := by
    cases onward with
    | further outcome path => exact absurd hits id
    | returned word outcome m => exact hits.blame word
  onward_second hits _ := hits
  lookup word akin _ := by rw [akin.words]
  step := by
    intro m m' levels levels' instruction akin _ callsNothing
    rcases akin.toSame.perform (call levels) (call levels') callsNothing with
      ⟨passage, octets, first, second⟩ | ⟨outcome, same, kept, kept'⟩
    · rw [first, second]
      exact .inr (akin.write passage octets)
    · exact .inr ⟨outcome, akin.of_output same kept kept'⟩
  traced _ _ akin := akin.trace _ _ _ _
  enter akin := akin.of_output ⟨akin.stack, akin.words, akin.constants⟩ rfl rfl
  leave akin := akin.of_output ⟨akin.stack, akin.words, akin.constants⟩ rfl rfl
  nested pair := Nat.succ.inj pair
  refused := by
    rintro m m' levels _ word body _ rfl exhausted
    obtain rfl : levels = 0 := by omega
    exact .inl ⟨word, m.depth, List.mem_singleton_self _⟩

end Akin

section Respaced

variable {m m' : Machine σ}

/-- An instruction alone, before and after a change of its spacing. -/
theorem Alike.performAll_singleton (unfailing : Unfailing σ) (alike : Alike unfailing.blind m m')
    (levels : Nat) {instruction instruction' : Instruction}
    (respaced : instruction.Respaced instruction') :
    (m'.performAll (call levels) .done [instruction']).1 =
        (m.performAll (call levels) .done [instruction]).1 ∧
      Alike unfailing.blind (m.performAll (call levels) .done [instruction]).2
        (m'.performAll (call levels) .done [instruction']).2 := by
  cases respaced with
  | same => exact alike.performAll levels .done [instruction]
  | say line line' =>
    have done : (m.perform (call levels) (.say line)).1 = .done :=
      unfailing.write_done _ _ alike.intact
    have done' : (m'.perform (call levels) (.say line')).1 = .done :=
      unfailing.write_done _ _ alike.intact'
    rw [performAll_cons_of_done done, performAll_cons_of_done done']
    refine ⟨rfl, Alike.trace ?_ _ _ _ _⟩
    exact ⟨alike.stack, alike.words, alike.constants, alike.depth,
      unfailing.write_intact _ _ alike.intact, unfailing.write_intact _ _ alike.intact', rfl⟩

/-- The spacing of strings shows in the output only. -/
theorem Alike.performAll_respaced (unfailing : Unfailing σ) (alike : Alike unfailing.blind m m')
    (levels : Nat) (ending : Outcome) {instructions instructions' : List Instruction}
    (respaced : List.Forall₂ Instruction.Respaced instructions instructions') :
    (m'.performAll (call levels) ending instructions').1 =
        (m.performAll (call levels) ending instructions).1 ∧
      Alike unfailing.blind (m.performAll (call levels) ending instructions).2
        (m'.performAll (call levels) ending instructions').2 := by
  induction respaced generalizing m m' with
  | nil => exact ⟨rfl, alike⟩
  | @cons instruction instruction' rest rest' head _ inductionHypothesis =>
    obtain ⟨same, after⟩ := alike.performAll_singleton unfailing levels head
    rw [← List.singleton_append (l := rest), ← List.singleton_append (l := rest')]
    by_cases done : (m.performAll (call levels) .done [instruction]).1 = .done
    · rw [performAll_append_of_done _ _ done, performAll_append_of_done _ _ (same.trans done)]
      exact inductionHypothesis after
    · rw [performAll_append_of_ne_done _ _ done,
        performAll_append_of_ne_done _ _ (by rw [same]; exact done)]
      exact ⟨same, after⟩

theorem Alike.execute_stored (unfailing : Unfailing σ) (alike : Alike unfailing.blind m m')
    (levels : Nat) (tokens : List Token) :
    (m'.execute (call levels) (stored tokens)).1 = (m.execute (call levels) tokens).1 ∧
      Alike unfailing.blind (m.execute (call levels) tokens).2
        (m'.execute (call levels) (stored tokens)).2 := by
  obtain ⟨respaced, ending⟩ := Program.readFrom_stored (.same .idle) tokens
  simp only [Machine.execute, Program.ofTokens, ending]
  exact alike.performAll_respaced unfailing levels _ respaced

theorem execute_stored_of_compact {tokens : List Token}
    (compact : Program.compact .idle tokens = true) (call : Call σ) (m : Machine σ) :
    m.execute call (stored tokens) = m.execute call tokens := by
  simp only [execute, Program.ofTokens, Program.readFrom_stored_of_compact compact]

end Respaced

variable {m : Machine σ} {name : Token} {body : Bytes}

/-- What the tokens of a line that defines a word come to. -/
theorem evalLine_definitionLine (solid : name.Solid) (valid : validWordName name = true)
    (unclosed : Token.semicolon ∉ tokenize body) (m : Machine σ) :
    (m.evalLine (definitionLine name body)).1 = .done ∧
      (m.evalLine (definitionLine name body)).2.stack = m.stack ∧
      (m.evalLine (definitionLine name body)).2.words =
        m.words.define name (stored (tokenize body)) ∧
      (m.evalLine (definitionLine name body)).2.constants = m.constants := by
  obtain ⟨message, same⟩ := (m.trace (text ">") (text "eval " ++
    (definitionLine name body).quote)).exists_defineWord_eq name (stored (tokenize body))
  simp only [evalLine, evalTokens, execute, tokenize_definitionLine solid.toCut,
    Program.ofTokens_definition solid.nonblank valid unclosed, performAll, perform, traceRule, same,
    trace_stack, trace_words, trace_constants, and_self]

/-- What a machine comes to by a line that defines a word. -/
theorem exists_eval_definitionLine (quiet : m.echo = false) (intact : reliable.intact m.output)
    (solid : name.Solid) (valid : validWordName name = true)
    (unclosed : Token.semicolon ∉ tokenize body) :
    (m.eval (definitionLine name body)).2.words.lookup? name = some (stored (tokenize body)) ∧
      (m.eval (definitionLine name body)).2.echo = false ∧
      reliable.intact (m.eval (definitionLine name body)).2.output := by
  have kept := SameSettings.eval (definitionLine name body) m
  have reached : reliable.intact (m.evalLine (definitionLine name body)).2.output :=
    evalLine_intact intact _
  refine ⟨?_, kept.echo.trans quiet, ?_⟩
  · obtain ⟨-, -, defined, -⟩ := evalLine_definitionLine solid valid unclosed m
    rw [eval_eq_of_reliable quiet intact]
    simp only [flush, defined, Table.lookup?_define_self]
  · rw [eval_eq_of_reliable quiet intact]
    exact reliable.flush_intact reached

/-- Stored tokens, under one call more, against the tokens themselves. -/
theorem Akin.execute_stored {m m' : Machine σ} (akin : Akin reliable m m') (levels : Nat)
    {tokens : List Token} (done : (m'.execute (call (levels + 1)) tokens).1 = .done)
    (within : ¬ (m.execute (call levels) (stored tokens)).1.HitsLimit) :
    (m.execute (call levels) (stored tokens)).1 = .done ∧
      (m.execute (call levels) (stored tokens)).2.stack =
        (m'.execute (call (levels + 1)) tokens).2.stack ∧
      (m.execute (call levels) (stored tokens)).2.constants =
        (m'.execute (call (levels + 1)) tokens).2.constants ∧
      (Program.compact .idle tokens = true →
        reliable.view (m.execute (call levels) (stored tokens)).2.output =
          reliable.view (m'.execute (call (levels + 1)) tokens).2.output) := by
  have permits : Moment.Permits (fun _ _ => True)
      ⟨[], levels, Program.ofTokens (stored tokens), m⟩ := fun _ _ _ _ _ => trivial
  have deeper : InStep _ _ (m.execute (call levels) (stored tokens))
      (m'.execute (call (levels + 1)) (stored tokens)) :=
    (lockstep reliable).performAll rfl akin permits
  have alike : Alike reliable.toUnfailing.blind m' m' := .refl akin.intact'
  obtain ⟨spaced, respaced⟩ := alike.execute_stored reliable.toUnfailing (levels + 1) tokens
  rcases deeper with hits | ⟨outcome, after⟩
  · exact absurd hits within
  · refine ⟨?_, ?_, ?_, ?_⟩
    · rw [← outcome, spaced, done]
    · rw [← after.stack, respaced.stack]
    · rw [← after.constants, respaced.constants]
    · intro compact
      rw [← after.view, execute_stored_of_compact compact]

/-- A line with nothing but the name of a word comes to a call of the word. -/
theorem evalLine_name {tokens : List Token} (defined : m.words.lookup? name = some tokens)
    (solid : name.Solid) (ordinary : name ∉ Token.special) :
    let called := call (m.maxDepth - m.depth) name tokens
      (m.trace (text ">") (text "eval " ++ name.quote))
    (m.evalLine name).1 = called.1 ∧ (m.evalLine name).2.stack = called.2.stack ∧
      (m.evalLine name).2.constants = called.2.constants ∧
      (m.evalLine name).2.output = called.2.output := by
  intro called
  have performed : (m.trace (text ">") (text "eval " ++ name.quote)).perform
      (call (m.maxDepth - m.depth)) (.refer name) = called := by
    apply perform_refer_of_defined
    rw [trace_words, defined]
  have line : m.evalLine name = performAll (call (m.maxDepth - m.depth)) .done [.refer name]
      (m.trace (text ">") (text "eval " ++ name.quote)) := by
    simp only [evalLine, evalTokens, execute, solid.toCut.tokenize,
      Program.ofTokens_name solid.nonblank ordinary, trace_maxDepth, trace_depth]
  rw [line]
  by_cases done : called.1 = .done
  · rw [performAll_cons_of_done (by rw [performed, done]), performed, done]
    simp [performAll, traceRule]
  · rw [performAll_cons_of_ne_done (by rw [performed]; exact done), performed]
    exact ⟨rfl, rfl, rfl, rfl⟩

theorem evalLine_of_name (intact : reliable.intact m.output) (solid : name.Solid)
    (ordinary : name ∉ Token.special)
    (defined : m.words.lookup? name = some (stored (tokenize body)))
    (done : (m.evalLine body).1 = .done) (within : ¬ (m.evalLine name).1.HitsLimit) :
    (m.evalLine name).1 = .done ∧
      (m.evalLine name).2.stack = (m.evalLine body).2.stack ∧
      (m.evalLine name).2.constants = (m.evalLine body).2.constants ∧
      (Program.compact .idle (tokenize body) = true →
        reliable.view (m.evalLine name).2.output = reliable.view (m.evalLine body).2.output) := by
  obtain ⟨outcome, stack, constants, output⟩ := evalLine_name defined solid ordinary
  cases allowed : m.maxDepth - m.depth with
  | zero =>
    rw [outcome, allowed] at within
    exact absurd ⟨name, _, List.mem_singleton_self _⟩ within
  | succ levels =>
    rw [allowed] at outcome stack constants output
    have line : m.evalLine body = (m.trace (text ">") (text "eval " ++ body.quote)).execute
        (call (levels + 1)) (tokenize body) := by
      simp only [evalLine, evalTokens, trace_maxDepth, trace_depth, allowed]
    have akin : Akin reliable (m.trace (text ">") (text "eval " ++ name.quote)).enter
        (m.trace (text ">") (text "eval " ++ body.quote)) := by
      have same : Akin reliable m m := ⟨⟨rfl, rfl, rfl⟩, intact, intact, rfl⟩
      have traced := same.trace (text ">") (text "eval " ++ name.quote) (text ">")
        (text "eval " ++ body.quote)
      exact traced.of_output ⟨traced.stack, traced.words, traced.constants⟩ rfl rfl
    rw [line] at done ⊢
    obtain ⟨inside, sameStack, sameConstants, sameView⟩ := akin.execute_stored levels done (by
      intro hits
      rw [outcome] at within
      exact within (hits.blame name))
    refine ⟨?_, stack.trans sameStack, constants.trans sameConstants, ?_⟩
    · rw [outcome]
      exact congrArg (Outcome.blame name) inside
    · intro compact
      rw [output]
      exact sameView compact

/-- In the machine that a definition leaves, the new word does what its text does, if the
text succeeds and the word may be called as deep as it goes. Both put out the same if the
text has no blank token inside a string. By `Recorded.reliable`, this holds for every
output that never fails and all the octets that were written to it. -/
theorem eval_name_of_definitionLine (reliable : Reliable σ ν) (quiet : m.echo = false)
    (intact : reliable.intact m.output) (solid : name.Solid) (valid : validWordName name = true)
    (ordinary : name ∉ Token.special) (unclosed : Token.semicolon ∉ tokenize body)
    (done : ((m.eval (definitionLine name body)).2.eval body).1 = .done)
    (within : ¬ ((m.eval (definitionLine name body)).2.eval name).1.HitsLimit) :
    ((m.eval (definitionLine name body)).2.eval name).1 = .done ∧
      ((m.eval (definitionLine name body)).2.eval name).2.stack =
        ((m.eval (definitionLine name body)).2.eval body).2.stack ∧
      ((m.eval (definitionLine name body)).2.eval name).2.constants =
        ((m.eval (definitionLine name body)).2.eval body).2.constants ∧
      (Program.compact .idle (tokenize body) = true →
        reliable.view ((m.eval (definitionLine name body)).2.eval name).2.output =
          reliable.view ((m.eval (definitionLine name body)).2.eval body).2.output) := by
  obtain ⟨defined, silent, still⟩ :=
    exists_eval_definitionLine quiet intact solid valid unclosed
  generalize (m.eval (definitionLine name body)).2 = current at *
  rw [eval_eq_of_reliable silent still] at done within ⊢
  rw [eval_eq_of_reliable silent still]
  have hits : ¬ (current.evalLine name).1.HitsLimit := fun hits => within (hits.recover _)
  obtain ⟨outcome, stack, constants, view⟩ := evalLine_of_name still solid ordinary defined
    (Outcome.eq_done_of_recover done) hits
  refine ⟨by rw [outcome]; rfl, stack, constants, ?_⟩
  intro compact
  calc reliable.view (current.evalLine name).2.flush.2.output
      = reliable.view (current.evalLine name).2.output :=
        reliable.view_flush (evalLine_intact still name)
    _ = reliable.view (current.evalLine body).2.output := view compact
    _ = reliable.view (current.evalLine body).2.flush.2.output :=
        (reliable.view_flush (evalLine_intact still body)).symm

/-- A text with a string, a constant and a call, and blank tokens between them. -/
def squareText : Bytes := text "3  constant k  .\" square of k \" k sq ."

/-- A machine with the word that `squareText` calls. -/
def squaring : Machine Console :=
  { initial twoDevices with words := Table.empty.defineAll [(text "sq", [text "dup", text "*"])] }

theorem eval_name_of_definitionLine_squaring :
    ((squaring.eval (definitionLine (text "show") squareText)).2.eval (text "show")).1 = .done ∧
      ((squaring.eval (definitionLine (text "show") squareText)).2.eval (text "show")).2.stack =
        [9] ∧
      Console.reliable.view ((squaring.eval (definitionLine (text "show") squareText)).2.eval
        (text "show")).2.output =
          [text "square of k\n> [9]\n", text "square of k\n> [9]\n"] := by
  have solid : Token.Solid (text "show") :=
    ⟨⟨by decide +kernel, by decide +kernel⟩, by decide +kernel⟩
  have done : ((squaring.eval (definitionLine (text "show") squareText)).2.eval squareText).1 =
      .done := by decide +kernel
  have returned : ((squaring.eval (definitionLine (text "show") squareText)).2.eval
      (text "show")).1 = .done := by decide +kernel
  have within : ¬ ((squaring.eval (definitionLine (text "show") squareText)).2.eval
      (text "show")).1.HitsLimit := by
    rw [returned]
    exact id
  have intact : Console.reliable.intact squaring.output := twoDevices_dependable
  obtain ⟨outcome, stack, -, view⟩ := eval_name_of_definitionLine Console.reliable rfl intact solid
    (by decide +kernel) (by decide +kernel) (by decide +kernel) done within
  exact ⟨outcome, stack.trans (by decide +kernel),
    (view (by decide +kernel)).trans (by decide +kernel)⟩

/-- A blank token inside a string is a space of its text, which the definition loses. -/
theorem eval_name_respaces :
    let defined := ((initial twoDevices).eval (definitionLine (text "w") (text ".\" a  b\""))).2
    validWordName (text "w") = true ∧ text "w" ∉ Token.special ∧
      Token.semicolon ∉ tokenize (text ".\" a  b\"") ∧
      text "w" ∉ tokenize (text ".\" a  b\"") ∧
      (defined.eval (text ".\" a  b\"")).1 = .done ∧ (defined.eval (text "w")).1 = .done ∧
      Console.reliable.view (defined.eval (text ".\" a  b\"")).2.output =
        [text "a  b\n", text "a  b\n"] ∧
      Console.reliable.view (defined.eval (text "w")).2.output =
        [text "a b\n", text "a b\n"] := by
  decide +kernel

end Machine

end LineForth
