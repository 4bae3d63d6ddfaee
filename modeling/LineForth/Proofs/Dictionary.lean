import LineForth.Proofs.Sequencing
import LineForth.Proofs.Table
import LineForth.Proofs.Tokens

/-!
# Orderly dictionaries

A dictionary is orderly if its names and the tokens of its bodies could stand in
a line, no word is named like a number, and no body holds a semicolon. Evaluation
keeps dictionaries orderly. As a body without a semicolon cannot complete a
definition, the words stay as they are while a word runs.
-/

set_option autoImplicit false

namespace LineForth

namespace Table

variable {α : Type}

theorem mem_put {name : Bytes} {value : α} {entries : List (Bytes × α)} {entry : Bytes × α}
    (membership : entry ∈ put name value entries) :
    entry = (name, value) ∨ entry ∈ entries := by
  induction entries with
  | nil => exact .inl (List.mem_singleton.mp membership)
  | cons head rest inductionHypothesis =>
    rcases head with ⟨other, old⟩
    simp only [put] at membership
    split at membership
    · rcases List.mem_cons.mp membership with rfl | later
      · exact .inl rfl
      · exact .inr (List.mem_cons_of_mem _ later)
    · rcases List.mem_cons.mp membership with rfl | later
      · exact .inr List.mem_cons_self
      · rcases inductionHypothesis later with new | old
        · exact .inl new
        · exact .inr (List.mem_cons_of_mem _ old)

theorem mem_of_lookup? {table : Table α} {name : Bytes} {value : α}
    (found : table.lookup? name = some value) : (name, value) ∈ table.entries := by
  rw [lookup?_eq] at found
  obtain ⟨before, after, same, -⟩ := List.lookup_eq_some_iff.mp found
  rw [same]
  simp

end Table

namespace Token

/-- A token that may stand in the body of a word. -/
def InBody (token : Token) : Prop := token.Solid ∧ token ≠ semicolon

end Token

namespace Instruction

def Orderly : Instruction → Prop
  | define name body =>
    (name.Solid ∧ Numeral.parse? name = none) ∧ ∀ token ∈ body, Token.InBody token
  | constant name => name.Solid
  | _ => True

end Instruction

namespace Pending

def Orderly : Pending → Prop
  | body name reversed =>
    (name.Solid ∧ Numeral.parse? name = none) ∧ ∀ token ∈ reversed, Token.InBody token
  | _ => True

end Pending

namespace Reading

def Orderly : Reading → Prop
  | pending state => state.Orderly
  | complete instruction => instruction.Orderly
  | invalid _ => True

end Reading

namespace Pending

theorem orderly_start (token : Token) : (start token).Orderly := by
  unfold start
  repeat' split
  all_goals trivial

/-- Reading one token of a line keeps what is read orderly. -/
theorem Orderly.feed {state : Pending} {token : Token} (orderly : state.Orderly)
    (cut : token.Cut) : (state.feed token).Orderly := by
  have solid : ¬ token.isEmpty → token.Solid := fun nonblank =>
    ⟨cut, fun blank => nonblank (by rw [blank]; rfl)⟩
  cases state with
  | idle => exact orderly_start token
  | definition =>
    simp only [Pending.feed]
    split
    next => trivial
    next nonblank =>
      split
      next valid =>
        have free : Numeral.parse? token = none := by simpa [validWordName] using valid
        exact ⟨⟨solid nonblank, free⟩, by simp⟩
      next => trivial
  | body name reversed =>
    simp only [Pending.feed]
    split
    next => exact ⟨orderly.1, by simpa using orderly.2⟩
    next different =>
      split
      next => exact orderly
      next nonblank =>
        refine ⟨orderly.1, ?_⟩
        intro other membership
        rcases List.mem_cons.mp membership with rfl | earlier
        · exact ⟨solid nonblank, different⟩
        · exact orderly.2 other earlier
  | constantName =>
    simp only [Pending.feed]
    split
    next => trivial
    next nonblank => exact solid nonblank
  | string reversed =>
    simp only [Pending.feed]
    split <;> trivial

/-- Only a semicolon completes a definition. -/
theorem eq_semicolon_of_feed {state : Pending} {token name : Token} {body : List Token}
    (completed : state.feed token = .complete (.define name body)) :
    token = Token.semicolon := by
  cases state with
  | idle =>
    simp only [feed, start] at completed
    repeat' split at completed
    all_goals simp at completed
  | definition =>
    simp only [feed] at completed
    repeat' split at completed
    all_goals simp at completed
  | body other reversed =>
    simp only [feed] at completed
    split at completed
    next semicolon => exact semicolon
    next =>
      split at completed
      all_goals simp at completed
  | constantName =>
    simp only [feed] at completed
    split at completed
    all_goals simp at completed
  | string reversed =>
    simp only [feed] at completed
    split at completed
    all_goals simp at completed

end Pending

namespace Program

theorem orderly_of_mem_readFrom {state : Pending} {tokens : List Token} (orderly : state.Orderly)
    (cut : ∀ token ∈ tokens, token.Cut) :
    ∀ instruction ∈ (readFrom state tokens).instructions, instruction.Orderly := by
  induction tokens generalizing state with
  | nil => simp [readFrom]
  | cons token rest inductionHypothesis =>
    have fed := orderly.feed (cut token (by simp))
    have later : ∀ token ∈ rest, token.Cut := fun other membership =>
      cut other (List.mem_cons_of_mem _ membership)
    have idle : Pending.idle.Orderly := trivial
    simp only [readFrom]
    cases reading : state.feed token with
    | pending next =>
      rw [reading] at fed
      exact inductionHypothesis fed later
    | complete instruction =>
      rw [reading] at fed
      intro other membership
      rcases List.mem_cons.mp membership with rfl | inRest
      · exact fed
      · exact inductionHypothesis idle later other inRest
    | invalid failure => simp

theorem orderly_of_mem_ofTokens {tokens : List Token} (cut : ∀ token ∈ tokens, token.Cut) :
    ∀ instruction ∈ (ofTokens tokens).instructions, instruction.Orderly := by
  have idle : Pending.idle.Orderly := trivial
  exact orderly_of_mem_readFrom idle cut

theorem define_not_mem_readFrom {tokens : List Token} (unclosed : Token.semicolon ∉ tokens)
    (state : Pending) (name : Token) (body : List Token) :
    .define name body ∉ (readFrom state tokens).instructions := by
  induction tokens generalizing state with
  | nil => simp [readFrom]
  | cons token rest inductionHypothesis =>
    rw [List.mem_cons, not_or] at unclosed
    have later := inductionHypothesis unclosed.2
    simp only [readFrom]
    cases reading : state.feed token with
    | pending next => exact later next
    | complete instruction =>
      intro membership
      rcases List.mem_cons.mp membership with rfl | inRest
      · exact unclosed.1 (Pending.eq_semicolon_of_feed reading).symm
      · exact later .idle inRest
    | invalid failure => simp

theorem readFrom_body {tokens : List Token} (unclosed : Token.semicolon ∉ tokens) (name : Token)
    (reversed : List Token) :
    readFrom (.body name reversed) tokens = ⟨[], .failed .unterminatedDefinition⟩ := by
  induction tokens generalizing reversed with
  | nil => rfl
  | cons token rest inductionHypothesis =>
    rw [List.mem_cons, not_or] at unclosed
    have different : ¬ token = Token.semicolon := fun same => unclosed.1 same.symm
    simp only [readFrom, Pending.feed, if_neg different]
    by_cases blank : token.isEmpty
    · simp only [blank, if_true]
      exact inductionHypothesis unclosed.2 reversed
    · simp only [blank]
      exact inductionHypothesis unclosed.2 (token :: reversed)

/-- A definition that no semicolon completes gives no instruction, and it ends the
program with one of two failures. -/
theorem readFrom_definition {tokens : List Token} (unclosed : Token.semicolon ∉ tokens) :
    ∃ failure, readFrom .definition tokens = ⟨[], .failed failure⟩ ∧
      (failure = .unterminatedDefinition ∨ ∃ name, failure = .invalidWordName name) := by
  induction tokens with
  | nil => exact ⟨_, rfl, .inl rfl⟩
  | cons token rest inductionHypothesis =>
    rw [List.mem_cons, not_or] at unclosed
    by_cases blank : token.isEmpty
    · simp only [readFrom, Pending.feed, blank, if_true]
      exact inductionHypothesis unclosed.2
    · by_cases valid : validWordName token
      · simp only [readFrom, Pending.feed, blank, valid, if_true]
        exact ⟨_, readFrom_body unclosed.2 token [], .inl rfl⟩
      · simp only [readFrom, Pending.feed, blank, valid]
        exact ⟨_, rfl, .inr ⟨token, rfl⟩⟩

end Program

namespace Machine

variable {σ : Type}

/-- The names and bodies of a dictionary that was defined from lines. -/
structure Orderly (m : Machine σ) : Prop where
  words : ∀ name body, (name, body) ∈ m.words.entries →
    Token.Solid name ∧ Numeral.parse? name = none
  bodies : ∀ name body, (name, body) ∈ m.words.entries → ∀ token ∈ body, Token.InBody token
  constants : ∀ name value, (name, value) ∈ m.constants.entries → Token.Solid name

namespace Orderly

variable {m m' : Machine σ} {name : Token} {body : List Token}

theorem congr (orderly : m.Orderly) (words : m'.words = m.words)
    (constants : m'.constants = m.constants) : m'.Orderly :=
  ⟨by rw [words]; exact orderly.words, by rw [words]; exact orderly.bodies,
    by rw [constants]; exact orderly.constants⟩

theorem trace (orderly : m.Orderly) (mark message : Bytes) : (m.trace mark message).Orderly :=
  orderly.congr (trace_words m mark message) (trace_constants m mark message)

theorem inBody (orderly : m.Orderly) (defined : m.words.lookup? name = some body) :
    ∀ token ∈ body, Token.InBody token :=
  orderly.bodies name body (Table.mem_of_lookup? defined)

theorem defineWord (orderly : m.Orderly) (instruction : (Instruction.define name body).Orderly) :
    (m.defineWord name body).Orderly := by
  obtain ⟨message, same⟩ := m.exists_defineWord_eq name body
  rw [same]
  apply trace
  refine ⟨?_, ?_, orderly.constants⟩
  · intro other otherBody membership
    rw [Table.entries_define] at membership
    rcases Table.mem_put membership with new | old
    · cases new
      exact instruction.1
    · exact orderly.words other otherBody old
  · intro other otherBody membership
    rw [Table.entries_define] at membership
    rcases Table.mem_put membership with new | old
    · cases new
      exact instruction.2
    · exact orderly.bodies other otherBody old

theorem defineConstant (orderly : m.Orderly) (solid : name.Solid) (value : Cell) :
    (m.defineConstant name value).Orderly := by
  obtain ⟨message, same⟩ := m.exists_defineConstant_eq name value
  rw [same]
  apply trace
  refine ⟨orderly.words, orderly.bodies, ?_⟩
  intro other otherValue membership
  rw [Table.entries_define] at membership
  rcases Table.mem_put membership with new | old
  · cases new
    exact solid
  · exact orderly.constants other otherValue old

theorem bindConstant (orderly : m.Orderly) (solid : name.Solid) :
    (m.bindConstant name).2.Orderly := by
  unfold Machine.bindConstant
  split
  next value rest _ =>
    have popped : { m with stack := rest }.Orderly := orderly.congr rfl rfl
    exact popped.defineConstant solid value
  next failure rest _ => exact orderly.congr rfl rfl

section Run

variable [Output σ]

theorem perform {call : Call σ} {instruction : Instruction} (orderly : m.Orderly)
    (readable : instruction.Orderly)
    (calls : ∀ name body {m : Machine σ}, m.Orderly → m.words.lookup? name = some body →
      (call name body m).2.Orderly) :
    (m.perform call instruction).2.Orderly := by
  cases instruction with
  | define name body => exact orderly.defineWord readable
  | print => exact orderly.congr rfl rfl
  | words => exact orderly.congr rfl rfl
  | constant name => exact orderly.bindConstant readable
  | say line => exact orderly.congr rfl rfl
  | refer token =>
    simp only [Machine.perform, Machine.refer]
    split
    next body meaning => exact calls token body orderly (meaning_eq_word_iff.mp meaning)
    all_goals exact orderly.congr rfl rfl

theorem execute {call : Call σ} {tokens : List Token} (orderly : m.Orderly)
    (cut : ∀ token ∈ tokens, token.Cut)
    (calls : ∀ name body {m : Machine σ}, m.Orderly → m.words.lookup? name = some body →
      (call name body m).2.Orderly) :
    (m.execute call tokens).2.Orderly := by
  have readable := Program.orderly_of_mem_ofTokens cut
  unfold Machine.execute
  apply performAll_preserves (P := Machine.Orderly)
  · intro instruction membership current currentOrderly
    exact currentOrderly.perform (readable instruction membership) calls
  · intro current rule token currentOrderly
    exact currentOrderly.trace _ _
  · exact orderly

theorem call (levels : Nat) (name : Token) (body : List Token) (orderly : m.Orderly)
    (defined : m.words.lookup? name = some body) :
    (Machine.call levels name body m).2.Orderly := by
  induction levels generalizing name body m with
  | zero => exact orderly
  | succ levels inductionHypothesis =>
    have entered : m.enter.Orderly := orderly.congr rfl rfl
    have cut : ∀ token ∈ body, token.Cut := fun token membership =>
      (orderly.inBody defined token membership).1.toCut
    have left := entered.execute cut (fun name body {_} => inductionHypothesis name body)
    exact left.congr rfl rfl

theorem evalTokens {tokens : List Token} (orderly : m.Orderly)
    (cut : ∀ token ∈ tokens, token.Cut) : (m.evalTokens tokens).2.Orderly :=
  orderly.execute cut (fun name body {_} => call _ name body)

theorem eval (orderly : m.Orderly) (line : Bytes) : (m.eval line).2.Orderly := by
  obtain ⟨output, journal, concluded⟩ := exists_conclude_eq (m.evalLine line)
  have evaluated : (m.evalLine line).2.Orderly :=
    (orderly.trace _ _).evalTokens (fun _ => cut_of_mem_tokenize)
  rw [eval_eq_conclude, concluded]
  exact evaluated.congr rfl rfl

end Run

end Orderly

/-- No body of the table can complete a definition. -/
def Settled (words : Table (List Token)) : Prop :=
  ∀ name body, words.lookup? name = some body → Token.semicolon ∉ body

theorem Orderly.settled {m : Machine σ} (orderly : m.Orderly) : Settled m.words :=
  fun _ _ defined membership => (orderly.inBody defined _ membership).2 rfl

section Run

variable [Output σ]

theorem perform_words {call : Call σ} {instruction : Instruction} {m : Machine σ}
    (other : ∀ name body, instruction ≠ .define name body)
    (calls : ∀ name body, m.words.lookup? name = some body → (call name body m).2.words = m.words) :
    (m.perform call instruction).2.words = m.words := by
  cases instruction with
  | define name body => exact absurd rfl (other name body)
  | print => rfl
  | words => rfl
  | constant name =>
    simp only [perform, bindConstant]
    split
    next value rest _ =>
      obtain ⟨message, same⟩ := { m with stack := rest }.exists_defineConstant_eq name value
      rw [same, trace_words]
    next failure rest _ => rfl
  | say line => rfl
  | refer token =>
    simp only [perform, refer]
    split
    next body meaning => exact calls token body (meaning_eq_word_iff.mp meaning)
    all_goals rfl

/-- Tokens without a semicolon leave the words as they are, if the calls do. -/
theorem execute_words {call : Call σ} {tokens : List Token} {m : Machine σ}
    (unclosed : Token.semicolon ∉ tokens)
    (calls : ∀ name body {current : Machine σ}, current.words = m.words →
      m.words.lookup? name = some body → (call name body current).2.words = current.words) :
    (m.execute call tokens).2.words = m.words := by
  unfold execute
  apply performAll_preserves (P := fun current => current.words = m.words)
  · intro instruction membership current same
    rw [perform_words, same]
    · intro name body equal
      exact Program.define_not_mem_readFrom unclosed .idle name body (equal ▸ membership)
    · intro name body defined
      exact calls name body same (by rw [← same]; exact defined)
  · intro current rule token same
    simpa [traceRule] using same
  · rfl

/-- While the word runs, whether it succeeds or not, no word is defined. -/
theorem call_words (levels : Nat) {name : Token} {body : List Token} {m : Machine σ}
    (settled : Settled m.words) (defined : m.words.lookup? name = some body) :
    (call levels name body m).2.words = m.words := by
  induction levels generalizing name body m with
  | zero => rfl
  | succ levels inductionHypothesis =>
    have unclosed : Token.semicolon ∉ body := settled name body defined
    have same : (m.enter.execute (call levels) body).2.words = m.enter.words := by
      apply execute_words unclosed
      intro inner innerBody current unchanged found
      exact inductionHypothesis (by rw [unchanged]; exact settled) (by rw [unchanged]; exact found)
    exact same

theorem perform_call_words (levels : Nat) {instruction : Instruction} {m : Machine σ}
    (settled : Settled m.words) (other : ∀ name body, instruction ≠ .define name body) :
    (m.perform (call levels) instruction).2.words = m.words := by
  apply perform_words other
  intro name body found
  exact call_words levels settled found

/-- A colon that comes to be dispatched, because the tokens before it have
succeeded, ends the body. -/
theorem execute_colon {call : Call σ} {before rest : List Token} {m : Machine σ}
    (unclosed : Token.semicolon ∉ rest) (done : (m.execute call before).1 = .done) :
    ∃ failure, m.execute call (before ++ Token.colon :: rest) =
        (.failed failure, (m.execute call before).2) ∧
      (failure = .unterminatedDefinition ∨ ∃ name, failure = .invalidWordName name) := by
  obtain ⟨failure, read, cause⟩ := Program.readFrom_definition unclosed
  refine ⟨failure, ?_, cause⟩
  have opened : Pending.idle.feed Token.colon = .pending .definition := by decide +kernel
  rw [execute_append_of_done done]
  simp only [execute, Program.ofTokens, Program.readFrom, opened, read, performAll]

end Run

end Machine

end LineForth
