import LineForth.Proofs.Attribution
import LineForth.Proofs.Dictionary
import LineForth.Proofs.Lockstep

/-!
# Constructs that fail

A definition, the binding of a constant and a string each read an unknown number of tokens
before it is clear whether they come to anything. Nothing is done until then: a construct
that fails leaves the machine as it was before its first token, no token behind it is
evaluated, and the same goes for the tokens behind all the calls that are active. A
construct that does not fail in one of the ways listed here is complete; there, only the
output can still get in the way.
-/

set_option autoImplicit false

namespace LineForth

namespace Token

/-- The tokens that open a construct of several tokens. -/
def constructs : List Token := [colon, constant, quotation]

end Token

namespace Cursor

variable {index : Nat} {tokens : List Token} {name : Token} {cursor : Cursor}

theorem of_nameFrom_some (found : nameFrom index tokens = (some name, cursor)) :
    ∃ blanks, (∀ token ∈ blanks, token.isEmpty = true) ∧ name.isEmpty = false ∧
      tokens = blanks ++ name :: cursor.remaining := by
  induction tokens generalizing index with
  | nil => cases found
  | cons token rest inductionHypothesis =>
    by_cases blank : token.isEmpty = true
    · rw [nameFrom, if_pos blank] at found
      obtain ⟨blanks, allBlank, nonblank, rfl⟩ := inductionHypothesis found
      exact ⟨token :: blanks, List.forall_mem_cons.mpr ⟨blank, allBlank⟩, nonblank, rfl⟩
    · rw [nameFrom, if_neg blank] at found
      cases found
      exact ⟨[], List.forall_mem_nil _, Bool.eq_false_iff.mpr blank, rfl⟩

theorem of_nameFrom_none (missing : (nameFrom index tokens).1 = none) :
    ∀ token ∈ tokens, token.isEmpty = true := by
  induction tokens generalizing index with
  | nil => exact List.forall_mem_nil _
  | cons token rest inductionHypothesis =>
    by_cases blank : token.isEmpty = true
    · rw [nameFrom, if_pos blank] at missing
      exact List.forall_mem_cons.mpr ⟨blank, inductionHypothesis missing⟩
    · rw [nameFrom, if_neg blank] at missing
      cases missing

end Cursor

namespace Program

variable {state : Pending}

/-- A state that waits for a name passes over blank tokens. -/
theorem readFrom_blanks {blanks : List Token}
    (waits : ∀ token : Token, token.isEmpty = true → state.feed token = .pending state)
    (allBlank : ∀ token ∈ blanks, token.isEmpty = true) (rest : List Token) :
    readFrom state (blanks ++ rest) = readFrom state rest := by
  induction blanks with
  | nil => rfl
  | cons token blanks inductionHypothesis =>
    rw [List.forall_mem_cons] at allBlank
    rw [List.cons_append, readFrom, waits token allBlank.1]
    exact inductionHypothesis allBlank.2

theorem readFrom_all_blank {tokens : List Token}
    (waits : ∀ token : Token, token.isEmpty = true → state.feed token = .pending state)
    (allBlank : ∀ token ∈ tokens, token.isEmpty = true) :
    readFrom state tokens = ⟨[], state.ending⟩ := by
  rw [← List.append_nil tokens, readFrom_blanks waits allBlank]
  rfl

theorem readFrom_string {tokens : List Token}
    (absent : ∀ token ∈ tokens, token.endsWith Token.quoteMark = false)
    (reversed : List Token) :
    readFrom (.string reversed) tokens = ⟨[], .failed .unterminatedString⟩ := by
  induction tokens generalizing reversed with
  | nil => rfl
  | cons token rest inductionHypothesis =>
    rw [List.forall_mem_cons] at absent
    have further : (Pending.string reversed).feed token =
        .pending (.string (token :: reversed)) := by
      simp [Pending.feed, absent.1]
    rw [readFrom, further]
    exact inductionHypothesis absent.2 _

/-- The tokens begin with the instruction, and these are behind it. -/
def Begins (state : Pending) (tokens : List Token) (instruction : Instruction)
    (remaining : List Token) : Prop :=
  remaining <:+ tokens ∧
    readFrom state tokens =
      ⟨instruction :: (ofTokens remaining).instructions, (ofTokens remaining).ending⟩

theorem Begins.of_complete {token : Token} {instruction : Instruction}
    (complete : state.feed token = .complete instruction) (rest : List Token) :
    Begins state (token :: rest) instruction rest := by
  refine ⟨List.suffix_cons token rest, ?_⟩
  rw [readFrom, complete]
  rfl

theorem Begins.of_pending {next : Pending} {token : Token} {rest remaining : List Token}
    {instruction : Instruction} (begins : Begins next rest instruction remaining)
    (pending : state.feed token = .pending next) :
    Begins state (token :: rest) instruction remaining := by
  refine ⟨begins.1.trans (List.suffix_cons token rest), ?_⟩
  rw [readFrom, pending]
  exact begins.2

theorem Begins.of_blanks {blanks rest remaining : List Token} {instruction : Instruction}
    (begins : Begins state rest instruction remaining)
    (waits : ∀ token : Token, token.isEmpty = true → state.feed token = .pending state)
    (allBlank : ∀ token ∈ blanks, token.isEmpty = true) :
    Begins state (blanks ++ rest) instruction remaining := by
  refine ⟨begins.1.trans (List.suffix_append blanks rest), ?_⟩
  rw [readFrom_blanks waits allBlank]
  exact begins.2

theorem exists_begins_body {tokens : List Token} (closed : Token.semicolon ∈ tokens)
    (name : Token) (reversed : List Token) :
    ∃ body remaining, Begins (.body name reversed) tokens (.define name body) remaining := by
  induction tokens generalizing reversed with
  | nil => cases closed
  | cons token rest inductionHypothesis =>
    by_cases closes : token = Token.semicolon
    · refine ⟨reversed.reverse, rest, .of_complete ?_ rest⟩
      rw [Pending.feed, if_pos closes]
    · have later := (List.mem_cons.mp closed).resolve_left fun same => closes same.symm
      by_cases blank : token.isEmpty = true
      · obtain ⟨body, remaining, begins⟩ := inductionHypothesis later reversed
        refine ⟨body, remaining, begins.of_pending ?_⟩
        rw [Pending.feed, if_neg closes, if_pos blank]
      · obtain ⟨body, remaining, begins⟩ := inductionHypothesis later (token :: reversed)
        refine ⟨body, remaining, begins.of_pending ?_⟩
        rw [Pending.feed, if_neg closes, if_neg blank]

theorem exists_begins_string {tokens : List Token}
    (closed : ∃ token ∈ tokens, token.endsWith Token.quoteMark = true) (reversed : List Token) :
    ∃ line remaining, Begins (.string reversed) tokens (.say line) remaining := by
  induction tokens generalizing reversed with
  | nil => simp at closed
  | cons token rest inductionHypothesis =>
    by_cases closes : token.endsWith Token.quoteMark = true
    · refine ⟨Pending.closeString reversed token, rest, .of_complete ?_ rest⟩
      rw [Pending.feed, if_pos closes]
    · have later : ∃ token ∈ rest, token.endsWith Token.quoteMark = true := by
        simpa [closes] using closed
      obtain ⟨line, remaining, begins⟩ := inductionHypothesis later (token :: reversed)
      refine ⟨line, remaining, begins.of_pending ?_⟩
      rw [Pending.feed, if_neg closes]

end Program

namespace Pending

theorem definition_waits (token : Token) (blank : token.isEmpty = true) :
    definition.feed token = .pending definition := by
  rw [feed, if_pos blank]

theorem constantName_waits (token : Token) (blank : token.isEmpty = true) :
    constantName.feed token = .pending constantName := by
  rw [feed, if_pos blank]

theorem feed_colon : idle.feed Token.colon = .pending definition := by decide +kernel

theorem feed_constant : idle.feed Token.constant = .pending constantName := by decide +kernel

theorem feed_quotation : idle.feed Token.quotation = .pending (string []) := by decide +kernel

end Pending

namespace Machine

variable {σ : Type}

/-- The construct that the token opens fails on the tokens behind it. -/
inductive Fails (m : Machine σ) : Token → List Token → Failure → Prop
  /-- A definition without a name. -/
  | nameless {rest : List Token} (missing : (Cursor.ofTokens rest).name.1 = none) :
      Fails m Token.colon rest .unterminatedDefinition
  | misnamed {rest : List Token} {name : Token} {cursor : Cursor}
      (found : (Cursor.ofTokens rest).name = (some name, cursor))
      (invalid : validWordName name = false) :
      Fails m Token.colon rest (.invalidWordName name)
  /-- A definition without an end. -/
  | unclosed {rest : List Token} {name : Token} {cursor : Cursor}
      (found : (Cursor.ofTokens rest).name = (some name, cursor))
      (valid : validWordName name = true) (absent : Token.semicolon ∉ cursor.remaining) :
      Fails m Token.colon rest .unterminatedDefinition
  /-- A constant without a name. -/
  | unnamed {rest : List Token} (missing : (Cursor.ofTokens rest).name.1 = none) :
      Fails m Token.constant rest .missingConstantName
  /-- A constant without a value. -/
  | valueless {rest : List Token} {name : Token} {cursor : Cursor}
      (found : (Cursor.ofTokens rest).name = (some name, cursor)) (empty : m.stack = []) :
      Fails m Token.constant rest (.emptyStack (text "value for constant " ++ name))
  /-- A string without an end. -/
  | unquoted {rest : List Token}
      (absent : ∀ token ∈ rest, token.endsWith Token.quoteMark = false) :
      Fails m Token.quotation rest .unterminatedString

namespace Fails

variable {m : Machine σ} {opener : Token} {rest : List Token} {failure : Failure}

theorem isInWord (fails : m.Fails opener rest failure) : failure.isInWord = false := by
  cases fails <;> rfl

theorem begins_constant {name : Token} {cursor : Cursor}
    (found : (Cursor.ofTokens rest).name = (some name, cursor)) :
    Program.Begins .idle (Token.constant :: rest) (.constant name) cursor.remaining := by
  obtain ⟨blanks, allBlank, nonblank, rfl⟩ := Cursor.of_nameFrom_some found
  have named : Pending.constantName.feed name = .complete (.constant name) := by
    simp [Pending.feed, nonblank]
  apply Program.Begins.of_pending ?_ Pending.feed_constant
  exact (Program.Begins.of_complete named _).of_blanks Pending.constantName_waits allBlank

/-- What fails is a reading that comes to no instruction, or the binding of a constant on
an empty stack. -/
theorem program (fails : m.Fails opener rest failure) :
    Program.ofTokens (opener :: rest) = ⟨[], .failed failure⟩ ∨
      ∃ name remaining, m.stack = [] ∧
        failure = .emptyStack (text "value for constant " ++ name) ∧
        Program.Begins .idle (opener :: rest) (.constant name) remaining := by
  cases fails with
  | nameless missing =>
    left
    rw [Program.ofTokens, Program.readFrom, Pending.feed_colon]
    exact Program.readFrom_all_blank Pending.definition_waits (Cursor.of_nameFrom_none missing)
  | @misnamed _ name cursor found invalid =>
    left
    obtain ⟨blanks, allBlank, nonblank, rfl⟩ := Cursor.of_nameFrom_some found
    rw [Program.ofTokens, Program.readFrom, Pending.feed_colon]
    simp only [Program.readFrom_blanks Pending.definition_waits allBlank]
    simp [Program.readFrom, Pending.feed, nonblank, invalid]
  | @unclosed _ name cursor found valid absent =>
    left
    obtain ⟨blanks, allBlank, nonblank, rfl⟩ := Cursor.of_nameFrom_some found
    have named : Pending.definition.feed name = .pending (.body name []) := by
      simp [Pending.feed, nonblank, valid]
    rw [Program.ofTokens, Program.readFrom, Pending.feed_colon]
    simp only [Program.readFrom_blanks Pending.definition_waits allBlank]
    rw [Program.readFrom, named]
    exact Program.readFrom_body absent name []
  | unnamed missing =>
    left
    rw [Program.ofTokens, Program.readFrom, Pending.feed_constant]
    exact Program.readFrom_all_blank Pending.constantName_waits (Cursor.of_nameFrom_none missing)
  | @valueless _ name cursor found empty =>
    exact .inr ⟨name, cursor.remaining, empty, rfl, begins_constant found⟩
  | unquoted absent =>
    left
    rw [Program.ofTokens, Program.readFrom, Pending.feed_quotation]
    exact Program.readFrom_string absent []

/-- A construct fails in one of these ways, or it is complete. -/
theorem or_begins (m : Machine σ) {opener : Token} (construct : opener ∈ Token.constructs)
    (rest : List Token) :
    (∃ failure, m.Fails opener rest failure) ∨
      ∃ instruction remaining, Program.Begins .idle (opener :: rest) instruction remaining ∧
        ((∃ name body, instruction = .define name body) ∨
          (∃ name, instruction = .constant name ∧ m.stack ≠ []) ∨
          ∃ line, instruction = .say line) := by
  simp only [Token.constructs, List.mem_cons, List.not_mem_nil, or_false] at construct
  rcases construct with rfl | rfl | rfl
  · rcases found : (Cursor.ofTokens rest).name with ⟨none | name, cursor⟩
    · exact .inl ⟨_, .nameless (congrArg Prod.fst found)⟩
    · cases valid : validWordName name with
      | false => exact .inl ⟨_, .misnamed found valid⟩
      | true =>
        by_cases closed : Token.semicolon ∈ cursor.remaining
        · right
          obtain ⟨blanks, allBlank, nonblank, rfl⟩ := Cursor.of_nameFrom_some found
          obtain ⟨body, remaining, begins⟩ := Program.exists_begins_body closed name []
          have named : Pending.definition.feed name = .pending (.body name []) := by
            simp [Pending.feed, nonblank, valid]
          refine ⟨.define name body, remaining, ?_, .inl ⟨name, body, rfl⟩⟩
          apply Program.Begins.of_pending ?_ Pending.feed_colon
          exact (begins.of_pending named).of_blanks Pending.definition_waits allBlank
        · exact .inl ⟨_, .unclosed found valid closed⟩
  · rcases found : (Cursor.ofTokens rest).name with ⟨none | name, cursor⟩
    · exact .inl ⟨_, .unnamed (congrArg Prod.fst found)⟩
    · by_cases empty : m.stack = []
      · exact .inl ⟨_, .valueless found empty⟩
      · exact .inr ⟨_, _, begins_constant found, .inr (.inl ⟨name, rfl, empty⟩)⟩
  · by_cases closed : ∃ token ∈ rest, token.endsWith Token.quoteMark = true
    · obtain ⟨line, remaining, begins⟩ := Program.exists_begins_string closed []
      exact .inr ⟨_, _, begins.of_pending Pending.feed_quotation, .inr (.inr ⟨line, rfl⟩)⟩
    · exact .inl ⟨_, .unquoted (by simpa using closed)⟩

end Fails

variable [Output σ]

theorem perform_constant_of_nil (call : Call σ) (name : Token) {m : Machine σ}
    (empty : m.stack = []) :
    m.perform call (.constant name) =
      (.failed (.emptyStack (text "value for constant " ++ name)), m) := by
  rcases m with ⟨stack, words, constants, depth, maxDepth, echo, tracer, reports, output, journal⟩
  cases empty
  rfl

theorem perform_constant_of_ne_nil (call : Call σ) (name : Token) {m : Machine σ}
    (nonempty : m.stack ≠ []) : (m.perform call (.constant name)).1 = .done := by
  simp only [perform, bindConstant]
  cases cells : m.stack with
  | nil => exact absurd cells nonempty
  | cons value rest => rfl

/-- A construct that fails stops the program, and it leaves the machine alone. -/
theorem Fails.execute {m : Machine σ} {opener : Token} {rest : List Token} {failure : Failure}
    (fails : m.Fails opener rest failure) (call : Call σ) :
    m.execute call (opener :: rest) = (.failed failure, m) := by
  rcases fails.program with read | ⟨name, remaining, empty, rfl, -, read⟩
  · rw [Machine.execute, read]
    rfl
  · have failed := perform_constant_of_nil call name empty
    simp only [Machine.execute, Program.ofTokens, read]
    rw [performAll_cons_of_ne_done (by simp [failed]), failed]

section Unwind

variable (active : List Token) (m : Machine σ)

omit [Output σ]

theorem same_unwind : Same m (m.unwind active) := by
  induction active generalizing m with
  | nil => exact ⟨rfl, rfl, rfl⟩
  | cons word active inductionHypothesis =>
    have outer := inductionHypothesis m.leave
    exact ⟨outer.stack, outer.words, outer.constants⟩

theorem unwind_output : (m.unwind active).output = m.output := by
  induction active generalizing m with
  | nil => rfl
  | cons word active inductionHypothesis => exact inductionHypothesis m.leave

end Unwind

/-- Wherever tokens come to a construct, in a line or in the body of a word, behind tokens
that have succeeded: if it fails, the evaluation ends there. It returns the failure,
attributed to the innermost active word, and the machine as it was before the construct, all
calls left; so the stack, the words, the constants and the output are the same. If the
construct does not fail, it is read completely, and its instruction succeeds or its text is
written. -/
theorem construct_fails_or_completes {m : Machine σ} {tokens : List Token} {moment : Moment σ}
    (path : Relation.ReflTransGen Moment.Next (Moment.ofTokens tokens m) moment)
    {opener : Token} (construct : opener ∈ Token.constructs) {before rest : List Token}
    (here : moment.program = Program.ofTokens (before ++ opener :: rest)) {current : Machine σ}
    (done : moment.machine.execute (call moment.levels) before = (.done, current)) :
    (∀ failure, current.Fails opener rest failure →
      m.evalTokens tokens =
        (.failed (failure.attributed moment.active), current.unwind moment.active) ∧
      Same current (m.evalTokens tokens).2 ∧ (m.evalTokens tokens).2.output = current.output) ∧
    ((∃ failure, current.Fails opener rest failure) ∨
      ∃ instruction remaining, Program.Begins .idle (opener :: rest) instruction remaining ∧
        ((current.perform (call moment.levels) instruction).1 = .done ∨
          ∃ line, instruction = .say line)) := by
  refine ⟨?_, ?_⟩
  · intro failure fails
    have result : moment.result = (.failed failure, current) := by
      have behind := execute_append_of_done (congrArg Prod.fst done) (opener :: rest)
      rw [done, fails.execute] at behind
      rw [Moment.result, here]
      exact behind
    have ended : m.evalTokens tokens =
        (.failed (failure.attributed moment.active), current.unwind moment.active) := by
      have outside := Moment.outside_of_path path (by simp [result])
      simp only [Moment.outside, result, Outcome.unwind_failed _ fails.isInWord] at outside
      exact outside
    rw [ended]
    exact ⟨rfl, same_unwind _ _, unwind_output _ _⟩
  · rcases Fails.or_begins current construct rest with
      fails | ⟨instruction, remaining, begins, kind⟩
    · exact .inl fails
    · refine .inr ⟨instruction, remaining, begins, ?_⟩
      rcases kind with ⟨name, body, rfl⟩ | ⟨name, rfl, nonempty⟩ | say
      · exact .inl rfl
      · exact .inl (perform_constant_of_ne_nil _ _ nonempty)
      · exact .inr say

/-- A word that takes the last cell off the stack and then wants to bind a constant. -/
def valueless : Machine Console :=
  { initial Console.silent with
    stack := [7]
    words := Table.empty.defineAll [(text "w", [text "drop", Token.constant, text "k", text "3"])] }

theorem construct_fails_or_completes_valueless :
    Token.constant ∈ Token.constructs ∧
      (valueless.evalTokens [text "w", text "1"]).1 =
        .failed (.inWord (text "w") (.emptyStack (text "value for constant k"))) ∧
      (valueless.evalTokens [text "w", text "1"]).2.stack = [] ∧
      (valueless.evalTokens [text "w", text "1"]).2.constants = Table.empty ∧
      (valueless.evalTokens [text "w", text "1"]).2.output = Console.silent := by
  have construct : Token.constant ∈ Token.constructs := by decide +kernel
  have defined : valueless.words.lookup? (text "w") =
      some ([text "drop"] ++ Token.constant :: [text "k", text "3"]) := by decide +kernel
  have read : Program.ofTokens [text "w", text "1"] =
      ⟨[.refer (text "w"), .refer (text "1")], .done⟩ := by decide +kernel
  have start : Moment.ofTokens [text "w", text "1"] valueless =
      ⟨[], 1023 + 1, ⟨[.refer (text "w"), .refer (text "1")], .done⟩, valueless⟩ := by
    rw [Moment.ofTokens, read]
    rfl
  have path : Relation.ReflTransGen Moment.Next (Moment.ofTokens [text "w", text "1"] valueless)
      ⟨[text "w"], 1023, Program.ofTokens ([text "drop"] ++ Token.constant :: [text "k", text "3"]),
        valueless.enter⟩ := by
    rw [start]
    exact .single (.into defined)
  have dropped : valueless.enter.execute (call 1023) [text "drop"] =
      (.done, { valueless.enter with stack := [] }) := by
    have single : Program.ofTokens [text "drop"] = ⟨[.refer (text "drop")], .done⟩ := by
      decide +kernel
    rw [execute, single]
    rfl
  have found : (Cursor.ofTokens [text "k", text "3"]).name =
      (some (text "k"), ⟨1, [text "3"]⟩) := by decide +kernel
  obtain ⟨ended, same, output⟩ :=
    (construct_fails_or_completes path construct rfl dropped).1 _ (.valueless found rfl)
  refine ⟨construct, ?_, same.stack, same.constants, output⟩
  rw [ended]
  decide +kernel

end Machine

end LineForth
