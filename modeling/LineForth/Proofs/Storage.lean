import LineForth.Proofs.Input.Lines
import LineForth.Proofs.Tokens
import Mathlib.Data.List.Forall2

/-!
# Texts as bodies of words

A definition stores the tokens of a text without the blank ones. Read again, the stored
tokens give the same instructions as the text, but for the spacing of its strings: a
blank token inside a string stands for a space, and it is lost.
-/

set_option autoImplicit false

namespace LineForth

theorem Token.Cut.tokenize {token : Token} (cut : token.Cut) : tokenize token = [token] := by
  unfold LineForth.tokenize
  rw [Bytes.fields_of_not_mem cut.unspaced, List.map_singleton, cut.trimmed]

/-- Tokens joined by single spaces are cut apart again. -/
theorem tokenize_join {tokens : List Token} (nonempty : tokens ≠ [])
    (cut : ∀ token ∈ tokens, token.Cut) : tokenize (Bytes.join [Bytes.space] tokens) = tokens := by
  induction tokens with
  | nil => exact absurd rfl nonempty
  | cons token rest inductionHypothesis =>
    obtain ⟨first, later⟩ := List.forall_mem_cons.mp cut
    cases rest with
    | nil => exact first.tokenize
    | cons next others =>
      have joined : Bytes.join [Bytes.space] (token :: next :: others) =
          token ++ Bytes.space :: Bytes.join [Bytes.space] (next :: others) := by
        simp [Bytes.join]
      rw [joined, tokenize_append, first.tokenize, inductionHypothesis (by simp) later,
        List.singleton_append]

/-- The tokens that a definition keeps. -/
def stored (tokens : List Token) : List Token := tokens.filter fun token => !token.isEmpty

/-- The line that defines `name` by the text `body`. -/
def definitionLine (name body : Bytes) : Bytes :=
  Bytes.join [Bytes.space] [Token.colon, name, body, Token.semicolon]

theorem tokenize_definitionLine {name : Token} (cut : name.Cut) (body : Bytes) :
    tokenize (definitionLine name body) =
      Token.colon :: name :: (tokenize body ++ [Token.semicolon]) := by
  have colon : tokenize Token.colon = [Token.colon] := by decide +kernel
  have semicolon : tokenize Token.semicolon = [Token.semicolon] := by decide +kernel
  simp only [definitionLine, Bytes.join, List.append_assoc, tokenize_append, colon,
    semicolon, cut.tokenize, List.cons_append, List.nil_append]

/-- The instructions are the same, but for the text of a string. -/
inductive Instruction.Respaced : Instruction → Instruction → Prop
  | same (instruction : Instruction) : Respaced instruction instruction
  | say (line line' : Bytes) : Respaced (.say line) (.say line')

namespace Pending

/-- The states are the same, but for the pieces of a string. -/
inductive Respaced : Pending → Pending → Prop
  | same (state : Pending) : Respaced state state
  | string (reversed reversed' : List Token) : Respaced (.string reversed) (.string reversed')

def inString : Pending → Bool
  | string _ => true
  | _ => false

theorem feed_blank_of_not_inString {state : Pending} (outside : state.inString = false) :
    state.feed [] = .pending state := by
  have unlike : ¬ ([] : Token) = Token.semicolon := by decide +kernel
  cases state with
  | string reversed => cases outside
  | body name reversed => simp only [feed, if_neg unlike, List.isEmpty_nil, if_true]
  | idle | definition | constantName => rfl

/-- A blank token adds at most a piece to a string. -/
theorem Respaced.feed_blank {state state' : Pending} (respaced : state.Respaced state') :
    ∃ next, state.feed [] = .pending next ∧ next.Respaced state' := by
  have unclosed : Bytes.endsWith [] Token.quoteMark = false := by decide +kernel
  cases state with
  | string reversed =>
    refine ⟨.string ([] :: reversed), ?_, ?_⟩
    · simp only [feed, unclosed, Bool.false_eq_true, if_false]
    · cases respaced with
      | same => exact .string _ _
      | string _ reversed' => exact .string _ _
  | idle | definition | body | constantName =>
    exact ⟨_, feed_blank_of_not_inString rfl, respaced⟩

end Pending

namespace Program

/-- Whether every string is free of blank tokens. -/
def compact : Pending → List Token → Bool
  | _, [] => true
  | state, token :: rest =>
    !(state.inString && token.isEmpty) &&
      match state.feed token with
      | .pending next => compact next rest
      | .complete _ => compact .idle rest
      | .invalid _ => true

theorem readFrom_stored_of_compact {state : Pending} {tokens : List Token}
    (spaced : compact state tokens = true) :
    readFrom state (stored tokens) = readFrom state tokens := by
  induction tokens generalizing state with
  | nil => rfl
  | cons token rest inductionHypothesis =>
    obtain ⟨outside, later⟩ := Bool.and_eq_true_iff.mp spaced
    cases token with
    | nil =>
      have fed : state.feed [] = .pending state := by
        apply Pending.feed_blank_of_not_inString
        simpa using outside
      simp only [fed] at later
      simp only [stored, List.filter_cons, List.isEmpty_nil, Bool.not_true, Bool.false_eq_true,
        if_false, readFrom, fed]
      exact inductionHypothesis later
    | cons octet octets =>
      have kept : stored ((octet :: octets) :: rest) = (octet :: octets) :: stored rest := rfl
      simp only [kept, readFrom]
      cases fed : state.feed (octet :: octets) with
      | pending next =>
        rw [fed] at later
        exact inductionHypothesis later
      | complete instruction =>
        rw [fed] at later
        simp only [inductionHypothesis later]
      | invalid failure => rfl

/-- Storing tokens changes what they are read into in the strings only. -/
theorem readFrom_stored {state state' : Pending} (respaced : state.Respaced state')
    (tokens : List Token) :
    List.Forall₂ Instruction.Respaced (readFrom state tokens).instructions
        (readFrom state' (stored tokens)).instructions ∧
      (readFrom state' (stored tokens)).ending = (readFrom state tokens).ending := by
  induction tokens generalizing state state' with
  | nil =>
    cases respaced with
    | same => exact ⟨.nil, rfl⟩
    | string reversed reversed' => exact ⟨.nil, rfl⟩
  | cons token rest inductionHypothesis =>
    cases token with
    | nil =>
      have dropped : stored ([] :: rest) = stored rest := rfl
      obtain ⟨next, fed, respaced⟩ := respaced.feed_blank
      simp only [dropped, readFrom, fed]
      exact inductionHypothesis respaced
    | cons octet octets =>
      have kept : stored ((octet :: octets) :: rest) = (octet :: octets) :: stored rest := rfl
      obtain ⟨instructions, ending⟩ := inductionHypothesis (.same .idle)
      simp only [kept, readFrom]
      cases respaced with
      | string reversed reversed' =>
        by_cases closes : Bytes.endsWith (octet :: octets) Token.quoteMark
        · simp only [Pending.feed, if_pos closes]
          exact ⟨.cons (.say _ _) instructions, ending⟩
        · simp only [Pending.feed, if_neg closes]
          exact inductionHypothesis (.string _ _)
      | same =>
        cases state.feed (octet :: octets) with
        | pending next => exact inductionHypothesis (.same next)
        | complete instruction => exact ⟨.cons (.same instruction) instructions, ending⟩
        | invalid failure => exact ⟨.nil, rfl⟩

theorem readFrom_body_semicolon {tokens : List Token} (unclosed : Token.semicolon ∉ tokens)
    (name : Token) (reversed : List Token) :
    readFrom (.body name reversed) (tokens ++ [Token.semicolon]) =
      ⟨[.define name (reversed.reverse ++ stored tokens)], .done⟩ := by
  induction tokens generalizing reversed with
  | nil => simp [readFrom, Pending.feed, stored, Pending.ending]
  | cons token rest inductionHypothesis =>
    rw [List.mem_cons, not_or] at unclosed
    have different : ¬ token = Token.semicolon := fun same => unclosed.1 same.symm
    simp only [List.cons_append, readFrom, Pending.feed, if_neg different]
    cases token with
    | nil => exact inductionHypothesis unclosed.2 reversed
    | cons octet octets =>
      have further := inductionHypothesis unclosed.2 ((octet :: octets) :: reversed)
      simpa [stored] using further

theorem ofTokens_definition {name : Token} {tokens : List Token} (nonblank : name ≠ [])
    (valid : validWordName name = true) (unclosed : Token.semicolon ∉ tokens) :
    ofTokens (Token.colon :: name :: (tokens ++ [Token.semicolon])) =
      ⟨[.define name (stored tokens)], .done⟩ := by
  have opened : Pending.idle.feed Token.colon = .pending .definition := by decide +kernel
  have named : Pending.definition.feed name = .pending (.body name []) := by
    simp [Pending.feed, nonblank, valid]
  simp only [ofTokens, readFrom, opened, named, readFrom_body_semicolon unclosed,
    List.reverse_nil, List.nil_append]

theorem ofTokens_name {name : Token} (nonblank : name ≠ []) (ordinary : name ∉ Token.special) :
    ofTokens [name] = ⟨[.refer name], .done⟩ :=
  ofTokens_cons_of_ordinary nonblank ordinary []

end Program

end LineForth
