import LineForth.Proofs.ControlFlow
import LineForth.Proofs.TraceLines
import Mathlib.Tactic.SplitIfs

/-!
# What a trace tells

An evaluation is a list of attempts, one for each token that is offered and not blank. An
attempt holds the attempts of the call that it makes, if it makes one, and it says with what
it succeeded, if it did. The trace is this account, written down: behind what an attempt
notes inside comes one line about its success, which shows the stack as it is then. The
account is made along with the evaluation and has the same result, and its tokens are those
of the transcript.
-/

set_option autoImplicit false

namespace LineForth

/-- A rule that has succeeded, and the stack that it left. -/
structure Success where
  rule : Bytes
  stack : Stack

/-- The message about the success with a token. -/
def Success.message (success : Success) (token : Token) : Bytes :=
  success.rule ++ text " " ++ token.quote ++ text " -- " ++ success.stack.render

/-- The evaluation of a token: what it says about a definition, the attempts of the call that
it makes, and its success. -/
inductive Attempt where
  | mk (token : Token) (announcement : Option Bytes) (inside : List Attempt)
      (success : Option Success)

namespace Attempt

/-- A token whose construct does not come to an end. -/
def unfinished (token : Token) : Attempt := mk token none [] none

mutual

/-- What the attempt notes while these calls are active. -/
def notes (active : List Token) : Attempt → List Note
  | mk token announcement inside success =>
    Machine.announcements active announcement ++ notesAll (token :: active) inside ++
      (success.map fun success => ⟨active, .success, success.message token⟩).toList

def notesAll (active : List Token) : List Attempt → List Note
  | [] => []
  | attempt :: rest => notes active attempt ++ notesAll active rest

end

mutual

/-- The tokens of the attempt and of those inside it, in the order in which they are
offered. -/
def offers (depth : Nat) : Attempt → List Offer
  | mk token _ inside _ => ⟨token, depth⟩ :: offersAll (depth + 1) inside

def offersAll (depth : Nat) : List Attempt → List Offer
  | [] => []
  | attempt :: rest => offers depth attempt ++ offersAll depth rest

end

end Attempt

namespace Offer

def nonblank (offers : List Offer) : List Offer := offers.filter fun offer => !offer.token.isEmpty

theorem nonblank_append (first second : List Offer) :
    nonblank (first ++ second) = nonblank first ++ nonblank second :=
  List.filter_append first second

end Offer

namespace Pending

/-- The token that has opened the instruction which is being read. -/
def opener? : Pending → Option Token
  | idle => none
  | definition | body _ _ => some Token.colon
  | constantName => some Token.constant
  | string _ => some Token.quotation

/-- The token that opens the instruction to which a token belongs. -/
def owner? (state : Pending) (token : Token) : Option Token :=
  match state.opener? with
  | some opener => some opener
  | none => if token.isEmpty then none else some token

/-- What the reading of a token comes to belongs to the owner of the token. -/
theorem owner?_eq (state : Pending) (token : Token) :
    state.owner? token =
      match state.feed token with
      | .pending next => next.opener?
      | .complete instruction => some instruction.opener
      | .invalid _ => state.opener? := by
  cases state with
  | idle =>
    simp only [owner?, opener?, feed, start]
    split_ifs with blank colon dot words constant quotation
    · rfl
    · rw [colon]
    · rw [dot]; rfl
    · rw [words]; rfl
    · rw [constant]
    · rw [quotation]
    · rfl
  | definition =>
    simp only [owner?, opener?, feed]
    split_ifs
    all_goals rfl
  | body name reversed =>
    simp only [owner?, opener?, feed]
    split_ifs
    all_goals rfl
  | constantName =>
    simp only [owner?, opener?, feed]
    split_ifs
    all_goals rfl
  | string reversed =>
    simp only [owner?, opener?, feed]
    split_ifs
    all_goals rfl

end Pending

/-- The result of an evaluation, with its attempts. -/
structure Account (σ : Type) where
  attempts : List Attempt
  outcome : Outcome
  machine : Machine σ

namespace Account

variable {σ : Type}

def result (account : Account σ) : Outcome × Machine σ := (account.outcome, account.machine)

/-- The account with an attempt in front. -/
def behind (attempt : Attempt) (account : Account σ) : Account σ :=
  { account with attempts := attempt :: account.attempts }

end Account

namespace Machine

variable {σ : Type} [Output σ]

section Recount

/-- The attempts of the call, if the instruction is one. -/
def attemptsInside (calling : Token → List Token → Machine σ → Account σ) (m : Machine σ) :
    Instruction → List Attempt
  | .refer word =>
    match m.words.lookup? word with
    | some body => (calling word body m).attempts
    | none => []
  | _ => []

/-- Performs an instruction and goes on after success, with the token noted. -/
def recountStep (calling : Token → List Token → Machine σ → Account σ)
    (instruction : Instruction) (m : Machine σ) (next : Machine σ → Account σ) : Account σ :=
  let attempt := Attempt.mk instruction.opener (m.announcement? instruction)
    (m.attemptsInside calling instruction)
  match m.perform (fun word body before => (calling word body before).result) instruction with
  | (.done, after) =>
    (next (after.traceRule (m.ruleName instruction) instruction.opener)).behind
      (attempt (some ⟨m.ruleName instruction, after.stack⟩))
  | (outcome, after) => ⟨[attempt none], outcome, after⟩

/-- Evaluates tokens one by one and keeps account of it. -/
def recountFrom (calling : Token → List Token → Machine σ → Account σ) :
    Pending → List Token → Machine σ → Account σ
  | state, [], m => ⟨(state.opener?.map Attempt.unfinished).toList, state.ending, m⟩
  | state, token :: rest, m =>
    match state.feed token with
    | .pending next => recountFrom calling next rest m
    | .complete instruction =>
      m.recountStep calling instruction fun after => recountFrom calling .idle rest after
    | .invalid failure =>
      ⟨(state.opener?.map Attempt.unfinished).toList, .failed failure, m⟩

def recountCall : (levels : Nat) → Token → List Token → Machine σ → Account σ
  | 0, name, _, m => ⟨[], .failed (.recursionLimit name m.depth), m⟩
  | levels + 1, name, body, m =>
    let inside := recountFrom (recountCall levels) .idle body m.enter
    ⟨inside.attempts, inside.outcome.blame name, inside.machine.leave⟩

/-- The evaluation of tokens under the limit of the machine, with its attempts. -/
def recount (tokens : List Token) (m : Machine σ) : Account σ :=
  recountFrom (recountCall (m.maxDepth - m.depth)) .idle tokens m

end Recount

/-- The account of a step from this machine has the result and the tokens of the transcript,
and it is what the step notes. Its attempts are made while the calls `inner` are active. -/
structure Tells (active inner : List Token) (opened : List Offer) (m : Machine σ)
    (account : Account σ) (transcript : Transcript σ) : Prop where
  result : account.result = transcript.result
  depth : account.machine.depth = m.depth
  offers : Attempt.offersAll inner.length account.attempts =
    opened ++ Offer.nonblank transcript.offers
  logs : Aligned active m →
    Logs active (Attempt.notesAll inner account.attempts) m account.machine

section Tells

variable {active : List Token} {m : Machine σ}
  {calling : Token → List Token → Machine σ → Account σ}
  {calling' : Token → List Token → Machine σ → Transcript σ}

/-- What an instruction does, told by what the calls do. -/
theorem tells_perform
    (calls : ∀ word body {m : Machine σ}, m.depth = active.length →
      Tells active (word :: active) [] m (calling word body m) (calling' word body m))
    (depth : m.depth = active.length) (instruction : Instruction) :
    m.perform (fun word body before => (calling word body before).result) instruction =
        (m.transcribeStep calling' instruction).result ∧
      (m.transcribeStep calling' instruction).machine.depth = m.depth ∧
      Attempt.offersAll (active.length + 1) (m.attemptsInside calling instruction) =
        Offer.nonblank (m.transcribeStep calling' instruction).offers ∧
      (Aligned active m →
        Logs active (announcements active (m.announcement? instruction) ++
            Attempt.notesAll (instruction.opener :: active) (m.attemptsInside calling instruction))
          m (m.transcribeStep calling' instruction).machine) := by
  rcases m.calls_or_callsNothing instruction with ⟨word, body, rfl, defined⟩ | callsNothing
  · have called := calls word body depth
    have same : (calling word body m).machine = (calling' word body m).machine :=
      congrArg Prod.snd called.result
    have inside : m.attemptsInside calling (.refer word) = (calling word body m).attempts := by
      simp only [attemptsInside, defined]
    rw [transcribeStep_of_called defined, perform_refer_of_defined defined, inside, ← same]
    exact ⟨called.result, called.depth, called.offers, called.logs⟩
  · have inside : m.attemptsInside calling instruction = [] := by
      cases instruction with
      | refer token => simp only [attemptsInside, callsNothing token rfl]
      | define | print | words | constant | say => rfl
    have offers : (m.transcribeStep calling' instruction).offers = [] :=
      offersOf_of_callsNothing callsNothing calling'
    rw [inside, offers]
    refine ⟨perform_of_callsNothing callsNothing _, perform_depth_of_callsNothing callsNothing,
      rfl, ?_⟩
    intro aligned
    rw [Attempt.notesAll, List.append_nil]
    exact .perform aligned callsNothing _

theorem tells_recountStep
    (calls : ∀ word body {m : Machine σ}, m.depth = active.length →
      Tells active (word :: active) [] m (calling word body m) (calling' word body m))
    {next : Machine σ → Account σ} {next' : Machine σ → Transcript σ}
    (further : ∀ {m : Machine σ}, m.depth = active.length →
      Tells active active [] m (next m) (next' m))
    (depth : m.depth = active.length) (instruction : Instruction) :
    Tells active active [⟨instruction.opener, active.length⟩] m
      (m.recountStep calling instruction next)
      ((m.transcribeStep calling' instruction).andThen fun after =>
        next' (after.traceRule (m.ruleName instruction) instruction.opener)) := by
  obtain ⟨performed, kept, inside, logs⟩ := tells_perform calls depth instruction
  rw [recountStep, performed]
  generalize m.transcribeStep calling' instruction = stepped at kept inside logs ⊢
  rcases stepped with ⟨offers, outcome, after⟩
  by_cases done : outcome = .done
  · subst done
    have traced : (after.traceRule (m.ruleName instruction) instruction.opener).depth = m.depth :=
      (trace_depth _ _ _).trans kept
    obtain ⟨result, restored, later, behind⟩ := further (traced.trans depth)
    refine ⟨result, restored.trans traced, ?_, ?_⟩
    · rw [Transcript.andThen_of_done rfl, Transcript.offering, Offer.nonblank_append, ← inside]
      exact congrArg (_ ++ ·) later
    · intro aligned
      have noted := (logs aligned).trans (.trace (logs aligned).aligned .success
        (Success.message ⟨m.ruleName instruction, after.stack⟩ instruction.opener))
      exact noted.trans (behind noted.aligned)
  · have told : Attempt.offersAll active.length [Attempt.mk instruction.opener
        (m.announcement? instruction) (m.attemptsInside calling instruction) none] =
        [⟨instruction.opener, active.length⟩] ++ Offer.nonblank offers := by
      simp [Attempt.offersAll, Attempt.offers, inside]
    have notes : Attempt.notesAll active [Attempt.mk instruction.opener
        (m.announcement? instruction) (m.attemptsInside calling instruction) none] =
        announcements active (m.announcement? instruction) ++ Attempt.notesAll
          (instruction.opener :: active) (m.attemptsInside calling instruction) := by
      simp [Attempt.notesAll, Attempt.notes]
    rw [← notes] at logs
    rw [Transcript.andThen_of_ne_done done]
    cases outcome with
    | done => exact absurd rfl done
    | failed failure => exact ⟨rfl, kept, told, logs⟩
    | panicked panic => exact ⟨rfl, kept, told, logs⟩

/-- The token of an instruction that is being read has been offered. -/
def openedOffers (active : List Token) (state : Pending) : List Offer :=
  (state.opener?.map fun opener => ⟨opener, active.length⟩).toList

omit [Output σ] in
theorem openedOffers_append (depth : m.depth = active.length) (state : Pending) (token : Token) :
    openedOffers active state ++ Offer.nonblank (if state = .idle then [⟨token, m.depth⟩] else []) =
      ((state.owner? token).map fun owner => ⟨owner, active.length⟩).toList := by
  cases state with
  | idle =>
    by_cases blank : token.isEmpty = true
    · simp [openedOffers, Pending.opener?, Pending.owner?, Offer.nonblank, blank]
    · simp [openedOffers, Pending.opener?, Pending.owner?, Offer.nonblank, blank, depth]
  | definition | body | constantName | string => rfl

theorem offersAll_unfinished (state : Pending) :
    Attempt.offersAll active.length (state.opener?.map Attempt.unfinished).toList =
      openedOffers active state := by
  cases state <;> rfl

theorem notesAll_unfinished (state : Pending) :
    Attempt.notesAll active (state.opener?.map Attempt.unfinished).toList = [] := by
  cases state <;> rfl

theorem tells_recountFrom
    (calls : ∀ word body {m : Machine σ}, m.depth = active.length →
      Tells active (word :: active) [] m (calling word body m) (calling' word body m))
    (state : Pending) (tokens : List Token) (depth : m.depth = active.length) :
    Tells active active (openedOffers active state) m (recountFrom calling state tokens m)
      (transcribe calling' state tokens m) := by
  induction tokens generalizing state m with
  | nil =>
    refine ⟨rfl, rfl, ?_, ?_⟩
    · rw [recountFrom, offersAll_unfinished]
      exact (List.append_nil _).symm
    · rw [recountFrom, notesAll_unfinished]
      exact .refl
  | cons token rest inductionHypothesis =>
    -- What is offered so far is the owner of the token.
    have owned := openedOffers_append depth state token
    rw [state.owner?_eq token] at owned
    simp only [recountFrom, transcribe]
    cases fed : state.feed token with
    | pending next =>
      rw [fed] at owned
      obtain ⟨result, kept, offers, logs⟩ := inductionHypothesis next depth
      refine ⟨result, kept, ?_, logs⟩
      rw [Transcript.offering, Offer.nonblank_append, ← List.append_assoc, owned]
      exact offers
    | invalid failure =>
      rw [fed] at owned
      refine ⟨rfl, rfl, ?_, ?_⟩
      · rw [offersAll_unfinished, Transcript.offering, List.append_nil, owned]
        rfl
      · rw [notesAll_unfinished]
        exact .refl
    | complete instruction =>
      rw [fed] at owned
      obtain ⟨result, kept, offers, logs⟩ := tells_recountStep calls
        (inductionHypothesis .idle) depth instruction
      refine ⟨result, kept, ?_, logs⟩
      rw [Transcript.offering, Offer.nonblank_append, ← List.append_assoc, owned]
      exact offers

theorem tells_recountCall (levels : Nat) (word : Token) (body : List Token)
    (depth : m.depth = active.length) :
    Tells active (word :: active) [] m (recountCall levels word body m)
      (transcribeCall levels word body m) := by
  induction levels generalizing active word body m with
  | zero => exact ⟨rfl, rfl, rfl, .refl⟩
  | succ levels inductionHypothesis =>
    have entered : m.enter.depth = (word :: active).length := congrArg (· + 1) depth
    obtain ⟨result, kept, offers, logs⟩ := tells_recountFrom
      (fun word body {_} depth => inductionHypothesis word body depth) .idle body entered
    have inside : ((recountFrom (recountCall levels) .idle body m.enter).outcome,
        (recountFrom (recountCall levels) .idle body m.enter).machine) =
        ((transcribe (transcribeCall levels) .idle body m.enter).outcome,
          (transcribe (transcribeCall levels) .idle body m.enter).machine) := result
    rw [Prod.mk.injEq] at inside
    refine ⟨?_, congrArg (· - 1) kept, offers, ?_⟩
    · simp only [Account.result, Transcript.result, recountCall, transcribeCall, inside]
    · intro aligned
      exact (logs (aligned.enter word)).call

/-- Where no call is active, the account of an evaluation has its result, it has the tokens
that are offered, and it is what the evaluation notes. -/
theorem tells_recount (tokens : List Token) (idle : m.depth = 0) :
    Tells [] [] [] m (m.recount tokens) (m.transcript tokens) :=
  tells_recountFrom (fun word body {_} depth => tells_recountCall _ word body depth) .idle
    tokens idle

end Tells

end Machine

end LineForth
