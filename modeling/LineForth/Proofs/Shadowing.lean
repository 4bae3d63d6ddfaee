import LineForth.Proofs.LineByLine
import LineForth.Proofs.ParallelRuns
import LineForth.Proofs.Table

/-!
# Bindings that no token reaches

Some tokens open an instruction of their own, whatever is defined, so a word of such a
name is never called. A constant is hidden in the same way, and also behind a word or an
operator of its name. Whether a hidden binding is there, and what it is bound to, cannot
be told from what an interpreter does: it only shows in the list of the words. Later
lines may bind the hidden name again, or other names, and this stays so.
-/

set_option autoImplicit false

namespace LineForth

namespace Table

variable {α : Type} {hidden : Option Bytes} {name : Bytes}

/-- The entries under all names but a hidden one. -/
def besides (hidden : Option Bytes) (table : Table α) : List (Bytes × α) :=
  table.entries.filter fun entry => hidden ≠ some entry.1

theorem besides_none (table : Table α) : table.besides none = table.entries := by
  simp [besides]

theorem besides_define_self (table : Table α) (name : Bytes) (entry : α) :
    (table.define name entry).besides (some name) = table.besides (some name) := by
  unfold besides
  rw [entries_define]
  induction table.entries with
  | nil => simp [put]
  | cons head rest inductionHypothesis =>
    rcases head with ⟨other, old⟩
    by_cases same : other = name
    · simp [put, same]
    · simp only [put, if_neg same, List.filter_cons]
      rw [inductionHypothesis]

theorem besides_define_of_ne (table : Table α) (visible : hidden ≠ some name) (entry : α) :
    (table.define name entry).besides hidden = put name entry (table.besides hidden) := by
  unfold besides
  rw [entries_define]
  induction table.entries with
  | nil => simp [put, visible]
  | cons head rest inductionHypothesis =>
    rcases head with ⟨other, old⟩
    by_cases same : other = name
    · simp [put, same, visible]
    · by_cases here : hidden = some other
      · simp only [put, if_neg same, List.filter_cons, here]
        simpa [here] using inductionHypothesis
      · simp only [put, if_neg same, List.filter_cons, here, ne_eq, not_false_eq_true,
          decide_true, if_true]
        rw [inductionHypothesis]

/-- Definitions keep tables alike in all names but the hidden one. -/
theorem besides_define_congr {table table' : Table α}
    (same : table'.besides hidden = table.besides hidden) (name : Bytes) (entry : α) :
    (table'.define name entry).besides hidden = (table.define name entry).besides hidden := by
  by_cases here : hidden = some name
  · rw [here] at same ⊢
    rw [besides_define_self, besides_define_self, same]
  · rw [besides_define_of_ne table' here, besides_define_of_ne table here, same]

theorem lookup?_of_ne (table : Table α) (visible : hidden ≠ some name) :
    table.lookup? name = (table.besides hidden).lookup name := by
  rw [lookup?_eq]
  unfold besides
  induction table.entries with
  | nil => rfl
  | cons head rest inductionHypothesis =>
    by_cases same : name = head.1
    · have kept : hidden ≠ some head.1 := same ▸ visible
      simp [lookup_cons_eq, same, kept]
    · rw [lookup_cons_eq, if_neg same, List.filter_cons]
      split
      · rw [lookup_cons_eq, if_neg same, inductionHypothesis]
      · exact inductionHypothesis

theorem map_fst_besides (hidden : Option Bytes) (table : Table α) :
    (table.besides hidden).map Prod.fst = table.names.filter fun name => hidden ≠ some name := by
  rw [besides, names_eq, List.filter_map]
  rfl

end Table

namespace Instruction

/-- The instruction refers to none of the tokens that open another instruction. -/
def Plain : Instruction → Prop
  | refer token => token ∉ Token.special
  | _ => True

end Instruction

namespace Pending

theorem plain_of_start {token : Token} {instruction : Instruction}
    (started : start token = .complete instruction) : instruction.Plain := by
  unfold start at started
  split at started
  · cases started
  · repeat' split at started
    all_goals cases started
    all_goals simp_all [Instruction.Plain, Token.special]

theorem plain_of_feed {state : Pending} {token : Token} {instruction : Instruction}
    (fed : state.feed token = .complete instruction) : instruction.Plain := by
  cases state with
  | idle => exact plain_of_start fed
  | definition | body name reversed | constantName | string reversed =>
    simp only [feed] at fed
    repeat' split at fed
    all_goals cases fed
    all_goals trivial

end Pending

theorem Program.plain_of_mem_readFrom {state : Pending} {tokens : List Token} :
    ∀ instruction ∈ (readFrom state tokens).instructions, instruction.Plain := by
  induction tokens generalizing state with
  | nil => simp [readFrom]
  | cons token rest inductionHypothesis =>
    simp only [readFrom]
    cases reading : state.feed token with
    | pending next => exact inductionHypothesis
    | complete instruction =>
      intro other membership
      rcases List.mem_cons.mp membership with rfl | inRest
      · exact Pending.plain_of_feed reading
      · exact inductionHypothesis other inRest
    | invalid failure => simp

/-- Whatever is defined and called, only plain instructions come up. -/
theorem Moment.permits_plain {σ : Type} [Output σ] (tokens : List Token) (m : Machine σ) :
    (Moment.ofTokens tokens m).Permits fun _ instruction => instruction.Plain := by
  intro later path
  have plain : ∀ instruction ∈ later.program.instructions, instruction.Plain := by
    induction path with
    | refl => exact Program.plain_of_mem_readFrom
    | tail _ next inductionHypothesis =>
      cases next with
      | past done =>
        intro instruction membership
        exact inductionHypothesis instruction (List.mem_cons_of_mem _ membership)
      | into defined => exact Program.plain_of_mem_readFrom
  intro instruction rest next
  apply plain
  rw [next]
  exact List.mem_cons_self

/-- The place of one entry in the tables of a machine. -/
inductive Binding where
  | word (name : Token)
  | constant (name : Token)

namespace Binding

def word? : Binding → Option Token
  | word name => some name
  | constant _ => none

def constant? : Binding → Option Token
  | word _ => none
  | constant name => some name

/-- Tokens of the name stand for something else. -/
def Hidden {σ : Type} (m : Machine σ) : Binding → Prop
  | word name => name ∈ Token.special
  | constant name => name ∈ Token.special ∨ name ∈ Builtin.names ∨ name ∈ m.words.names

variable {σ : Type} {m : Machine σ} {binding : Binding} {token : Token}

theorem Hidden.word?_ne (hidden : binding.Hidden m) (plain : token ∉ Token.special) :
    binding.word? ≠ some token := by
  cases binding with
  | word name =>
    intro same
    cases same
    exact plain hidden
  | constant name => exact fun impossible => nomatch impossible

theorem Hidden.constant?_ne (hidden : binding.Hidden m) (plain : token ∉ Token.special)
    (undefined : m.words.lookup? token = none) (unnamed : Builtin.ofName? token = none) :
    binding.constant? ≠ some token := by
  cases binding with
  | word name => exact fun impossible => nomatch impossible
  | constant name =>
    intro same
    cases same
    rcases hidden with special | named | word
    · exact plain special
    · obtain ⟨operator, membership, rfl⟩ := List.mem_map.mp named
      exact List.find?_eq_none.mp unnamed operator membership (decide_eq_true rfl)
    · rw [Table.mem_names_iff, undefined] at word
      cases word

theorem Hidden.define (hidden : binding.Hidden m) {after : Machine σ} {name : Token}
    {body : List Token} (words : after.words = m.words.define name body) :
    binding.Hidden after := by
  cases binding with
  | word name => exact hidden
  | constant other =>
    apply Or.imp_right (Or.imp_right ?_) hidden
    intro known
    rw [words, Table.names_define]
    split
    · exact known
    · exact List.mem_append_left _ known

end Binding

/-- What the token `words` puts out when these words are defined. -/
def Machine.listing (names : List Token) : Bytes :=
  Bytes.join [Bytes.space] (Builtin.names ++ names) ++ [Bytes.newline]

section Views

variable {σ ν : Type} [Output σ]

/-- The same has been put out, except that a list of the words may have been another one,
with or without one of the names. -/
inductive SameButListings (reliable : Reliable σ ν) (name : Token) : ν → ν → Prop
  | refl (view : ν) : SameButListings reliable name view view
  | write {view view' : ν} (earlier : SameButListings reliable name view view') (octets : Bytes) :
      SameButListings reliable name (reliable.extend octets view) (reliable.extend octets view')
  | list {view view' : ν} (earlier : SameButListings reliable name view view')
      {names names' : List Token}
      (others : names'.filter (· ≠ name) = names.filter (· ≠ name)) :
      SameButListings reliable name (reliable.extend (Machine.listing names) view)
        (reliable.extend (Machine.listing names') view')

/-- A hidden constant does not show in the output at all, and a hidden word only where
the words are listed. -/
def Binding.Shows (reliable : Reliable σ ν) (view view' : ν) : Binding → Prop
  | word name => SameButListings reliable name view view'
  | constant _ => view' = view

theorem Binding.Shows.write {reliable : Reliable σ ν} {view view' : ν} {binding : Binding}
    (shows : binding.Shows reliable view view') (octets : Bytes) :
    binding.Shows reliable (reliable.extend octets view) (reliable.extend octets view') := by
  cases binding with
  | word name => exact SameButListings.write shows octets
  | constant name => exact congrArg (reliable.extend octets) shows

end Views

namespace Machine

variable {σ ν : Type} [Output σ]

/-- Machines that cannot be told apart, but for one hidden binding. -/
structure Indistinct (reliable : Reliable σ ν) (binding : Binding) (m m' : Machine σ) :
    Prop where
  hidden : binding.Hidden m
  stack : m'.stack = m.stack
  words : m'.words.besides binding.word? = m.words.besides binding.word?
  constants : m'.constants.besides binding.constant? = m.constants.besides binding.constant?
  depth : m'.depth = m.depth
  maxDepth : m'.maxDepth = m.maxDepth
  echo : m'.echo = m.echo
  reportsLines : m'.reportsLines = m.reportsLines
  lineErrors : m'.journal.lineErrors = m.journal.lineErrors
  intact : reliable.intact m.output
  intact' : reliable.intact m'.output
  shows : binding.Shows reliable (reliable.view m.output) (reliable.view m'.output)

namespace Indistinct

variable {reliable : Reliable σ ν} {binding : Binding} {m m' : Machine σ}

/-- The same reports about failed lines, and any traces and events, keep machines
indistinct. -/
theorem of_reports (alike : Indistinct reliable binding m m') {after after' : Machine σ}
    {reports : List Bytes} (reported : Reports reports m after)
    (reported' : Reports reports m' after')
    (same : after = { m with tracer := after.tracer, journal := after.journal })
    (same' : after' = { m' with tracer := after'.tracer, journal := after'.journal }) :
    Indistinct reliable binding after after' := by
  have reportsLines : after'.reportsLines = after.reportsLines := by
    rw [reported.listening, reported'.listening, alike.reportsLines]
  have lineErrors : after'.journal.lineErrors = after.journal.lineErrors := by
    rw [reported.lineErrors, reported'.lineErrors, alike.reportsLines, alike.lineErrors]
  rw [same, same'] at *
  exact { alike with reportsLines := reportsLines, lineErrors := lineErrors }

theorem trace (alike : Indistinct reliable binding m m') (mark message mark' message' : Bytes) :
    Indistinct reliable binding (m.trace mark message) (m'.trace mark' message') := by
  apply alike.of_reports (Reports.framing.trace m mark message)
    (Reports.framing.trace m' mark' message')
  · rw [trace_eq]
  · rw [trace_eq]

theorem record (alike : Indistinct reliable binding m m') (events events' : List Event) :
    Indistinct reliable binding (m.record events) (m'.record events') :=
  alike.of_reports (Reports.record m events) (Reports.record m' events') rfl rfl

theorem noteLine (alike : Indistinct reliable binding m m') (location : Option Location)
    (failure : Failure) :
    Indistinct reliable binding (m.noteLine location failure) (m'.noteLine location failure) := by
  apply alike.of_reports (Reports.noteLine m location failure)
    (Reports.noteLine m' location failure)
  all_goals
    unfold Machine.noteLine
    split
    all_goals rfl

theorem lookup_word (alike : Indistinct reliable binding m m') {token : Token}
    (plain : token ∉ Token.special) : m'.words.lookup? token = m.words.lookup? token := by
  have visible := alike.hidden.word?_ne plain
  rw [m'.words.lookup?_of_ne visible, m.words.lookup?_of_ne visible, alike.words]

/-- The order of the meanings keeps the hidden binding out of sight. -/
theorem meaning (alike : Indistinct reliable binding m m') {token : Token}
    (plain : token ∉ Token.special) : m'.meaning token = m.meaning token := by
  unfold Machine.meaning
  rw [alike.lookup_word plain]
  cases undefined : m.words.lookup? token with
  | some body => rfl
  | none =>
    cases unnamed : Builtin.ofName? token with
    | some operator => rfl
    | none =>
      have visible := alike.hidden.constant?_ne plain undefined unnamed
      rw [m'.constants.lookup?_of_ne visible, m.constants.lookup?_of_ne visible, alike.constants]

theorem write (alike : Indistinct reliable binding m m') (passage : Passage)
    {octets octets' : Bytes}
    (shows : binding.Shows reliable (reliable.extend octets (reliable.view m.output))
      (reliable.extend octets' (reliable.view m'.output))) :
    Repeats (Indistinct reliable binding) (m.write passage octets) (m'.write passage octets') := by
  constructor
  · exact (reliable.write_done passage octets' alike.intact').trans
      (reliable.write_done passage octets alike.intact).symm
  · rw [← reliable.view_write passage octets alike.intact,
      ← reliable.view_write passage octets' alike.intact'] at shows
    exact { alike with
      intact := reliable.write_intact passage octets alike.intact
      intact' := reliable.write_intact passage octets' alike.intact'
      shows := shows }

theorem flush (alike : Indistinct reliable binding m m') :
    Repeats (Indistinct reliable binding) m.flush m'.flush := by
  have shows := alike.shows
  rw [← reliable.view_flush alike.intact, ← reliable.view_flush alike.intact'] at shows
  have flushed : Indistinct reliable binding { m with output := (Output.flush m.output).2 }
      { m' with output := (Output.flush m'.output).2 } :=
    { alike with
      intact := reliable.flush_intact alike.intact
      intact' := reliable.flush_intact alike.intact'
      shows := shows }
  constructor
  · exact (reliable.flush_done alike.intact').trans (reliable.flush_done alike.intact).symm
  · exact flushed.record _ _

theorem listWords (alike : Indistinct reliable binding m m') :
    Repeats (Indistinct reliable binding) m.listWords m'.listWords := by
  apply alike.write
  cases binding with
  | word name =>
    have others := congrArg (List.map Prod.fst) alike.words
    rw [Table.map_fst_besides, Table.map_fst_besides] at others
    have unlike : (fun other => decide ((Binding.word name).word? ≠ some other)) =
        fun other => decide (other ≠ name) := by
      funext other
      simp [Binding.word?, eq_comm]
    rw [unlike] at others
    exact SameButListings.list alike.shows others
  | constant name =>
    have entries := alike.words
    simp only [Binding.word?, Table.besides_none] at entries
    have names : m'.words.names = m.words.names := by
      rw [Table.names_eq, Table.names_eq, entries]
    rw [names]
    exact alike.shows.write _

theorem defineWord (alike : Indistinct reliable binding m m') (name : Token)
    (body : List Token) :
    Indistinct reliable binding (m.defineWord name body) (m'.defineWord name body) := by
  obtain ⟨message, first⟩ := m.exists_defineWord_eq name body
  obtain ⟨message', second⟩ := m'.exists_defineWord_eq name body
  rw [first, second]
  apply trace
  exact { alike with
    hidden := alike.hidden.define rfl
    words := Table.besides_define_congr alike.words name body }

theorem bindConstant (alike : Indistinct reliable binding m m') (name : Token) :
    Repeats (Indistinct reliable binding) (m.bindConstant name) (m'.bindConstant name) := by
  unfold Machine.bindConstant
  rw [alike.stack]
  split
  next value rest _ =>
    obtain ⟨message, first⟩ := { m with stack := rest }.exists_defineConstant_eq name value
    obtain ⟨message', second⟩ := { m' with stack := rest }.exists_defineConstant_eq name value
    rw [first, second]
    refine ⟨rfl, ?_⟩
    apply trace
    exact { alike with
      stack := rfl
      constants := Table.besides_define_congr alike.constants name value }
  next failure rest _ => exact ⟨rfl, { alike with stack := rfl }⟩

theorem push (alike : Indistinct reliable binding m m') (value : Cell) :
    Indistinct reliable binding (m.push value) (m'.push value) :=
  { alike with stack := congrArg (value :: ·) alike.stack }

theorem operate (alike : Indistinct reliable binding m m') (operator : Builtin) :
    Repeats (Indistinct reliable binding) (m.operate operator) (m'.operate operator) := by
  unfold Machine.operate
  rw [alike.stack]
  exact ⟨rfl, { alike with stack := rfl }⟩

theorem perform (alike : Indistinct reliable binding m m') (call call' : Call σ)
    {instruction : Instruction} (plain : instruction.Plain)
    (callsNothing : m.CallsNothing instruction) :
    Repeats (Indistinct reliable binding) (m.perform call instruction)
      (m'.perform call' instruction) := by
  cases instruction with
  | define name body => exact ⟨rfl, alike.defineWord name body⟩
  | constant name => exact alike.bindConstant name
  | words => exact alike.listWords
  | say line => exact alike.write _ (alike.shows.write _)
  | print =>
    simp only [Machine.perform, printStack, alike.stack]
    exact alike.write _ (alike.shows.write _)
  | refer token =>
    simp only [Machine.perform, refer, alike.meaning plain]
    cases meaning : m.meaning token with
    | word body =>
      rw [meaning_eq_word_iff, callsNothing token rfl] at meaning
      cases meaning
    | builtin operator => exact alike.operate operator
    | constant value => exact ⟨rfl, alike.push value⟩
    | literal value => exact ⟨rfl, alike.push value⟩
    | unknown => exact ⟨rfl, alike⟩

theorem lockstep (reliable : Reliable σ ν) (binding : Binding) :
    Lockstep (fun _ instruction => instruction.Plain) Eq (fun _ _ => False)
      (Indistinct reliable binding) where
  onward_first impossible _ := impossible
  onward_second impossible _ := impossible
  lookup word alike plain := alike.lookup_word plain
  step instruction alike plain callsNothing := .inr (alike.perform _ _ plain callsNothing)
  traced _ _ alike := alike.trace _ _ _ _
  enter alike := { alike with depth := congrArg (· + 1) alike.depth }
  leave alike := { alike with depth := congrArg (· - 1) alike.depth }
  nested same := Nat.succ.inj same
  refused := by
    rintro m m' levels _ word body alike rfl exhausted
    obtain rfl : levels = 0 := by omega
    exact .inr ⟨by simp only [call, alike.depth], alike⟩

theorem parallel (reliable : Reliable σ ν) (binding : Binding) :
    Parallel (Indistinct reliable binding) where
  trace mark message alike := alike.trace _ _ _ _
  record events alike := alike.record _ _
  noteLine location failure alike := alike.noteLine location failure
  write passage octets alike := alike.write passage (alike.shows.write octets)
  flush alike := alike.flush
  stack alike := alike.stack
  echo alike := alike.echo
  evalLine := by
    intro m m' line alike
    have traced := alike.trace (text ">") (text "eval " ++ line.quote) (text ">")
      (text "eval " ++ line.quote)
    apply InStep.repeats
    apply (lockstep reliable binding).evalTokens (tokenize line) _ traced
    · exact Moment.permits_plain _ _
    · rw [traced.maxDepth, traced.depth]

end Indistinct

end Machine

namespace Interpreter

variable {σ ν : Type}

/-- The second interpreter is the first one with another entry, or one entry more or
less, for a hidden binding. -/
structure DiffersIn (binding : Binding) (first second : Interpreter σ) : Prop where
  hidden : binding.Hidden first.machine
  words : second.machine.words.besides binding.word? = first.machine.words.besides binding.word?
  constants : second.machine.constants.besides binding.constant? =
    first.machine.constants.besides binding.constant?
  rest : second = { first with
    machine := { first.machine with
      words := second.machine.words
      constants := second.machine.constants } }

variable [Output σ]

theorem DiffersIn.sideBySide {binding : Binding} {first second : Interpreter σ}
    (differs : DiffersIn binding first second) (reliable : Reliable σ ν)
    (intact : reliable.intact first.machine.output) :
    SideBySide (Machine.Indistinct reliable binding) first second := by
  obtain ⟨hidden, words, constants, rest⟩ := differs
  generalize second.machine.words = otherWords at words rest
  generalize second.machine.constants = otherConstants at constants rest
  subst rest
  refine ⟨rfl, hidden, rfl, words, constants, rfl, rfl, rfl, rfl, rfl, intact, intact, ?_⟩
  cases binding with
  | word name => exact .refl _
  | constant name => exact rfl

/-- A hidden binding makes no difference. After the same orders, whatever they are, the
next one ends alike on both interpreters, their machines are indistinct again, and in a
run each turn of the first is matched by a turn of the second, at which every line has
the same outcome. By `Recorded.reliable`, this holds for every output that never fails
and all the octets that were written to it. -/
theorem hidden_unobservable (reliable : Reliable σ ν) {binding : Binding}
    {first second : Interpreter σ} (differs : DiffersIn binding first second)
    (intact : reliable.intact first.machine.output) (orders : List Order) :
    (∀ order, ((second.obeyAll orders).obey order).1 = ((first.obeyAll orders).obey order).1) ∧
      SideBySide (Machine.Indistinct reliable binding) (first.obeyAll orders)
        (second.obeyAll orders) ∧
      ∀ {context turns result}, (first.obeyAll orders).RunsThrough context turns result →
        ∃ turns' result', (second.obeyAll orders).RunsThrough context turns' result' ∧
          List.Forall₂ (fun turn turn' =>
            Turn.SideBySide (Machine.Indistinct reliable binding) turn turn' ∧
              ∀ line, (turn'.machine.eval line).1 = (turn.machine.eval line).1) turns turns' := by
  have parallel := Machine.Indistinct.parallel reliable binding
  have together := (differs.sideBySide reliable intact).obeyAll parallel orders
  refine ⟨?_, together, ?_⟩
  · intro order
    exact (together.obey parallel order).1
  · intro context turns result runs
    obtain ⟨turns', result', runs', alongside, -⟩ :=
      Turn.RunsThrough.sideBySide parallel runs together.start
    refine ⟨turns', result', runs', alongside.imp ?_⟩
    intro turn turn' together
    exact ⟨together, fun line => (parallel.eval line together.machine).1⟩

/-- One of the lines binds the name of an operator, and another one uses the operator. -/
def doubling : Interpreter Console :=
  ⟨Machine.initial Machine.twoDevices,
    [.list ⟨text "c", [text "4 constant dup", text "6 dup * ."], 0, .endOfInput, false, 0, none,
      0⟩]⟩

/-- The same, with a constant behind the operator. -/
def behindOperator : Interpreter Console :=
  { doubling with
    machine := { doubling.machine with constants := Table.empty.define (text "dup") 5 } }

/-- The same, with a word behind the token that prints the stack. -/
def behindDot : Interpreter Console :=
  { doubling with
    machine := { doubling.machine with words := Table.empty.define Token.dot [text "drop"] } }

theorem hidden_unobservable_doubling :
    (behindOperator.run .silent).1 = (doubling.run .silent).1 ∧
      Console.reliable.view (behindOperator.run .silent).2.machine.output =
        Console.reliable.view (doubling.run .silent).2.machine.output ∧
      (behindDot.run .silent).1 = (doubling.run .silent).1 ∧
      (behindDot.run .silent).2.machine.stack = (doubling.run .silent).2.machine.stack := by
  have intact : Console.reliable.intact doubling.machine.output := Machine.twoDevices_dependable
  have constant : DiffersIn (.constant (text "dup")) doubling behindOperator :=
    ⟨.inr (.inl (by decide)), rfl, rfl, rfl⟩
  have special : Token.dot ∈ Token.special := by decide
  have word : DiffersIn (.word Token.dot) doubling behindDot := ⟨special, rfl, rfl, rfl⟩
  have constantRun := (hidden_unobservable Console.reliable constant intact [.run .silent]).2.1
  have wordRun := (hidden_unobservable Console.reliable word intact [.run .silent]).2.1
  exact ⟨(hidden_unobservable Console.reliable constant intact []).1 (.run .silent),
    constantRun.machine.shows,
    (hidden_unobservable Console.reliable word intact []).1 (.run .silent),
    wordRun.machine.stack⟩

end Interpreter

end LineForth
