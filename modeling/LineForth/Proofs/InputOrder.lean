import LineForth.Proofs.Courses
import Mathlib.Data.List.SplitBy

/-!
# The order of inputs

Streams that are handed over one after the other share a source, and a list of lines has a
source of its own. A stream that comes later joins the streams before it even if these have
been read to their end in the meantime. So the sources of an interpreter are, at every moment,
the inputs since the last close, divided between streams and lists, with a front part of their
lines gone; and what runs have read, one after the other, is that front part. All of this is
said of inputs that end with the end of the input and nothing else.
-/

set_option autoImplicit false

namespace LineForth

section Lists

variable {α β : Type}

/-- An item that is related to the last one before it joins the last group. -/
theorem splitBy_concat {related : α → α → Bool} {items : List α} {groups : List (List α)}
    {group : List α} {last item : α} (split : items.splitBy related = groups ++ [group])
    (ends : last ∈ group.getLast?) (joins : related last item = true) :
    (items ++ [item]).splitBy related = groups ++ [group ++ [item]] := by
  obtain ⟨flattened, nonempty, chains, apart⟩ := List.splitBy_eq_iff.mp split
  rw [List.forall_mem_append, List.forall_mem_singleton] at chains
  rw [List.mem_append, not_or, List.mem_singleton] at nonempty
  obtain ⟨earlier, -, border⟩ := List.isChain_append.mp apart
  refine List.splitBy_eq_iff.mpr ⟨?_, ?_, ?_, ?_⟩
  · simp [flattened]
  · simp [nonempty.1]
  · rw [List.forall_mem_append, List.forall_mem_singleton]
    refine ⟨chains.1, List.isChain_append.mpr ⟨chains.2, .singleton item, ?_⟩⟩
    intro final found next first
    cases Option.mem_unique found ends
    cases first
    exact joins
  · refine List.isChain_append.mpr ⟨earlier, .singleton _, ?_⟩
    intro before found next first
    cases first
    obtain ⟨full, full', unrelated⟩ := border before found group rfl
    refine ⟨full, by simp, ?_⟩
    rw [List.head_append_of_ne_nil full']
    exact unrelated

theorem forall₂_replace {R : α → β → Prop} {groups : List α} {front rest : List β} {old new : β}
    (related : List.Forall₂ R groups (front ++ old :: rest))
    (step : ∀ group, R group old → R group new) :
    List.Forall₂ R groups (front ++ new :: rest) := by
  induction front generalizing groups with
  | nil =>
    cases related with
    | cons first others => exact .cons (step _ first) others
  | cons item front inductionHypothesis =>
    cases related with
    | cons first others => exact .cons first (inductionHypothesis others)

end Lists

namespace Feed

theorem queue_readFrom (last place : Location) (reader : Reader) (queue : List Stream) :
    (readFrom last reader place queue).2.2.queue <:+ queue := by
  fun_induction readFrom last reader place queue with
  | case1 => exact List.suffix_rfl
  | case2 => exact List.suffix_rfl
  | case3 reader place after read stream rest result events feed same inductionHypothesis =>
    rw [same] at inductionHypothesis
    exact inductionHypothesis.trans (List.suffix_cons stream rest)
  | case4 => exact List.suffix_rfl

/-- Reading takes streams from the front of the queue only. -/
theorem queue_readLine (feed : Feed) : feed.readLine.2.2.queue <:+ feed.queue := by
  unfold readLine
  split
  next => exact queue_readFrom _ _ _ _
  next => exact List.suffix_rfl
  next stream rest ended queue =>
    rw [queue]
    exact (queue_readFrom _ _ _ _).trans (List.suffix_cons stream rest)

end Feed

namespace Source

section Plain

variable {source after : Source} {line : Bytes} {failure : Failure} {events : List Event}

theorem EndsPlainly.of_readLine_ok (plain : source.EndsPlainly)
    (read : source.readLine = (.ok line, events, after)) :
    after.EndsPlainly ∧ source.lines = ⟨after.location?, line⟩ :: after.lines := by
  have delivered := deliveries_of_readLine_ok read
  have ends : after.EndsPlainly := by
    rw [endsPlainly_iff] at plain ⊢
    intro failure membership
    apply plain failure
    rw [delivered]
    exact List.mem_cons_of_mem _ membership
  rw [plain.deliveries, ends.deliveries, ← List.map_cons] at delivered
  exact ⟨ends, List.map_injective_iff.mpr (fun _ _ => Except.ok.inj) delivered⟩

theorem EndsPlainly.of_readLine_error (plain : source.EndsPlainly)
    (read : source.readLine = (.error failure, events, after)) :
    failure = .endOfInput ∧ after.EndsPlainly ∧ source.lines = [] ∧ after.lines = [] := by
  obtain ⟨same, ended⟩ := deliveries_of_readLine_error read
  have ends : after.EndsPlainly := by
    rw [endsPlainly_iff] at plain ⊢
    rw [same]
    exact plain
  rcases ended with ⟨bare, exhausted⟩ | ⟨rest, failing⟩
  · have none := exhausted.deliveries
    have none' := none
    rw [same, plain.deliveries, List.map_eq_nil_iff] at none
    rw [ends.deliveries, List.map_eq_nil_iff] at none'
    exact ⟨bare, ends, none, none'⟩
  · rw [endsPlainly_iff] at ends
    exact absurd (failing ▸ List.mem_cons_self) (ends failure)

end Plain

section Enqueue

variable (feed : Feed) (stream : Stream)

theorem lines_enqueue :
    lines (.feed (feed.enqueue stream)) = lines (.feed feed) ++ (ofStream stream).lines := by
  obtain ⟨queue, current, last, place⟩ := feed
  cases current <;> simp [lines, stretches, Feed.stretches, Feed.enqueue, ofStream, Feed.ofQueue]

theorem endings_enqueue :
    endings (.feed (feed.enqueue stream)) = endings (.feed feed) ++ (ofStream stream).endings := by
  obtain ⟨queue, current, last, place⟩ := feed
  cases current <;> simp [endings, Feed.unclosed, Feed.enqueue, ofStream, Feed.ofQueue]

end Enqueue

/-- The source stands for these inputs. The streams that a feed has not begun are its queue,
and a list has handed out some of its lines. -/
inductive StandsFor : List Source → Source → Prop
  | feed (begun : List Stream) (feed : Feed) :
      StandsFor ((begun ++ feed.queue).map ofStream) (.feed feed)
  | list (given : LineList) {count : Nat} (within : count ≤ given.lines.length) :
      StandsFor [.list given]
        (.list { given with lines := given.lines.drop count, taken := given.taken + count })

/-- The source goes on with these inputs behind the lines that were read. -/
structure Serves (inputs : List Source) (source : Source) : Prop where
  standsFor : StandsFor inputs source
  lines : ∃ read, inputs.flatMap Source.lines = read ++ source.lines

namespace StandsFor

variable {inputs : List Source} {source after : Source}

theorem ofStream (stream : Stream) : StandsFor [Source.ofStream stream] (Source.ofStream stream) :=
  feed [] (Feed.ofQueue [stream])

theorem ofList (given : LineList) : StandsFor [.list given] (.list given) :=
  list given (Nat.zero_le _)

theorem readLine {result : Except Failure Bytes} {events : List Event}
    (stands : StandsFor inputs source) (read : source.readLine = (result, events, after)) :
    StandsFor inputs after := by
  cases stands with
  | feed begun feed =>
    obtain ⟨opened, queue⟩ := feed.queue_readLine
    have streams : begun ++ feed.queue = begun ++ opened ++ feed.readLine.2.2.queue := by
      rw [List.append_assoc, queue]
    rw [streams]
    cases read
    exact .feed (begun ++ opened) feed.readLine.2.2
  | @list given count within =>
    cases left : given.lines.drop count with
    | nil =>
      rw [left] at read
      cases read
      rw [← left]
      exact list given within
    | cons line rest =>
      rw [left] at read
      cases read
      have further : count + 1 ≤ given.lines.length := by
        have shorter := congrArg List.length left
        rw [List.length_drop, List.length_cons] at shorter
        omega
      have behind : rest = given.lines.drop (count + 1) := by
        rw [← List.tail_drop, left, List.tail_cons]
      rw [behind]
      exact list given further

theorem enqueue {streams : Feed} (stands : StandsFor inputs (.feed streams)) (stream : Stream) :
    StandsFor (inputs ++ [Source.ofStream stream]) (.feed (streams.enqueue stream)) := by
  cases stands with
  | feed begun =>
    have added := feed begun (streams.enqueue stream)
    rw [Feed.enqueue, ← List.append_assoc, List.map_append] at added
    exact added

/-- Inputs are streams where their source is a feed. -/
theorem isFeed (stands : StandsFor inputs source) :
    ∀ input ∈ inputs, input.isFeed = source.isFeed := by
  cases stands with
  | feed begun feed =>
    intro input membership
    obtain ⟨stream, -, rfl⟩ := List.mem_map.mp membership
    rfl
  | list given within =>
    intro input membership
    rw [List.mem_singleton.mp membership]
    rfl

end StandsFor

namespace Serves

variable {inputs : List Source} {source after : Source}

theorem alone (stands : StandsFor [source] source) : Serves [source] source :=
  ⟨stands, [], by rw [List.flatMap_singleton, List.nil_append]⟩

theorem readLine {result : Except Failure Bytes} {events : List Event}
    (serves : Serves inputs source) (plain : source.EndsPlainly)
    (read : source.readLine = (result, events, after)) : Serves inputs after := by
  obtain ⟨stands, taken, lines⟩ := serves
  refine ⟨stands.readLine read, ?_⟩
  cases result with
  | ok line =>
    rw [(plain.of_readLine_ok read).2] at lines
    exact ⟨taken ++ [⟨after.location?, line⟩], by rw [lines, List.append_assoc]; rfl⟩
  | error failure =>
    obtain ⟨-, -, before, behind⟩ := plain.of_readLine_error read
    rw [before] at lines
    exact ⟨taken, by rw [lines, behind]⟩

theorem enqueue {streams : Feed} (serves : Serves inputs (.feed streams)) (stream : Stream) :
    Serves (inputs ++ [Source.ofStream stream]) (.feed (streams.enqueue stream)) := by
  obtain ⟨stands, taken, lines⟩ := serves
  refine ⟨stands.enqueue stream, taken, ?_⟩
  rw [List.flatMap_append, lines, lines_enqueue, List.flatMap_singleton, List.append_assoc]

end Serves

/-- The inputs, divided between the sources. Neighbouring streams share one. -/
def shares (inputs : List Source) : List (List Source) :=
  inputs.splitBy fun first second => first.isFeed && second.isFeed

theorem shares_concat_apart {inputs : List Source} {input : Source}
    (apart : ∀ last ∈ inputs.getLast?, (last.isFeed && input.isFeed) = false) :
    shares (inputs ++ [input]) = shares inputs ++ [[input]] := by
  apply List.splitBy_append
  intro last ends next first
  cases first
  exact apart last ends

theorem forall_endsPlainly_iff {sources : List Source} :
    (∀ source ∈ sources, source.EndsPlainly) ↔
      ∀ ending ∈ sources.flatMap endings, ending = .endOfInput := by
  rw [List.forall_mem_flatMap]
  rfl

end Source

open Source (shares Serves)

/-- The sources serve these groups of inputs, and no failure is ahead. -/
structure InOrder (groups : List (List Source)) (sources : List Source) : Prop where
  serves : List.Forall₂ Serves groups sources
  plain : ∀ source ∈ sources, source.EndsPlainly

theorem InOrder.endsPlainly {groups : List (List Source)} {front rest : List Source}
    {source : Source} (inOrder : InOrder groups (front ++ source :: rest)) : source.EndsPlainly :=
  inOrder.plain source (List.mem_append_right front List.mem_cons_self)

theorem InOrder.readLine {groups : List (List Source)} {front rest : List Source}
    {source after : Source} {result : Except Failure Bytes} {events : List Event}
    (inOrder : InOrder groups (front ++ source :: rest))
    (read : source.readLine = (result, events, after)) :
    InOrder groups (front ++ after :: rest) := by
  obtain ⟨serves, plain⟩ := inOrder
  rw [List.forall_mem_append, List.forall_mem_cons] at plain
  obtain ⟨before, here, behind⟩ := plain
  have still : after.EndsPlainly := by
    cases result with
    | ok line => exact (here.of_readLine_ok read).1
    | error failure => exact (here.of_readLine_error read).2.1
  refine ⟨forall₂_replace serves fun inputs served => served.readLine here read, ?_⟩
  rw [List.forall_mem_append, List.forall_mem_cons]
  exact ⟨before, still, behind⟩

namespace Turn

variable {σ : Type}

/-- The lines that are still to come. -/
def lines (turn : Turn σ) : List SourceLine := turn.sources.flatMap Source.lines

/-- The sources of a turn are in order, and no line is left in those that are passed. -/
structure Advances (groups : List (List Source)) (turn : Turn σ) : Prop where
  inOrder : InOrder groups (turn.passed ++ turn.sources)
  passed : turn.passed.flatMap Source.lines = []

theorem lines_of_ok {source after : Source} {line : Bytes} {events : List Event}
    (plain : source.EndsPlainly) (received : source.readLine = (.ok line, events, after))
    (passed rest : List Source) (m : Machine σ) :
    lines ⟨none, passed, source :: rest, m⟩ =
      (line? ⟨none, passed, source :: rest, m⟩).toList ++ (after :: rest).flatMap Source.lines := by
  rw [line?_of_ok received, lines, List.flatMap_cons, List.flatMap_cons,
    (plain.of_readLine_ok received).2]
  rfl

variable [Output σ] {groups : List (List Source)} {turn later : Turn σ}
  {result : Outcome × Interpreter σ}

theorem Next.advances (next : Next turn later) (advances : turn.Advances groups) :
    later.Advances groups ∧ turn.lines = turn.line?.toList ++ later.lines := by
  obtain ⟨inOrder, passed⟩ := advances
  cases next with
  | @line source after line events passed rest m evaluated received stays done =>
    exact ⟨⟨inOrder.readLine received, passed⟩, lines_of_ok inOrder.endsPlainly received _ _ _⟩
  | @source source after failure events passed rest m received ended =>
    obtain ⟨-, -, before, behind⟩ := inOrder.endsPlainly.of_readLine_error received
    refine ⟨⟨?_, ?_⟩, ?_⟩
    · dsimp only
      rw [List.append_assoc]
      exact inOrder.readLine received
    · dsimp only at passed ⊢
      rw [List.flatMap_append, passed, List.flatMap_singleton, behind, List.append_nil]
    · rw [line?_of_error received, lines, lines, List.flatMap_cons, before]
      rfl

/-- The lines of a run that succeeds were all read, unless one of them ends it. -/
theorem Ends.advances (ends : Ends turn result) (advances : turn.Advances groups) :
    InOrder groups result.2.sources ∧ turn.lines = turn.line?.toList ++ result.2.lines ∧
      (result.1 = .done → (∀ entry ∈ turn.line?, entry.exits = false) → result.2.lines = []) := by
  obtain ⟨inOrder, passed⟩ := advances
  have front (rest : List Source) : (turn.passed ++ rest).flatMap Source.lines =
      rest.flatMap Source.lines := by
    rw [List.flatMap_append, passed, List.nil_append]
  cases ends with
  | all interrupt gone m =>
    have unread : line? ⟨interrupt, gone, [], m⟩ = none := by cases interrupt <;> rfl
    rw [List.append_nil] at inOrder
    refine ⟨inOrder, ?_, fun _ _ => passed⟩
    rw [unread]
    exact passed.symm
  | interrupted failure gone source rest m =>
    refine ⟨inOrder, (front _).symm, ?_⟩
    intro done
    cases done
  | @failure source after failure events gone rest m received other =>
    rw [(inOrder.endsPlainly.of_readLine_error received).1] at other
    cases other
  | @exit source after line events gone rest m received exits =>
    refine ⟨inOrder.readLine received, ?_, ?_⟩
    · rw [Interpreter.lines, front]
      exact lines_of_ok inOrder.endsPlainly received _ _ _
    · intro _ stay
      have stays := stay _ (line?_of_ok received gone rest m)
      simp [SourceLine.exits, exits] at stays
  | @line source after line events outcome gone rest m evaluated received stays stopped other =>
    refine ⟨inOrder.readLine received, ?_, fun done => absurd done other⟩
    rw [Interpreter.lines, front]
    exact lines_of_ok inOrder.endsPlainly received _ _ _

theorem RunsThrough.advances {context : Context} {number : Nat}
    {turns : List (Turn σ)} (runs : RunsThrough context number turn turns result)
    (advances : turn.Advances groups) :
    InOrder groups result.2.sources ∧
      turn.lines = turns.filterMap line? ++ result.2.lines ∧
      (result.1 = .done → (∀ entry ∈ turns.filterMap line?, entry.exits = false) →
        result.2.lines = []) := by
  simp only [List.filterMap_eq_flatMap_toList]
  induction runs with
  | last ends =>
    rw [List.flatMap_singleton]
    obtain ⟨inOrder, read, complete⟩ := ends.advances ⟨advances.inOrder, advances.passed⟩
    refine ⟨inOrder, read, ?_⟩
    intro done stay
    apply complete done
    intro entry membership
    exact stay entry (Option.mem_toList.mpr membership)
  | next next further inductionHypothesis =>
    rw [List.flatMap_cons]
    obtain ⟨onward, first⟩ := next.advances ⟨advances.inOrder, advances.passed⟩
    obtain ⟨inOrder, read, complete⟩ := inductionHypothesis onward
    refine ⟨inOrder, ?_, ?_⟩
    · rw [List.append_assoc, ← read]
      exact first
    · intro done stay
      exact complete done (List.forall_mem_append.mp stay).2

end Turn

namespace InOrder

variable {inputs sources : List Source}

theorem addStream (serves : List.Forall₂ Serves (shares inputs) sources) (stream : Stream)
    (m : Machine Console) :
    List.Forall₂ Serves (shares (inputs ++ [.ofStream stream]))
      (Interpreter.addStream ⟨m, sources⟩ stream).sources := by
  have alone : Serves [.ofStream stream] (.ofStream stream) := .alone (.ofStream stream)
  rcases sources.eq_nil_or_concat' with rfl | ⟨front, source, rfl⟩
  · rw [List.forall₂_nil_right_iff, shares, List.splitBy_eq_nil] at serves
    rw [serves]
    exact .cons alone .nil
  · obtain ⟨others, group, split, rest, served⟩ := exists_of_forall₂_concat serves
    have full : group ≠ [] := by
      apply List.ne_nil_of_mem_splitBy
      rw [shares] at split
      rw [split]
      exact List.mem_append_right _ (List.mem_singleton_self group)
    -- The last group ends with the last input, and that is of the kind of the last source.
    have kind : (group.getLast full).isFeed = source.isFeed :=
      served.standsFor.isFeed _ (List.getLast_mem full)
    cases source with
    | feed streams =>
      rw [shares, splitBy_concat split (List.getLast?_eq_some_getLast full) (by rw [kind]; rfl)]
      simp only [Interpreter.addStream, List.getLast?_concat, List.dropLast_concat]
      exact List.rel_append rest (.cons (served.enqueue stream) .nil)
    | list given =>
      have ends : inputs.getLast? = some (group.getLast full) := by
        rw [(List.splitBy_eq_iff.mp split).1, List.flatten_append, List.flatten_singleton,
          List.getLast?_append_of_ne_nil _ full, List.getLast?_eq_some_getLast full]
      rw [Source.shares_concat_apart]
      · simp only [Interpreter.addStream, List.getLast?_concat]
        exact List.rel_append serves (.cons alone .nil)
      · intro last found
        rw [ends] at found
        cases found
        rw [kind]
        rfl

theorem addList (serves : List.Forall₂ Serves (shares inputs) sources) (given : LineList) :
    List.Forall₂ Serves (shares (inputs ++ [.list given])) (sources ++ [.list given]) := by
  rw [Source.shares_concat_apart]
  · exact List.rel_append serves (.cons (.alone (.ofList given)) .nil)
  · intro last _
    exact Bool.and_false _

/-- A setting adds its input behind all others. -/
theorem apply {interpreter : Interpreter.OnConsole}
    (inOrder : InOrder (shares inputs) interpreter.sources) (setting : Setting)
    (plain : ∀ source ∈ setting.source?.toList, source.EndsPlainly) :
    InOrder (shares (inputs ++ setting.source?.toList)) (interpreter.apply setting).2.sources where
  serves := by
    cases setting with
    | input stream => exact addStream inOrder.serves stream interpreter.machine
    | lines given => exact addList inOrder.serves given
    | output target =>
      simp only [Interpreter.apply, Interpreter.sources_replaceOutput, Setting.source?,
        Option.toList_none, List.append_nil]
      exact inOrder.serves
    | tee | maxDepth | echo | trace | lineErrors =>
      simp only [Setting.source?, Option.toList_none, List.append_nil]
      exact inOrder.serves
  plain := by
    have earlier := Source.forall_endsPlainly_iff.mp inOrder.plain
    have handed := Source.forall_endsPlainly_iff.mp plain
    rw [Source.forall_endsPlainly_iff, Interpreter.flatMap_apply Source.endings_enqueue,
      List.forall_mem_append]
    exact ⟨earlier, handed⟩

end InOrder

namespace Course

open Interpreter (OnConsole)

variable {annals : Annals} {state : OnConsole}

/-- At every moment of a course the inputs are in order, and their lines are those that were
read, followed by those that are still to come. -/
theorem inOrder (course : Course annals state)
    (plain : ∀ source ∈ annals.supplied, source.EndsPlainly) :
    InOrder (shares annals.supplied) state.sources ∧
      annals.supplied.flatMap Source.lines = annals.read ++ state.lines := by
  induction course with
  | start => exact ⟨⟨.nil, by simp [Interpreter.initial]⟩, rfl⟩
  | @set annals state setting _ inductionHypothesis =>
    obtain ⟨earlier, handed⟩ := List.forall_mem_append.mp plain
    obtain ⟨inOrder, lines⟩ := inductionHypothesis earlier
    refine ⟨inOrder.apply setting handed, ?_⟩
    rw [Annals.supply, List.flatMap_append, lines, Interpreter.lines, Interpreter.lines,
      Interpreter.flatMap_apply Source.lines_enqueue, List.append_assoc]
  | eval _ _ inductionHypothesis | push _ _ inductionHypothesis => exact inductionHypothesis plain
  | word _ _ _ inductionHypothesis | constant _ _ _ inductionHypothesis =>
    exact inductionHypothesis plain
  | @run annals state context turns result runs _ inductionHypothesis =>
    obtain ⟨inOrder, lines⟩ := inductionHypothesis plain
    obtain ⟨after, read, -⟩ := runs.advances ⟨inOrder, rfl⟩
    refine ⟨after, ?_⟩
    rw [Annals.follow, lines, List.append_assoc, ← read]
    rfl
  | @close annals state returns _ _ =>
    rcases Session.close_cases state with ⟨panic, stopped⟩ | ⟨-, emptied, -⟩
    · exact absurd (congrArg Prod.fst stopped) (returns panic)
    · rw [Interpreter.lines, emptied]
      exact ⟨⟨.nil, by simp⟩, rfl⟩
  | @closeStopped annals state panic panicked _ inductionHypothesis =>
    rcases Session.close_cases state with ⟨_, stopped⟩ | ⟨returns, -⟩
    · rw [stopped]
      exact inductionHypothesis plain
    · exact absurd panicked (returns panic)

/-- A tree of settings comes to its settings one by one, so inputs may be grouped in any way.
Over any course, streams between which there is neither a list of lines nor a close share one
source, which goes on behind what was read from it; and the lines of all inputs since the last
close, in the order of the settings, are the lines that runs have read, followed by those that
are still to come. The next run takes its lines from their front, under any context, and it
leaves none if it succeeds without a line that ends it. -/
theorem consumes_in_order :
    (∀ settings (interpreter : OnConsole),
      interpreter.configure settings = interpreter.applyAll settings.flatten) ∧
    ∀ {annals : Annals} {state : OnConsole}, Course annals state →
      (∀ source ∈ annals.supplied, source.EndsPlainly) →
      List.Forall₂ Serves (shares annals.supplied) state.sources ∧
      annals.supplied.flatMap Source.lines = annals.read ++ state.lines ∧
      ∀ context, (∃ turns result, state.RunsThrough context turns result) ∧
        ∀ turns result, state.RunsThrough context turns result →
          result = state.run context ∧
          state.lines = turns.filterMap Turn.line? ++ result.2.lines ∧
          (result.1 = .done → (∀ entry ∈ turns.filterMap Turn.line?, entry.exits = false) →
            result.2.lines = []) := by
  refine ⟨Interpreter.configure_eq_applyAll, ?_⟩
  intro annals state course plain
  obtain ⟨inOrder, lines⟩ := course.inOrder plain
  refine ⟨inOrder.serves, lines, ?_⟩
  intro context
  refine ⟨Turn.exists_runsThrough context 0 (Turn.start state), ?_⟩
  intro turns result runs
  obtain ⟨-, read, complete⟩ := Turn.RunsThrough.advances runs ⟨inOrder, rfl⟩
  exact ⟨runs.runsUnder.eq_run, read, complete⟩

/-- A stream of one line. -/
def oneLine (name line : Bytes) : Setting :=
  .input ⟨name, line ++ [Bytes.newline], 0, .failure .endOfInput, .never⟩

/-- Two streams, one of them in a group of its own beside a setting that is absent. -/
def earlyInputs : SettingTree :=
  .group [.one (oneLine (text "a") (text "1")), .nothing,
    .group [.one (oneLine (text "b") (text "2"))]]

/-- A stream that joins the earlier ones when these have ended, a list of lines, and a stream
behind it. -/
def lateInputs : SettingTree :=
  .group [.one (oneLine (text "c") (text "3")),
    .one (.lines ⟨text "d", [text "4"], 0, .endOfInput, false, 0, none, 0⟩),
    .one (oneLine (text "e") (text "5"))]

def afterEarlyInputs : OnConsole := ((Interpreter.initial.configure earlyInputs).2.run .silent).2

def afterLateInputs : OnConsole := ((afterEarlyInputs.configure lateInputs).2.run .silent).2

theorem consumes_in_order_lateInputs :
    afterEarlyInputs.lines = [] ∧ afterLateInputs.sources.length = 3 ∧
    ∃ annals, Course annals afterLateInputs ∧
      List.Forall₂ Serves (shares annals.supplied) afterLateInputs.sources ∧
      annals.read.map SourceLine.line = [text "1", text "2", text "3", text "4", text "5"] := by
  have plain : ∀ source ∈ earlyInputs.flatten.filterMap Setting.source? ++
      lateInputs.flatten.filterMap Setting.source?, source.EndsPlainly :=
    Source.forall_endsPlainly_iff.mpr (by decide +kernel)
  have first : Course _ (Interpreter.initial.configure earlyInputs).2 :=
    start.configure (by decide +kernel)
  obtain ⟨-, -, running⟩ := consumes_in_order.2 first (List.forall_mem_append.mp plain).1
  obtain ⟨⟨turns, result, runs⟩, ran⟩ := running .silent
  cases (ran turns result runs).1
  have second : Course _ (afterEarlyInputs.configure lateInputs).2 :=
    (first.run runs).configure (by decide +kernel)
  obtain ⟨-, -, running'⟩ := consumes_in_order.2 second plain
  obtain ⟨⟨turns', result', runs'⟩, ran'⟩ := running' .silent
  cases (ran' turns' result' runs').1
  have last : Course _ afterLateInputs := second.run runs'
  obtain ⟨serves, lines, -⟩ := consumes_in_order.2 last plain
  refine ⟨by decide +kernel, by decide +kernel, _, last, serves, ?_⟩
  -- No line is left, so the lines that were read are those of all inputs.
  have gone : afterLateInputs.lines = [] := by decide +kernel
  have all : ((earlyInputs.flatten.filterMap Setting.source? ++
      lateInputs.flatten.filterMap Setting.source?).flatMap Source.lines).map SourceLine.line =
        [text "1", text "2", text "3", text "4", text "5"] := by decide +kernel
  rw [gone, List.append_nil] at lines
  rw [← lines]
  exact all

end Course

end LineForth
