import LineForth.Proofs.Input.Deliveries
import LineForth.Proofs.Reachable

/-!
# What a run does with its input

A run takes the deliveries of its sources from the front. It evaluates one line after
the other until a line ends it, until a line cannot be evaluated or reported, until a
failure is in front, or until nothing is left. A failure is told from the end of the
input by looking for the end of the input among its causes, so all of this is said of
sources whose other failures do not have that cause.
-/

set_option autoImplicit false

namespace LineForth

/-- A line that ends the run. -/
def SourceLine.exits (entry : SourceLine) : Bool := entry.line.trim = Machine.exitCommand

namespace Machine

variable {σ : Type} [Output σ]

/-- Lines that are evaluated one after the other, without one that ends the run. -/
inductive Evaluates : Machine σ → List SourceLine → Machine σ → Prop where
  | nil (m : Machine σ) : Evaluates m [] m
  /-- What the sources do while a line is asked for goes to the journal. -/
  | note {entries : List SourceLine} {m after : Machine σ} (events : List Event) :
      Evaluates (m.record events) entries after → Evaluates m entries after
  | line {entry : SourceLine} {rest : List SourceLine} {m next after : Machine σ} :
      entry.exits = false → m.evalReporting entry.location entry.line = (.done, next) →
      Evaluates next rest after → Evaluates m (entry :: rest) after

/-- What a run reads, and where it stops: `rest` is what the sources still deliver, and
there is no outcome if the sources run out of lines. -/
inductive Reads (m : Machine σ) :
    (read : List SourceLine) → (rest : List Delivery) → Option Outcome → Machine σ → Prop where
  | all {read : List SourceLine} {after : Machine σ} :
      Evaluates m read after → Reads m read [] none after
  | failure {read : List SourceLine} {after : Machine σ} (failure : Failure)
      (rest : List Delivery) :
      Evaluates m read after →
      Reads m read (.error failure :: rest) (some (.failed failure)) after
  | exit {front : List SourceLine} {left : Machine σ} {entry : SourceLine}
      (rest : List Delivery) :
      Evaluates m front left → entry.exits = true →
      Reads m (front ++ [entry]) rest (some left.farewell.1) left.farewell.2
  | line {front : List SourceLine} {left after : Machine σ} {entry : SourceLine}
      {outcome : Outcome} (rest : List Delivery) :
      Evaluates m front left → entry.exits = false →
      left.evalReporting entry.location entry.line = (outcome, after) → outcome ≠ .done →
      Reads m (front ++ [entry]) rest (some outcome) after

/-- A run that finds no line any more flushes the output. -/
def endRun (m : Machine σ) : Option Outcome → Outcome × Machine σ
  | none => m.flush
  | some outcome => (outcome, m)

namespace Evaluates

variable {entries later : List SourceLine} {m left after : Machine σ}

theorem append (first : Evaluates m entries left) (second : Evaluates left later after) :
    Evaluates m (entries ++ later) after := by
  induction first with
  | nil m => exact second
  | note events _ inductionHypothesis => exact .note events (inductionHypothesis second)
  | line stays evaluated _ inductionHypothesis =>
    exact .line stays evaluated (inductionHypothesis second)

theorem exits_eq_false (evaluates : Evaluates m entries after) :
    ∀ entry ∈ entries, entry.exits = false := by
  induction evaluates with
  | nil m => simp
  | note events _ inductionHypothesis => exact inductionHypothesis
  | line stays _ _ inductionHypothesis => simpa using ⟨stays, inductionHypothesis⟩

end Evaluates

namespace Reads

variable {entries read : List SourceLine} {rest : List Delivery} {stopped : Option Outcome}
  {m left after : Machine σ}

theorem prepend (first : Evaluates m entries left) (reads : Reads left read rest stopped after) :
    Reads m (entries ++ read) rest stopped after := by
  cases reads with
  | all evaluates => exact .all (first.append evaluates)
  | failure reported rest evaluates => exact .failure reported rest (first.append evaluates)
  | exit rest evaluates exits =>
    rw [← List.append_assoc]
    exact .exit rest (first.append evaluates) exits
  | line rest evaluates stays result other =>
    rw [← List.append_assoc]
    exact .line rest (first.append evaluates) stays result other

theorem evaluates (reads : Reads m read rest none after) : Evaluates m read after := by
  cases reads with
  | all evaluates => exact evaluates

/-- A run that stopped does not look at what stands behind. -/
theorem widen {outcome : Outcome} (reads : Reads m read rest (some outcome) after)
    (more : List Delivery) : Reads m read (rest ++ more) (some outcome) after := by
  cases reads with
  | failure reported rest evaluates => exact .failure reported (rest ++ more) evaluates
  | exit rest evaluates exits => exact .exit (rest ++ more) evaluates exits
  | line rest evaluates stays result other =>
    exact .line (rest ++ more) evaluates stays result other

end Reads

end Machine

namespace Interpreter

variable {σ : Type}

def deliveries (interpreter : Interpreter σ) : List Delivery :=
  interpreter.sources.flatMap Source.deliveries

/-- All lines that are still to come, also those behind a failure. -/
def lines (interpreter : Interpreter σ) : List SourceLine :=
  interpreter.sources.flatMap Source.lines

section Plain

variable {interpreter : Interpreter σ}

theorem endsPlainly_of_deliveries {lines : List SourceLine}
    (delivered : interpreter.deliveries = lines.map .ok) :
    ∀ source ∈ interpreter.sources, source.EndsPlainly := by
  intro source membership
  rw [Source.endsPlainly_iff]
  intro failure failing
  have member : .error failure ∈ interpreter.deliveries :=
    List.mem_flatMap.mpr ⟨source, membership, failing⟩
  simp [delivered] at member

theorem deliveries_of_endsPlainly (plain : ∀ source ∈ interpreter.sources, source.EndsPlainly) :
    interpreter.deliveries = interpreter.lines.map .ok := by
  unfold deliveries lines
  rw [List.map_flatMap]
  apply List.flatMap_congr
  intro source membership
  exact (plain source membership).deliveries

theorem lines_of_deliveries {entries : List SourceLine}
    (delivered : interpreter.deliveries = entries.map .ok) : interpreter.lines = entries := by
  rw [deliveries_of_endsPlainly (endsPlainly_of_deliveries delivered)] at delivered
  exact List.map_injective_iff.mpr (fun _ _ => Except.ok.inj) delivered

/-- Sources that only deliver lines go on to do so behind the lines that were read. -/
theorem lines_of_front {after : Interpreter σ} {read : List SourceLine}
    (plain : ∀ source ∈ interpreter.sources, source.EndsPlainly)
    (front : interpreter.deliveries = read.map .ok ++ after.deliveries) :
    interpreter.lines = read ++ after.lines ∧
      ∀ source ∈ after.sources, source.EndsPlainly := by
  rw [deliveries_of_endsPlainly plain] at front
  obtain ⟨first, later, lines, same, rest⟩ := List.map_eq_append_iff.mp front
  have taken : first = read := List.map_injective_iff.mpr (fun _ _ => Except.ok.inj) same
  rw [lines, taken, lines_of_deliveries rest.symm]
  exact ⟨rfl, endsPlainly_of_deliveries rest.symm⟩

end Plain

variable [Output σ]

/-- How far a run came: the lines read are those that the sources have delivered. -/
structure Progress (before after : List Source) (read : List SourceLine)
    (stopped : Option Outcome) (m left : Machine σ) : Prop where
  front : before.flatMap Source.deliveries = read.map .ok ++ after.flatMap Source.deliveries
  reads : m.Reads read (after.flatMap Source.deliveries) stopped left
  exhausted : stopped = none → ∀ source ∈ after, source.Exhausted
  steady : ∀ source ∈ after, source.Uninterrupting

namespace Progress

variable {source after : Source} {rest others : List Source} {read later : List SourceLine}
  {stopped : Option Outcome} {m left last : Machine σ}

theorem of_single (front : source.deliveries = read.map .ok ++ after.deliveries)
    (reads : m.Reads read after.deliveries stopped left)
    (exhausted : stopped = none → after.Exhausted) (steady : after.Uninterrupting) :
    Progress [source] [after] read stopped m left where
  front := by simpa using front
  reads := by simpa using reads
  exhausted := by simpa using exhausted
  steady := by simpa using steady

/-- A run that stops at a source leaves the sources behind it alone. -/
theorem stop {outcome : Outcome} (first : Progress [source] [after] read (some outcome) m left)
    (steady : ∀ other ∈ rest, other.Uninterrupting) :
    Progress (source :: rest) (after :: rest) read (some outcome) m left where
  front := by
    have front := first.front
    simp only [List.flatMap_cons, List.flatMap_nil, List.append_nil] at front ⊢
    rw [front, List.append_assoc]
  reads := by
    have reads := first.reads.widen (rest.flatMap Source.deliveries)
    simpa using reads
  exhausted := by simp
  steady := by
    rw [List.forall_mem_cons]
    exact ⟨by simpa using first.steady, steady⟩

/-- A run comes to the next source when the one before is exhausted. -/
theorem cons (first : Progress [source] [after] read none m left)
    (second : Progress rest others later stopped left last) :
    Progress (source :: rest) (after :: others) (read ++ later) stopped m last := by
  have exhausted : after.Exhausted := by simpa using first.exhausted rfl
  have front := first.front
  simp only [List.flatMap_cons, List.flatMap_nil, List.append_nil, exhausted.deliveries] at front
  have nothing : (after :: others).flatMap Source.deliveries =
      others.flatMap Source.deliveries := by
    simp [exhausted.deliveries]
  refine ⟨?_, ?_, ?_, ?_⟩
  · rw [nothing, List.flatMap_cons, front, second.front, List.map_append, List.append_assoc]
  · rw [nothing]
    exact .prepend first.reads.evaluates second.reads
  · intro unstopped
    simpa using ⟨exhausted, second.exhausted unstopped⟩
  · rw [List.forall_mem_cons]
    exact ⟨by simpa using first.steady, second.steady⟩

end Progress

theorem drain_progress {context : Context} {source : Source} {m : Machine σ}
    (clear : context = .silent) (unambiguous : source.Unambiguous)
    (steady : source.Uninterrupting) :
    (drain context source m).context = .silent ∧
      ∃ read, Progress [source] [(drain context source m).source] read
        (drain context source m).stopped m (drain context source m).machine := by
  fun_induction drain context source m with
  | case1 context source m failure signal =>
    subst clear
    cases signal
  | case2 context source m silent failure events after received ended =>
    obtain ⟨same, ⟨-, exhausted⟩ | ⟨rest, first⟩⟩ := Source.deliveries_of_readLine_error received
    · refine ⟨Context.next_of_silent clear, [], ?_⟩
      refine .of_single same.symm ?_ (fun _ => exhausted) (steady.of_readLine received)
      rw [exhausted.deliveries]
      exact .all (.note events (.nil _))
    · -- The run would go on to the next source here, and pass over all that is left.
      have other := Source.unambiguous_iff.mp unambiguous failure (by simp [← same, first])
      rw [ended] at other
      cases other
  | case3 context source m silent failure events after received other =>
    obtain ⟨same, ⟨rfl, -⟩ | ⟨rest, first⟩⟩ := Source.deliveries_of_readLine_error received
    · exact absurd rfl other
    · refine ⟨Context.next_of_silent clear, [], ?_⟩
      refine .of_single same.symm ?_ (by simp) (steady.of_readLine received)
      rw [first]
      exact .failure failure rest (.note events (.nil _))
  | case4 context source m silent line events after received exits outcome left said =>
    refine ⟨Context.next_of_silent clear, [⟨after.location?, line⟩], ?_⟩
    refine .of_single ?_ ?_ (by simp) (steady.of_readLine received)
    · exact Source.deliveries_of_readLine_ok received
    · have ends : SourceLine.exits ⟨after.location?, line⟩ := by
        simpa [SourceLine.exits] using exits
      have reads := Machine.Reads.exit after.deliveries (.note events (.nil (m.record events))) ends
      rw [said] at reads
      exact reads
  | case5 context source m silent line events after received stays evaluated done interrupt
      inductionHypothesis =>
    have still : context.next.interrupted interrupt = .silent := by
      simp [interrupt, steady.interrupts received, Context.next_of_silent clear,
        Context.interrupted_none]
    obtain ⟨further, read, progress⟩ := inductionHypothesis still
      (unambiguous.of_readLine_ok received) (steady.of_readLine received)
    have evaluates : m.Evaluates [⟨after.location?, line⟩] evaluated :=
      .note events (.line (by simpa [SourceLine.exits] using stays) done (.nil _))
    refine ⟨further, ⟨after.location?, line⟩ :: read, ?_, .prepend evaluates progress.reads,
      progress.exhausted, progress.steady⟩
    have front := progress.front
    simp only [List.flatMap_cons, List.flatMap_nil, List.append_nil] at front ⊢
    rw [Source.deliveries_of_readLine_ok received, front]
    rfl
  | case6 context source m silent line events after received stays outcome evaluated stopped
      result =>
    refine ⟨Context.next_of_silent clear, [⟨after.location?, line⟩], ?_⟩
    refine .of_single ?_ ?_ (by simp) (steady.of_readLine received)
    · exact Source.deliveries_of_readLine_ok received
    · exact .line after.deliveries (.note events (.nil (m.record events)))
        (by simpa [SourceLine.exits] using stays) result (fun done => stopped done)

theorem runSources_progress {sources : List Source} {m : Machine σ}
    (unambiguous : ∀ source ∈ sources, source.Unambiguous)
    (steady : ∀ source ∈ sources, source.Uninterrupting) :
    let ran := runSources .silent sources m
    ∃ read stopped left, Progress sources ran.2.1 read stopped m left ∧
      (ran.1, ran.2.2) = left.endRun stopped := by
  induction sources generalizing m with
  | nil =>
    exact ⟨[], none, m, ⟨rfl, .all (.nil m), by simp [runSources], by simp [runSources]⟩, rfl⟩
  | cons source rest inductionHypothesis =>
    rw [List.forall_mem_cons] at unambiguous steady
    obtain ⟨still, read, progress⟩ := drain_progress (m := m) rfl unambiguous.1 steady.1
    rcases drained : drain .silent source m with ⟨stopped, further, after, left⟩
    rw [drained] at still progress
    cases still
    cases stopped with
    | some outcome =>
      simp only [runSources, drained]
      exact ⟨read, some outcome, left, progress.stop steady.2, rfl⟩
    | none =>
      obtain ⟨later, stopped, last, others, result⟩ :=
        inductionHypothesis (m := left) unambiguous.2 steady.2
      simp only [runSources, drained]
      exact ⟨read ++ later, stopped, last, progress.cons others, result⟩

theorem run_progress {interpreter after : Interpreter σ} {outcome : Outcome}
    (unambiguous : ∀ source ∈ interpreter.sources, source.Unambiguous)
    (steady : ∀ source ∈ interpreter.sources, source.Uninterrupting)
    (ran : interpreter.run .silent = (outcome, after)) :
    ∃ read stopped left,
      Progress interpreter.sources after.sources read stopped interpreter.machine left ∧
        (outcome, after.machine) = left.endRun stopped := by
  have progress := runSources_progress (m := interpreter.machine) unambiguous steady
  cases ran
  exact progress

/-- The lines in front of a failure are read before it is. -/
theorem exists_unread {read front : List SourceLine} {rest behind : List Delivery}
    {failure : Failure}
    (same : front.map .ok ++ .error failure :: behind = read.map .ok ++ rest) :
    ∃ unread, front = read ++ unread ∧ rest = unread.map .ok ++ .error failure :: behind := by
  induction read generalizing front with
  | nil => exact ⟨front, rfl, same.symm⟩
  | cons entry others inductionHypothesis =>
    cases front with
    | nil => cases same
    | cons first more =>
      simp only [List.map_cons, List.cons_append, List.cons.injEq, Except.ok.injEq] at same
      obtain ⟨rfl, same⟩ := same
      obtain ⟨unread, rfl, behind⟩ := inductionHypothesis same
      exact ⟨unread, rfl, behind⟩

section Input

variable {interpreter after : Interpreter σ} {outcome : Outcome}

/-- A run accounts for all its input. If it succeeds without a line that ends it, then
every line was read and evaluated, and all streams were read up to their end. If some
stream fails behind lines that do not end the run, then the run stops with this
failure and all that stands behind is still there, unless it stopped before because
one of the lines could not be evaluated or reported. -/
theorem run_skips_nothing (unambiguous : ∀ source ∈ interpreter.sources, source.Unambiguous)
    (steady : ∀ source ∈ interpreter.sources, source.Uninterrupting)
    (ran : interpreter.run .silent = (outcome, after)) :
    (∃ read, interpreter.deliveries = read.map .ok ++ after.deliveries ∧
      (outcome = .done → (∀ entry ∈ read, entry.exits = false) →
        read = interpreter.lines ∧
        (∀ source ∈ interpreter.sources, source.EndsPlainly) ∧
        (∀ source ∈ after.sources, source.Exhausted) ∧
        ∃ left, interpreter.machine.Evaluates read left ∧
          left.flush = (.done, after.machine))) ∧
    ∀ front failure behind,
      interpreter.deliveries = front.map .ok ++ .error failure :: behind →
      (∀ entry ∈ front, entry.exits = false) →
      (outcome = .failed failure ∧ after.deliveries = .error failure :: behind ∧
        interpreter.machine.Evaluates front after.machine) ∨
      ∃ evaluated entry unread left, front = evaluated ++ entry :: unread ∧
        interpreter.machine.Evaluates evaluated left ∧
        left.evalReporting entry.location entry.line = (outcome, after.machine) ∧
        outcome ≠ .done := by
  obtain ⟨read, stopped, left, ⟨delivered, reads, exhausted, -⟩, result⟩ :=
    run_progress unambiguous steady ran
  change interpreter.deliveries = read.map .ok ++ after.deliveries at delivered
  change interpreter.machine.Reads read after.deliveries stopped left at reads
  constructor
  · refine ⟨read, delivered, ?_⟩
    rintro rfl stay
    generalize after.deliveries = rest at delivered reads
    cases reads with
    | all evaluates =>
      rw [List.append_nil] at delivered
      exact ⟨(lines_of_deliveries delivered).symm, endsPlainly_of_deliveries delivered,
        exhausted rfl, left, evaluates, result.symm⟩
    | failure failure rest evaluates => cases result
    | exit rest evaluates exits =>
      rw [stay _ (by simp)] at exits
      cases exits
    | line rest evaluates stays evaluated other =>
      cases result
      exact absurd rfl other
  · intro front failure behind shown stay
    rw [shown] at delivered
    obtain ⟨unread, rfl, rest⟩ := exists_unread delivered
    generalize after.deliveries = others at rest reads
    cases reads with
    | all evaluates => simp at rest
    | failure reported later evaluates =>
      cases result
      cases unread with
      | nil =>
        cases rest
        left
        exact ⟨rfl, rfl, by simpa using evaluates⟩
      | cons entry more => cases rest
    | exit later evaluates exits =>
      rw [stay _ (by simp)] at exits
      cases exits
    | line later evaluates stays evaluated other =>
      cases result
      right
      exact ⟨_, _, unread, _, by simp, evaluates, evaluated, other⟩

end Input

/-- Two readers in a queue, the first of which ends as given. -/
def twoReaders (ending : Failure) : Interpreter Console :=
  ⟨Machine.initial Console.silent,
    [.feed (Feed.ofQueue
      [⟨text "a", text "1\n", 0, .failure ending, .never⟩,
        ⟨text "b", text "2\n", 1, .failure .endOfInput, .never⟩])]⟩

theorem run_skips_nothing_twoReaders :
    ((twoReaders .endOfInput).run .silent).1 = .done ∧
      ∃ left, (twoReaders .endOfInput).machine.Evaluates
          [⟨some ⟨text "a", 1⟩, text "1"⟩, ⟨some ⟨text "b", 1⟩, text "2"⟩] left ∧
        left.flush = (.done, ((twoReaders .endOfInput).run .silent).2.machine) := by
  have done : ((twoReaders .endOfInput).run .silent).1 = .done := by decide +kernel
  have lines : (twoReaders .endOfInput).lines =
      [⟨some ⟨text "a", 1⟩, text "1"⟩, ⟨some ⟨text "b", 1⟩, text "2"⟩] := by decide +kernel
  have unambiguous : ∀ source ∈ (twoReaders .endOfInput).sources, source.Unambiguous := by
    simp [twoReaders, Source.Unambiguous, Source.endings, Feed.unclosed, Feed.ofQueue,
      StreamEnding.report]
  have steady : ∀ source ∈ (twoReaders .endOfInput).sources, source.Uninterrupting := by
    simp [twoReaders, Source.Uninterrupting]
  obtain ⟨⟨read, delivered, complete⟩, -⟩ := run_skips_nothing unambiguous steady rfl
  have stay : ∀ entry ∈ read, entry.exits = false := by
    have all : ∀ delivery ∈ (twoReaders .endOfInput).deliveries,
        delivery.toOption.any SourceLine.exits = false := by decide +kernel
    intro entry membership
    apply all (.ok entry)
    simp [delivered, membership]
  obtain ⟨whole, -, -, left, evaluates, flushed⟩ := complete done stay
  rw [whole, lines] at evaluates
  exact ⟨done, left, evaluates, flushed⟩

/-- A failure with the end of the input as its cause is taken for that end. The run
succeeds and passes over the second reader. -/
theorem run_passes_over_reader :
    let interpreter := twoReaders (.context (text "wrapped") .endOfInput)
    (∀ entry ∈ interpreter.lines, entry.exits = false) ∧
      (interpreter.run .silent).1 = .done ∧ (interpreter.run .silent).2.machine.stack = [1] ∧
      (interpreter.run .silent).2.lines = [⟨some ⟨text "b", 1⟩, text "2"⟩] := by
  decide +kernel

end Interpreter

end LineForth
