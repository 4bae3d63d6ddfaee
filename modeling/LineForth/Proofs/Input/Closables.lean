import LineForth.Interpreter
import LineForth.Proofs.Input.Deliveries

/-!
# What sources close

A stream that can be closed is closed when it has ended, and a feed closes its streams in
the order of its queue: what reading a line closes is a front part of what was open, and
the rest stays open. Closing a source closes all that is still open, and reports the first
failure met on the way.
-/

set_option autoImplicit false

namespace LineForth

/-- Something that can be closed, by its handle. -/
inductive Closable where
  | stream (handle : Nat)
  | list (handle : Nat)
  deriving DecidableEq, Repr

namespace Event

def closes? : Event → Option Closable
  | flushed _ => none
  | closed _ handle => some (.stream handle)
  | closedAfter _ _ handle => some (.list handle)

/-- What is closed in the course of the events. -/
def closings (events : List Event) : List Closable := events.filterMap closes?

theorem closings_append (first second : List Event) :
    closings (first ++ second) = closings first ++ closings second :=
  List.filterMap_append

end Event

namespace Outcome

/-- The failures of two groups, one after the other, come to the first of all. -/
theorem ofFailure?_head?_append (first second : List Failure) :
    (ofFailure? first.head?).orElse (ofFailure? second.head?) =
      ofFailure? (first ++ second).head? := by
  cases first with
  | nil => cases second <;> rfl
  | cons failure rest => cases second <;> rfl

theorem orElse_ne_panicked {earlier later : Outcome} (first : ∀ panic, earlier ≠ .panicked panic)
    (second : ∀ panic, later ≠ .panicked panic) (panic : Panic) :
    earlier.orElse later ≠ .panicked panic := by
  cases later with
  | panicked cause => exact absurd rfl (second cause)
  | done | failed failure =>
    cases earlier with
    | panicked cause => exact absurd rfl (first cause)
    | done | failed failure => simp [orElse]

theorem orElse_ofFailure?_ne_panicked {outcome : Outcome}
    (calm : ∀ panic, outcome ≠ .panicked panic) (failure : Option Failure) (panic : Panic) :
    outcome.orElse (ofFailure? failure) ≠ .panicked panic := by
  apply orElse_ne_panicked calm
  cases failure <;> simp [ofFailure?]

end Outcome

namespace Stream

def closables (stream : Stream) : List Closable :=
  match stream.closing with
  | .never => []
  | .closes _ handle => [.stream handle]

def closeFailures (stream : Stream) : List Failure :=
  match stream.closing with
  | .never => []
  | .closes failure _ => failure.toList

theorem closings_close (stream : Stream) : Event.closings stream.close.2 = stream.closables := by
  unfold close closables
  cases stream.closing <;> rfl

theorem outcome_close (stream : Stream) :
    stream.close.1 = Outcome.ofFailure? stream.closeFailures.head? := by
  unfold close closeFailures
  rcases stream.closing with _ | (_ | failure) <;> rfl

/-- The same stream, further on. -/
def Continues (stream after : Stream) : Prop :=
  ∃ pending chunk, after = { stream with pending := pending, chunk := chunk }

namespace Continues

variable {stream middle after : Stream}

theorem refl (stream : Stream) : Continues stream stream :=
  ⟨stream.pending, stream.chunk, rfl⟩

theorem trans (first : Continues stream middle) (second : Continues middle after) :
    Continues stream after := by
  obtain ⟨_, _, rfl⟩ := first
  obtain ⟨_, _, rfl⟩ := second
  exact ⟨_, _, rfl⟩

theorem closables (continues : Continues stream after) : after.closables = stream.closables := by
  obtain ⟨_, _, rfl⟩ := continues
  rfl

theorem read (stream : Stream) : Continues stream stream.read.2 := by
  unfold Stream.read
  split
  · exact ⟨_, _, rfl⟩
  split
  · split <;> exact refl stream
  · exact ⟨_, _, rfl⟩

theorem fetch (tries : Nat) (stream : Stream) : Continues stream (stream.fetch tries).2 := by
  induction tries generalizing stream with
  | zero => exact refl stream
  | succ tries inductionHypothesis =>
    have step := read stream
    unfold Stream.fetch
    split
    next octets after found =>
      rw [found] at step
      exact step
    next after found =>
      rw [found] at step
      exact step.trans (inductionHypothesis after)
    next failure after found =>
      rw [found] at step
      exact step

end Continues

end Stream

namespace Reader

/-- The reader that a reading leaves. -/
def Gathered.reader : Gathered → Reader
  | complete _ reader => reader
  | broken _ _ reader => reader

theorem Gathered.reader_before (octets : Bytes) (gathered : Gathered) :
    (gathered.before octets).reader = gathered.reader := by
  cases gathered <;> rfl

theorem continues_gather (stream : Stream) (ahead : Bytes) :
    stream.Continues (gather stream ahead).reader.stream := by
  fun_induction gather stream ahead with
  | case1 stream ahead line rest cut => exact .refl stream
  | case2 stream ahead cut failure after fetched =>
    have step := Stream.Continues.fetch Stream.patience stream
    rw [fetched] at step
    exact step
  | case3 stream ahead cut piece after fetched inductionHypothesis =>
    have step := Stream.Continues.fetch Stream.patience stream
    rw [fetched] at step
    rw [Gathered.reader_before]
    exact step.trans inductionHypothesis

theorem continues_line (reader : Reader) : reader.stream.Continues reader.line.2.stream := by
  have gathered := continues_gather reader.stream reader.ahead
  unfold line
  split
  all_goals
    next found =>
      rw [found] at gathered
      exact gathered

end Reader

namespace Feed

/-- What is still to be closed, in the order of the queue. -/
def closables (feed : Feed) : List Closable := feed.unclosed.flatMap Stream.closables

theorem closables_enqueue (feed : Feed) (stream : Stream) :
    (feed.enqueue stream).closables = feed.closables ++ stream.closables := by
  unfold closables unclosed enqueue
  cases feed.current <;> simp

/-- Reading closes a front part of the streams, each when it has ended. -/
theorem closables_readFrom (last : Location) (reader : Reader) (place : Location)
    (queue : List Stream) :
    reader.stream.closables ++ queue.flatMap Stream.closables =
      Event.closings (readFrom last reader place queue).2.1 ++
        (readFrom last reader place queue).2.2.closables := by
  fun_induction readFrom last reader place queue with
  | case1 reader place queue line after found =>
    have same := reader.continues_line.closables
    rw [found] at same
    simp [closables, unclosed, Event.closings, same]
  | case2 reader place after found =>
    have same := reader.continues_line.closables
    rw [found] at same
    simp [closables, unclosed, Stream.closings_close, same]
  | case3 reader place after found stream rest result events feed read inductionHypothesis =>
    have same := reader.continues_line.closables
    rw [found] at same
    rw [read] at inductionHypothesis
    dsimp only at same inductionHypothesis ⊢
    rw [Event.closings_append, Stream.closings_close, same, List.append_assoc,
      ← inductionHypothesis, List.flatMap_cons]
    rfl
  | case4 reader place queue failure after other found =>
    have same := reader.continues_line.closables
    rw [found] at same
    simp [closables, unclosed, Event.closings, same]

theorem closables_readLine (feed : Feed) :
    feed.closables = Event.closings feed.readLine.2.1 ++ feed.readLine.2.2.closables := by
  unfold readLine
  split
  next reader current =>
    have read := closables_readFrom feed.last reader feed.place feed.queue
    rw [closables, unclosed, current]
    exact read
  next current queue => simp [Event.closings]
  next stream rest current queue =>
    have read := closables_readFrom feed.last (Reader.onStream stream)
      (Location.start stream.name) rest
    rw [closables, unclosed, current, queue]
    exact read

theorem close_closeAll (streams : List Stream) :
    Event.closings (closeAll streams).2 = streams.flatMap Stream.closables ∧
      (closeAll streams).1 =
        Outcome.ofFailure? (streams.flatMap Stream.closeFailures).head? := by
  induction streams with
  | nil => exact ⟨rfl, rfl⟩
  | cons stream rest inductionHypothesis =>
    obtain ⟨closings, outcome⟩ := inductionHypothesis
    simp only [closeAll, List.flatMap_cons]
    constructor
    · rw [Event.closings_append, stream.closings_close, closings]
    · rw [stream.outcome_close, outcome, Outcome.ofFailure?_head?_append]

end Feed

namespace Source

def isFeed : Source → Bool
  | feed _ => true
  | list _ => false

/-- What is still to be closed, in the order in which the source closes it. -/
def closables : Source → List Closable
  | feed streams => streams.closables
  | list given => [.list given.handle]

/-- The failures of closing what is still to be closed, in that order. -/
def closeFailures : Source → List Failure
  | feed streams => streams.unclosed.flatMap Stream.closeFailures
  | list given => given.closeFailure.toList

/-- Reading a line closes a front part of what is still to be closed. -/
theorem closables_of_readLine {source after : Source} {result : Except Failure Bytes}
    {events : List Event} (received : source.readLine = (result, events, after)) :
    source.closables = Event.closings events ++ after.closables ∧
      after.isFeed = source.isFeed := by
  cases source with
  | feed streams =>
    cases received
    exact ⟨streams.closables_readLine, rfl⟩
  | list given =>
    have kept : given.readLine.2.handle = given.handle := by
      unfold LineList.readLine
      split <;> rfl
    cases received
    exact ⟨congrArg (fun handle => [Closable.list handle]) kept.symm, rfl⟩

theorem closings_close (source : Source) : Event.closings source.close.2 = source.closables := by
  cases source with
  | feed streams => exact (Feed.close_closeAll streams.unclosed).1
  | list given => rfl

theorem outcome_close (source : Source) :
    source.close.1 = Outcome.ofFailure? source.closeFailures.head? := by
  cases source with
  | feed streams => exact (Feed.close_closeAll streams.unclosed).2
  | list given =>
    simp only [close, closeFailures]
    cases given.closeFailure <;> rfl

end Source

namespace Interpreter

theorem close_closeSources (sources : List Source) :
    Event.closings (closeSources sources).2 = sources.flatMap Source.closables ∧
      (closeSources sources).1 =
        Outcome.ofFailure? (sources.flatMap Source.closeFailures).head? := by
  induction sources with
  | nil => exact ⟨rfl, rfl⟩
  | cons source rest inductionHypothesis =>
    obtain ⟨closings, outcome⟩ := inductionHypothesis
    simp only [closeSources, List.flatMap_cons]
    constructor
    · rw [Event.closings_append, source.closings_close, closings]
    · rw [source.outcome_close, outcome, Outcome.ofFailure?_head?_append]

end Interpreter

end LineForth
