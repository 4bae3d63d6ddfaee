import LineForth.Input.Stream

/-!
# Feeds

A feed reads lines from a queue of streams, one stream after the other. Each
stream is closed when it has ended, and the place of the last line handed out is
remembered.
-/

set_option autoImplicit false

namespace LineForth

structure Location where
  name : Bytes
  line : Nat
  deriving DecidableEq, Repr

namespace Location

def start (name : Bytes) : Location := ⟨name, 0⟩

def next (location : Location) : Location := { location with line := location.line + 1 }

def render (location : Location) : Bytes :=
  location.name ++ text ":" ++ decimalNat location.line

end Location

structure Feed where
  queue : List Stream
  current : Option Reader
  /-- The place of the line last handed out. -/
  last : Location
  /-- The place reached in the current stream. -/
  place : Location
  deriving DecidableEq, Repr

namespace Feed

def ofQueue (queue : List Stream) : Feed := ⟨queue, none, ⟨[], 0⟩, ⟨[], 0⟩⟩

def enqueue (feed : Feed) (stream : Stream) : Feed :=
  { feed with queue := feed.queue ++ [stream] }

/-- Reads from `reader`, and from the queue behind it once the stream has ended.
Any other failure is reported with the place reached, and the stream is kept. -/
def readFrom (last : Location) :
    Reader → Location → List Stream → Except Failure Bytes × List Event × Feed
  | reader, place, queue =>
    match reader.line with
    | (.ok line, after) => (.ok line.chomp, [], ⟨queue, some after, place.next, place.next⟩)
    | (.error .endOfInput, after) =>
      match queue with
      | [] => (.error .endOfInput, after.stream.close.2, ⟨[], none, last, place⟩)
      | stream :: rest =>
        let (result, events, feed) :=
          readFrom last (Reader.onStream stream) (Location.start stream.name) rest
        (result, after.stream.close.2 ++ events, feed)
    | (.error failure, after) =>
      (.error (.context place.render failure), [], ⟨queue, some after, last, place⟩)

def readLine (feed : Feed) : Except Failure Bytes × List Event × Feed :=
  match feed.current, feed.queue with
  | some reader, queue => readFrom feed.last reader feed.place queue
  | none, [] => (.error .endOfInput, [], feed)
  | none, stream :: rest =>
    readFrom feed.last (Reader.onStream stream) (Location.start stream.name) rest

/-- The streams that are not closed yet, in the order they are closed. -/
def unclosed (feed : Feed) : List Stream :=
  match feed.current with
  | some reader => reader.stream :: feed.queue
  | none => feed.queue

def closeAll : List Stream → Outcome × List Event
  | [] => (.done, [])
  | stream :: rest =>
    let (outcome, events) := stream.close
    let (later, others) := closeAll rest
    (outcome.orElse later, events ++ others)

def close (feed : Feed) : Outcome × List Event × Feed :=
  let (outcome, events) := closeAll feed.unclosed
  (outcome, events, { feed with queue := [], current := none })

def queuedSize : List Stream → Nat
  | [] => 0
  | stream :: rest => stream.pending.length + queuedSize rest

/-- The number of octets that are still to come. -/
def size (feed : Feed) : Nat :=
  (match feed.current with
    | some reader => reader.octets.length
    | none => 0) + queuedSize feed.queue

theorem size_readFrom {last place : Location} {reader : Reader} {queue : List Stream}
    {line : Bytes} {events : List Event} {feed : Feed}
    (result : readFrom last reader place queue = (.ok line, events, feed)) :
    feed.size < reader.octets.length + queuedSize queue := by
  induction queue generalizing reader place events with
  | nil =>
    unfold readFrom at result
    split at result
    next found after read =>
      obtain ⟨nonempty, whole⟩ := Reader.line_ok read
      simp only [Prod.mk.injEq] at result
      rw [← result.2.2, ← whole]
      have positive := List.length_pos_iff.mpr nonempty
      simp only [size, List.length_append]
      omega
    · simp at result
    · simp at result
  | cons stream rest inductionHypothesis =>
    unfold readFrom at result
    split at result
    next found after read =>
      obtain ⟨nonempty, whole⟩ := Reader.line_ok read
      simp only [Prod.mk.injEq] at result
      rw [← result.2.2, ← whole]
      have positive := List.length_pos_iff.mpr nonempty
      simp only [size, List.length_append]
      omega
    · simp only [Prod.mk.injEq] at result
      have smaller : feed.size < (Reader.onStream stream).octets.length + queuedSize rest :=
        inductionHypothesis (Prod.ext result.1 (Prod.ext rfl result.2.2))
      simp only [Reader.octets, Reader.onStream, List.nil_append] at smaller
      simp only [queuedSize] at smaller ⊢
      omega
    · simp at result

theorem size_readLine {feed after : Feed} {line : Bytes} {events : List Event}
    (result : feed.readLine = (.ok line, events, after)) : after.size < feed.size := by
  unfold readLine at result
  split at result
  next current =>
    have smaller := size_readFrom result
    simpa [size, current] using smaller
  · simp at result
  next current queue =>
    have smaller := size_readFrom result
    simpa [size, current, queue, queuedSize, Reader.octets, Reader.onStream] using smaller

end Feed

end LineForth
