import LineForth.Failure
import LineForth.Journal

/-!
# Streams

A stream hands out its octets in pieces and then repeats its ending. How the
octets are cut into pieces, and how often nothing is given before a piece, is the
stream's own affair: a reader puts the lines together again.
-/

set_option autoImplicit false

namespace LineForth

/-- What a stream does once its octets are gone. -/
inductive StreamEnding where
  | failure (failure : Failure)
  /-- It gives nothing and reports nothing, for ever. -/
  | stall
  deriving DecidableEq, Repr

/-- What is to be closed is known by its handle, since names need not differ. -/
inductive Closing where
  /-- There is nothing to close. -/
  | never
  | closes (failure : Option Failure) (handle : Nat := 0)
  deriving DecidableEq, Repr

namespace Stream

/-- How often a reader asks before it gives up on getting nothing. -/
def patience : Nat := 100

-- The zero is named, so that the instance is the same one whatever is imported beside it.
instance : @NeZero Nat Zero.ofOfNat0 patience := ⟨Nat.succ_ne_zero 99⟩

end Stream

structure Chunking where
  /-- The most octets given at once by each of the first answers. 0 sets no bound. -/
  first : List Nat
  /-- The most octets given at once by all further answers. -/
  further : Nat
  /-- How often nothing is given before each of the first answers. A reader bears it. -/
  lulls : List (Fin Stream.patience) := []
  deriving DecidableEq, Repr

namespace Chunking

/-- The same number for every answer, and no lulls. -/
def even (size : Nat) : Chunking := ⟨[], size, []⟩

instance : Coe Nat Chunking := ⟨even⟩

instance (size : Nat) : OfNat Chunking size := ⟨even size⟩

def size (chunking : Chunking) : Nat := chunking.first.headD chunking.further

def next (chunking : Chunking) : Chunking :=
  { chunking with first := chunking.first.tail, lulls := chunking.lulls.tail }

/-- How often nothing is still given before the next answer. -/
def lull (chunking : Chunking) : Nat := (chunking.lulls.headD 0).val

/-- The chunking, once nothing has been given. -/
def waited (chunking : Chunking) : Chunking :=
  match chunking.lulls with
  | [] => chunking
  | lull :: rest => { chunking with lulls := ⟨lull.val - 1, by omega⟩ :: rest }

theorem lull_lt (chunking : Chunking) : chunking.lull < Stream.patience :=
  (chunking.lulls.headD 0).isLt

theorem lull_waited (chunking : Chunking) : chunking.waited.lull = chunking.lull - 1 := by
  obtain ⟨first, further, _ | ⟨lull, rest⟩⟩ := chunking
  · rfl
  · rfl

end Chunking

structure Stream where
  name : Bytes
  pending : Bytes
  chunk : Chunking
  ending : StreamEnding
  closing : Closing
  deriving DecidableEq, Repr

/-- The answer to one attempt to read. -/
inductive Piece where
  | octets (octets : Bytes)
  | nothing
  | failed (failure : Failure)
  deriving DecidableEq, Repr

namespace Stream

/-- The most octets asked for at once. -/
def window : Nat := 4096

def pieceSize (stream : Stream) : Nat :=
  if stream.chunk.size = 0 then window else Nat.min stream.chunk.size window

theorem pieceSize_pos (stream : Stream) : 0 < stream.pieceSize := by
  unfold pieceSize window
  split
  · omega
  · simp only [Nat.min_def]
    split <;> omega

def read (stream : Stream) : Piece × Stream :=
  if 0 < stream.chunk.lull then
    (.nothing, { stream with chunk := stream.chunk.waited })
  else if stream.pending.isEmpty then
    match stream.ending with
    | .failure failure => (.failed failure, stream)
    | .stall => (.nothing, stream)
  else
    (.octets (stream.pending.take stream.pieceSize),
      { stream with
        pending := stream.pending.drop stream.pieceSize
        chunk := stream.chunk.next })

def noProgress : Failure := .other (text "multiple Read calls return no data or error")

/-- Asks until something comes, at most `tries` times. -/
def fetch : (tries : Nat) → Stream → Except Failure Bytes × Stream
  | 0, stream => (.error noProgress, stream)
  | tries + 1, stream =>
    match stream.read with
    | (.octets octets, after) => (.ok octets, after)
    | (.nothing, after) => fetch tries after
    | (.failed failure, after) => (.error failure, after)

/-- Closing a stream that can be closed is an event. -/
def close (stream : Stream) : Outcome × List Event :=
  match stream.closing with
  | .never => (.done, [])
  | .closes failure handle => (Outcome.ofFailure? failure, [.closed stream.name handle])

theorem read_octets {stream after : Stream} {octets : Bytes}
    (result : stream.read = (.octets octets, after)) :
    octets ≠ [] ∧ octets ++ after.pending = stream.pending := by
  unfold read at result
  split at result
  · simp at result
  split at result
  · split at result <;> simp at result
  next nonempty =>
    simp only [Prod.mk.injEq, Piece.octets.injEq] at result
    obtain ⟨same, rfl⟩ := result
    subst same
    refine ⟨?_, List.take_append_drop _ _⟩
    have positive := stream.pieceSize_pos
    cases pending : stream.pending with
    | nil => simp [pending] at nonempty
    | cons octet rest =>
      cases size : stream.pieceSize with
      | zero => omega
      | succ smaller => simp

/-- Other answers use no octets up. -/
theorem read_pending {stream after : Stream} {piece : Piece}
    (result : stream.read = (piece, after)) (other : ∀ octets, piece ≠ .octets octets) :
    after.pending = stream.pending := by
  unfold read at result
  split at result
  · cases result
    rfl
  split at result
  · split at result <;> (cases result; rfl)
  · cases result
    exact absurd rfl (other _)

theorem fetch_ok {tries : Nat} {stream after : Stream} {octets : Bytes}
    (result : fetch tries stream = (.ok octets, after)) :
    octets ≠ [] ∧ octets ++ after.pending = stream.pending := by
  induction tries generalizing stream with
  | zero => simp [fetch] at result
  | succ fewer inductionHypothesis =>
    simp only [fetch] at result
    split at result
    next piece rest found =>
      simp only [Prod.mk.injEq, Except.ok.injEq] at result
      obtain ⟨rfl, rfl⟩ := result
      exact read_octets found
    next rest found =>
      rw [← read_pending found (by simp)]
      exact inductionHypothesis result
    · simp at result

theorem fetch_error {tries : Nat} {stream after : Stream} {failure : Failure}
    (result : fetch tries stream = (.error failure, after)) :
    after.pending = stream.pending := by
  induction tries generalizing stream with
  | zero =>
    cases result
    rfl
  | succ fewer inductionHypothesis =>
    simp only [fetch] at result
    split at result
    · cases result
    next rest found =>
      rw [← read_pending found (by simp)]
      exact inductionHypothesis result
    next problem rest found =>
      cases result
      exact read_pending found (by simp)

end Stream

/-- A stream with the octets read from it and not yet handed out. -/
structure Reader where
  stream : Stream
  ahead : Bytes
  deriving DecidableEq, Repr

namespace Reader

def onStream (stream : Stream) : Reader := ⟨stream, []⟩

/-- All octets that are still to come. -/
def octets (reader : Reader) : Bytes := reader.ahead ++ reader.stream.pending

/-- What a reading came to: a line with its newline, or the octets before a
failure of the stream. -/
inductive Gathered where
  | complete (line : Bytes) (reader : Reader)
  | broken (octets : Bytes) (failure : Failure) (reader : Reader)
  deriving DecidableEq, Repr

namespace Gathered

def before (octets : Bytes) : Gathered → Gathered
  | complete line reader => complete (octets ++ line) reader
  | broken rest failure reader => broken (octets ++ rest) failure reader

/-- The octets handed out, and those still to come. -/
def octets : Gathered → Bytes
  | complete line reader => line ++ reader.octets
  | broken rest _ reader => rest ++ reader.octets

@[simp] theorem octets_before (octets : Bytes) (gathered : Gathered) :
    (gathered.before octets).octets = octets ++ gathered.octets := by
  cases gathered <;> simp [before, Gathered.octets]

end Gathered

/-- Reads up to and including the next newline, or up to a failure of the
stream. After a failure the next reading asks the stream again. -/
def gather (stream : Stream) (ahead : Bytes) : Gathered :=
  match Bytes.cutLine? ahead with
  | some (line, rest) => .complete line ⟨stream, rest⟩
  | none =>
    match _fetched : stream.fetch Stream.patience with
    | (.error failure, after) => .broken ahead failure ⟨after, []⟩
    | (.ok piece, after) => (gather after piece).before ahead
termination_by stream.pending.length
decreasing_by
  obtain ⟨nonempty, same⟩ := Stream.fetch_ok _fetched
  have longer : 0 < piece.length := List.length_pos_iff.mpr nonempty
  rw [← same, List.length_append]
  omega

/-- Reading loses no octet. -/
theorem gather_octets (stream : Stream) (ahead : Bytes) :
    (gather stream ahead).octets = ahead ++ stream.pending := by
  fun_induction gather stream ahead with
  | case1 stream ahead line rest cut =>
    simp [Gathered.octets, octets, ← Bytes.append_of_cutLine? cut]
  | case2 stream ahead cut failure after fetched =>
    simp [Gathered.octets, octets, Stream.fetch_error fetched]
  | case3 stream ahead cut piece after fetched inductionHypothesis =>
    rw [Gathered.octets_before, inductionHypothesis, (Stream.fetch_ok fetched).2]

theorem gather_complete_ne_nil {stream : Stream} {ahead line : Bytes} {reader : Reader}
    (gathered : gather stream ahead = .complete line reader) : line ≠ [] := by
  fun_induction gather stream ahead generalizing line with
  | case1 stream ahead found rest cut =>
    simp only [Gathered.complete.injEq] at gathered
    exact gathered.1 ▸ Bytes.ne_nil_of_cutLine? cut
  | case2 => simp at gathered
  | case3 stream ahead cut piece after fetched inductionHypothesis =>
    cases inner : gather after piece with
    | complete rest last =>
      rw [inner] at gathered
      simp only [Gathered.before, Gathered.complete.injEq] at gathered
      have nonempty := inductionHypothesis (gathered.2 ▸ inner)
      simp [← gathered.1, nonempty]
    | broken rest failure last => simp [inner, Gathered.before] at gathered

/-- The next line with its newline. The last line may lack one; a failure of the
stream shows only when there is no octet before it. -/
def line (reader : Reader) : Except Failure Bytes × Reader :=
  match gather reader.stream reader.ahead with
  | .complete line after => (.ok line, after)
  | .broken [] failure after => (.error failure, after)
  | .broken octets _ after => (.ok octets, after)

theorem line_ok {reader after : Reader} {line : Bytes} (result : reader.line = (.ok line, after)) :
    line ≠ [] ∧ line ++ after.octets = reader.octets := by
  have whole := gather_octets reader.stream reader.ahead
  unfold Reader.line at result
  split at result
  next found rest gathered =>
    simp only [Prod.mk.injEq, Except.ok.injEq] at result
    obtain ⟨rfl, rfl⟩ := result
    rw [gathered] at whole
    exact ⟨gather_complete_ne_nil gathered, whole⟩
  · simp at result
  next found failure rest nonempty gathered =>
    simp only [Prod.mk.injEq, Except.ok.injEq] at result
    obtain ⟨rfl, rfl⟩ := result
    rw [gathered] at whole
    exact ⟨fun empty => nonempty (empty ▸ rfl), whole⟩

end Reader

end LineForth
