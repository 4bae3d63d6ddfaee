import LineForth.Input.Source
import LineForth.Proofs.Input.Lines
import Mathlib.Data.List.Basic

/-!
# What sources deliver

What a source is still to hand out can be listed in advance: the lines of each of its
streams in order, every line with its place, and behind the lines of a stream its
failure, unless the stream ends with the bare end of the input. Asking for a line
takes the first delivery if that is a line. A failure stays in front, so it is
reported again and nothing behind it is ever reached.
-/

set_option autoImplicit false

namespace LineForth

namespace Location

def advance (location : Location) (count : Nat) : Location :=
  { location with line := location.line + count }

theorem advance_next (location : Location) (count : Nat) :
    location.next.advance count = location.advance (count + 1) := by
  simp only [advance, next, mk.injEq, true_and]
  omega

end Location

/-- A line, and its place if that is known. -/
structure SourceLine where
  location : Option Location
  line : Bytes
  deriving DecidableEq, Repr

/-- What a source hands out: a line, or a failure that it repeats. -/
abbrev Delivery := Except Failure SourceLine

/-- What is left of one stream or of one list of lines. -/
structure Stretch where
  /-- The place of the line before, if places are known. -/
  place : Option Location
  lines : List Bytes
  /-- Reported when no line is left. -/
  ending : Failure

namespace Stretch

/-- The lines with their places, numbered on from the line before. -/
def entries (stretch : Stretch) : List SourceLine :=
  stretch.lines.mapIdx fun index line =>
    ⟨stretch.place.map fun place => place.advance (index + 1), line⟩

def deliveries (stretch : Stretch) : List Delivery :=
  stretch.entries.map .ok ++
    if stretch.ending = .endOfInput then [] else [.error stretch.ending]

/-- The lines of a stream. Only the end of the input is reported as it is; other
failures get the place behind the last line as their context. -/
def ofOctets (place : Location) (octets : Bytes) (ending : StreamEnding) : Stretch where
  place := some place
  lines := octets.lines
  ending :=
    if ending.report = .endOfInput then .endOfInput
    else .context (place.advance octets.lines.length).render ending.report

def ofStream (stream : Stream) : Stretch :=
  ofOctets (Location.start stream.name) stream.pending stream.ending

theorem deliveries_cons (place : Option Location) (line : Bytes) (rest : List Bytes)
    (ending : Failure) :
    deliveries ⟨place, line :: rest, ending⟩ =
      .ok ⟨place.map Location.next, line⟩ ::
        deliveries ⟨place.map Location.next, rest, ending⟩ := by
  have numbered : entries ⟨place, line :: rest, ending⟩ =
      ⟨place.map Location.next, line⟩ :: entries ⟨place.map Location.next, rest, ending⟩ := by
    cases place with
    | none => simp [entries, List.mapIdx_cons]
    | some place => simp [entries, List.mapIdx_cons, Location.advance_next]; rfl
  simp [deliveries, numbered]

theorem deliveries_of_plain {stretch : Stretch} (plain : stretch.ending = .endOfInput) :
    stretch.deliveries = stretch.entries.map .ok := by
  simp [deliveries, plain]

theorem error_mem_deliveries {stretch : Stretch} {failure : Failure} :
    .error failure ∈ stretch.deliveries ↔
      stretch.ending = failure ∧ failure ≠ .endOfInput := by
  by_cases plain : stretch.ending = .endOfInput
  · simp only [deliveries, plain, if_true, List.append_nil, List.mem_map, reduceCtorEq, and_false,
      exists_false, false_iff, not_and]
    exact fun same other => other same.symm
  · simp only [deliveries, if_neg plain, List.mem_append, List.mem_map, reduceCtorEq, and_false,
      exists_false, false_or, List.mem_singleton, Except.error.injEq]
    constructor
    · rintro rfl
      exact ⟨rfl, plain⟩
    · rintro ⟨rfl, -⟩
      rfl

section Octets

variable {place : Location} {octets rest : Bytes} {ending : StreamEnding}

theorem deliveries_ofOctets_cons {line : Bytes} (first : octets.lines = line :: rest.lines) :
    (ofOctets place octets ending).deliveries =
      .ok ⟨some place.next, line⟩ :: (ofOctets place.next rest ending).deliveries := by
  simp only [ofOctets, first, List.length_cons, ← Location.advance_next]
  exact deliveries_cons _ _ _ _

theorem deliveries_ofOctets_nil :
    (ofOctets place [] ending).deliveries =
      if ending.report = .endOfInput then []
      else [.error (.context place.render ending.report)] := by
  by_cases plain : ending.report = .endOfInput
  · simp [ofOctets, deliveries, entries, Bytes.lines_nil, plain]
  · simp [ofOctets, deliveries, entries, Bytes.lines_nil, plain, Location.advance]

end Octets

end Stretch

namespace Feed

def stretches (feed : Feed) : List Stretch :=
  match feed.current with
  | some reader =>
    Stretch.ofOctets feed.place reader.octets reader.stream.ending ::
      feed.queue.map Stretch.ofStream
  | none => feed.queue.map Stretch.ofStream

def deliveries (feed : Feed) : List Delivery := feed.stretches.flatMap Stretch.deliveries

theorem deliveries_some (queue : List Stream) (reader : Reader) (last place : Location) :
    deliveries ⟨queue, some reader, last, place⟩ =
      (Stretch.ofOctets place reader.octets reader.stream.ending).deliveries ++
        (queue.map Stretch.ofStream).flatMap Stretch.deliveries := rfl

section ReadFrom

variable {last place : Location} {reader : Reader} {queue : List Stream} {line : Bytes}
  {failure : Failure} {events : List Event} {feed : Feed}

/-- A stream that has ended adds nothing to what the streams behind it deliver. -/
theorem deliveries_of_ended {after : Reader} (read : reader.line = (.error .endOfInput, after))
    (stream : Stream) (rest : List Stream) :
    deliveries ⟨stream :: rest, some reader, last, place⟩ =
      deliveries ⟨rest, some (Reader.onStream stream), last, Location.start stream.name⟩ := by
  obtain ⟨gone, -, same, -⟩ := Reader.of_line_error read
  rw [deliveries_some, gone, Stretch.deliveries_ofOctets_nil, if_pos same.symm]
  rfl

/-- A line that is read is the first delivery. -/
theorem deliveries_of_readFrom_ok
    (read : readFrom last reader place queue = (.ok line, events, feed)) :
    deliveries ⟨queue, some reader, last, place⟩ =
      .ok ⟨some feed.last, line⟩ :: feed.deliveries := by
  fun_induction readFrom last reader place queue generalizing events with
  | case1 reader place queue found after lineRead =>
    cases read
    obtain ⟨lines, ending⟩ := Reader.lines_of_line_ok lineRead
    rw [deliveries_some, deliveries_some, Stretch.deliveries_ofOctets_cons lines, ending]
    rfl
  | case2 => cases read
  | case3 reader place after lineRead stream rest result closing left same inductionHypothesis =>
    cases read
    rw [deliveries_of_ended lineRead]
    exact inductionHypothesis same
  | case4 => cases read

/-- A failure leaves the deliveries as they are. It is the first of them, unless all
streams have ended. -/
theorem deliveries_of_readFrom_error
    (read : readFrom last reader place queue = (.error failure, events, feed)) :
    feed.deliveries = deliveries ⟨queue, some reader, last, place⟩ ∧
      ((failure = .endOfInput ∧ feed.unclosed = []) ∨
        ∃ rest, feed.deliveries = .error failure :: rest) := by
  fun_induction readFrom last reader place queue generalizing events with
  | case1 => cases read
  | case2 reader place after lineRead =>
    cases read
    obtain ⟨gone, -, same, -⟩ := Reader.of_line_error lineRead
    refine ⟨?_, .inl ⟨rfl, rfl⟩⟩
    rw [deliveries_some, gone, Stretch.deliveries_ofOctets_nil, if_pos same.symm]
    rfl
  | case3 reader place after lineRead stream rest result closing left same inductionHypothesis =>
    cases read
    rw [deliveries_of_ended lineRead]
    exact inductionHypothesis same
  | case4 reader place queue reported after other lineRead =>
    cases read
    obtain ⟨gone, still, same, ending⟩ := Reader.of_line_error lineRead
    have failing : reader.stream.ending.report ≠ .endOfInput := fun plain =>
      other (same.trans plain)
    rw [deliveries_some, deliveries_some, gone, still, ending, Stretch.deliveries_ofOctets_nil,
      if_neg failing, same]
    exact ⟨rfl, .inr ⟨_, rfl⟩⟩

end ReadFrom

section ReadLine

variable {feed after : Feed} {line : Bytes} {failure : Failure} {events : List Event}

theorem deliveries_of_readLine_ok (read : feed.readLine = (.ok line, events, after)) :
    feed.deliveries = .ok ⟨some after.last, line⟩ :: after.deliveries := by
  obtain ⟨queue, current, last, place⟩ := feed
  cases current with
  | some reader => exact deliveries_of_readFrom_ok read
  | none =>
    cases queue with
    | nil => cases read
    | cons stream rest => exact deliveries_of_readFrom_ok read

theorem deliveries_of_readLine_error (read : feed.readLine = (.error failure, events, after)) :
    after.deliveries = feed.deliveries ∧
      ((failure = .endOfInput ∧ after.unclosed = []) ∨
        ∃ rest, after.deliveries = .error failure :: rest) := by
  obtain ⟨queue, current, last, place⟩ := feed
  cases current with
  | some reader => exact deliveries_of_readFrom_error read
  | none =>
    cases queue with
    | nil =>
      cases read
      exact ⟨rfl, .inl ⟨rfl, rfl⟩⟩
    | cons stream rest => exact deliveries_of_readFrom_error read

end ReadLine

end Feed

namespace Source

def stretches : Source → List Stretch
  | .feed streams => streams.stretches
  | .list given => [⟨location? (.list given), given.lines, given.ending⟩]

def deliveries (source : Source) : List Delivery := source.stretches.flatMap Stretch.deliveries

/-- All lines that are still to come, also those behind a failure. -/
def lines (source : Source) : List SourceLine := source.stretches.flatMap Stretch.entries

/-- What the streams report when their octets are gone, and lists when their lines
are. -/
def endings : Source → List Failure
  | .feed streams => streams.unclosed.map fun stream => stream.ending.report
  | .list given => [given.ending]

/-- Nothing but the end of the input is ever reported. -/
def EndsPlainly (source : Source) : Prop := ∀ ending ∈ source.endings, ending = .endOfInput

/-- The end of the input is reported as it is, and is not the cause of any other
failure. -/
def Unambiguous (source : Source) : Prop :=
  ∀ ending ∈ source.endings, ending.isEndOfInput → ending = .endOfInput

/-- All streams were read up to the end of the input and closed. A list has no line
left and reports the end of the input. -/
def Exhausted : Source → Prop
  | .feed streams => streams.unclosed = []
  | .list given => given.lines = [] ∧ given.ending = .endOfInput

/-- No line that is still to come interrupts the run. -/
def Uninterrupting : Source → Prop
  | .feed _ => True
  | .list given =>
    given.interruptAt ≤ given.taken ∨ given.taken + given.lines.length < given.interruptAt

/-- The context that a feed puts in front of a failure does not matter for a property
that looks behind it. -/
theorem forall_endings_iff {P : Failure → Prop}
    (behind : ∀ place octets ending,
      P (Stretch.ofOctets place octets ending).ending ↔ P ending.report) (source : Source) :
    (∀ ending ∈ source.endings, P ending) ↔ ∀ stretch ∈ source.stretches, P stretch.ending := by
  cases source with
  | list given => simp [endings, stretches]
  | feed streams =>
    obtain ⟨queue, current, last, place⟩ := streams
    cases current <;>
      simp [endings, stretches, Feed.unclosed, Feed.stretches, Stretch.ofStream, behind]

theorem error_mem_deliveries {source : Source} {failure : Failure} :
    .error failure ∈ source.deliveries ↔
      failure ≠ .endOfInput ∧ ∃ stretch ∈ source.stretches, stretch.ending = failure := by
  simp only [deliveries, List.mem_flatMap, Stretch.error_mem_deliveries]
  constructor
  · rintro ⟨stretch, membership, ends, other⟩
    exact ⟨other, stretch, membership, ends⟩
  · rintro ⟨other, stretch, membership, ends⟩
    exact ⟨stretch, membership, ends, other⟩

theorem endsPlainly_iff_stretches {source : Source} :
    source.EndsPlainly ↔ ∀ stretch ∈ source.stretches, stretch.ending = .endOfInput := by
  apply forall_endings_iff
  intro place octets ending
  simp [Stretch.ofOctets]

theorem endsPlainly_iff {source : Source} :
    source.EndsPlainly ↔ ∀ failure, .error failure ∉ source.deliveries := by
  rw [endsPlainly_iff_stretches]
  simp only [error_mem_deliveries]
  grind

theorem unambiguous_iff {source : Source} :
    source.Unambiguous ↔
      ∀ failure, .error failure ∈ source.deliveries → failure.isEndOfInput = false := by
  have behind : ∀ place octets (ending : StreamEnding),
      ((Stretch.ofOctets place octets ending).ending.isEndOfInput →
          (Stretch.ofOctets place octets ending).ending = .endOfInput) ↔
        (ending.report.isEndOfInput → ending.report = .endOfInput) := by
    intro place octets ending
    by_cases plain : ending.report = .endOfInput
    · simp [Stretch.ofOctets, plain]
    · simp [Stretch.ofOctets, plain, Failure.isEndOfInput, Failure.chain]
  unfold Unambiguous
  rw [forall_endings_iff behind]
  simp only [error_mem_deliveries]
  grind

theorem EndsPlainly.unambiguous {source : Source} (plain : source.EndsPlainly) :
    source.Unambiguous := fun ending membership _ => plain ending membership

theorem EndsPlainly.deliveries {source : Source} (plain : source.EndsPlainly) :
    source.deliveries = source.lines.map .ok := by
  rw [endsPlainly_iff_stretches] at plain
  unfold Source.deliveries Source.lines
  rw [List.map_flatMap]
  apply List.flatMap_congr
  intro stretch membership
  exact Stretch.deliveries_of_plain (plain stretch membership)

theorem Exhausted.deliveries {source : Source} (exhausted : source.Exhausted) :
    source.deliveries = [] := by
  cases source with
  | feed streams =>
    obtain ⟨queue, current, last, place⟩ := streams
    cases current with
    | some reader => cases exhausted
    | none =>
      cases exhausted
      rfl
  | list given =>
    obtain ⟨gone, plain⟩ := exhausted
    simp [Source.deliveries, stretches, Stretch.deliveries, Stretch.entries, gone, plain]

section ReadLine

variable {source after : Source} {line : Bytes} {failure : Failure} {events : List Event}

/-- A line that is read is the first delivery. -/
theorem deliveries_of_readLine_ok (read : source.readLine = (.ok line, events, after)) :
    source.deliveries = .ok ⟨after.location?, line⟩ :: after.deliveries := by
  cases source with
  | feed streams =>
    rcases same : streams.readLine with ⟨result, noted, left⟩
    simp only [readLine, same] at read
    cases read
    exact Feed.deliveries_of_readLine_ok same
  | list given =>
    obtain ⟨name, lines, taken, ending, located, interruptAt, closeFailure⟩ := given
    cases lines with
    | nil => cases read
    | cons first rest =>
      cases read
      simp only [deliveries, stretches, List.flatMap_cons, List.flatMap_nil, List.append_nil]
      rw [Stretch.deliveries_cons]
      cases located <;> rfl

/-- A failure leaves the deliveries as they are. It is the first of them, unless the
source is exhausted. -/
theorem deliveries_of_readLine_error (read : source.readLine = (.error failure, events, after)) :
    after.deliveries = source.deliveries ∧
      ((failure = .endOfInput ∧ after.Exhausted) ∨
        ∃ rest, after.deliveries = .error failure :: rest) := by
  cases source with
  | feed streams =>
    rcases same : streams.readLine with ⟨result, noted, left⟩
    simp only [readLine, same] at read
    cases read
    exact Feed.deliveries_of_readLine_error same
  | list given =>
    obtain ⟨name, lines, taken, ending, located, interruptAt, closeFailure⟩ := given
    cases lines with
    | cons first rest => cases read
    | nil =>
      cases read
      refine ⟨rfl, ?_⟩
      by_cases plain : ending = .endOfInput
      · exact .inl ⟨plain, rfl, plain⟩
      · right
        simp [deliveries, stretches, Stretch.deliveries, Stretch.entries, plain]

theorem Unambiguous.of_readLine_ok (unambiguous : source.Unambiguous)
    (read : source.readLine = (.ok line, events, after)) : after.Unambiguous := by
  rw [unambiguous_iff] at unambiguous ⊢
  intro reported membership
  apply unambiguous
  rw [deliveries_of_readLine_ok read]
  exact List.mem_cons_of_mem _ membership

theorem Uninterrupting.of_readLine {result : Except Failure Bytes}
    (steady : source.Uninterrupting) (read : source.readLine = (result, events, after)) :
    after.Uninterrupting := by
  have same : after = source.readLine.2.2 := by rw [read]
  rw [same]
  cases source with
  | feed streams => trivial
  | list given =>
    obtain ⟨name, lines, taken, ending, located, interruptAt, closeFailure⟩ := given
    cases lines with
    | nil => exact steady
    | cons first rest =>
      simp only [Uninterrupting, List.length_cons] at steady
      simp only [Uninterrupting, readLine, LineList.readLine]
      omega

theorem Uninterrupting.interrupts (steady : source.Uninterrupting)
    (read : source.readLine = (.ok line, events, after)) : after.interrupts = false := by
  cases source with
  | feed streams =>
    have same : after = (Source.feed streams).readLine.2.2 := by rw [read]
    rw [same]
    rfl
  | list given =>
    obtain ⟨name, lines, taken, ending, located, interruptAt, closeFailure⟩ := given
    cases lines with
    | nil => cases read
    | cons first rest =>
      cases read
      simp only [Uninterrupting, List.length_cons] at steady
      simp only [Source.interrupts, Bool.and_eq_false_iff, decide_eq_false_iff_not]
      omega

end ReadLine

end Source

end LineForth
