import LineForth.Proofs.Frame
import LineForth.Proofs.Input.Closables
import LineForth.Proofs.Kept
import LineForth.Setting
import Mathlib.Data.List.Forall2
import Mathlib.Data.List.Perm.Basic

/-!
# Custody of inputs

Whatever was handed to an interpreter is, at every moment, either closed or still held by
the source that it was handed to, and never both. A run closes a front part of what each
source holds, a setting adds to the end of it, and a close closes all the rest. A ledger of
what was handed over, grouped by the sources, goes along with these steps.
-/

set_option autoImplicit false

namespace LineForth

namespace Journal

/-- What is closed in the course of the journal. -/
def closings (journal : Journal) : List Closable := Event.closings journal.events

theorem closings_record (journal : Journal) (events : List Event) :
    (journal.record events).closings = journal.closings ++ Event.closings events := by
  simp [closings, record, Journal.events, Event.closings, List.filterMap_map]

end Journal

namespace Console

theorem closings_flushEndpoint (endpoint : Endpoint) (bank : Bank) :
    Event.closings (bank.flush endpoint).1.events = [] := by
  unfold Bank.flush
  split
  next number =>
    split
    next => rfl
    next device _ =>
      simp only [Device.flush]
      cases device.kind <;> rfl
  next number =>
    split
    next => rfl
    next => split <;> rfl

/-- A flush closes nothing. -/
theorem closings_flush (console : Console) :
    Event.closings (Output.flush console).1.events = [] := by
  have all (members : List Endpoint) (bank : Bank) :
      Event.closings (Sink.flushAll Bank.flush members bank).1.events = [] := by
    induction members generalizing bank with
    | nil => rfl
    | cons member rest inductionHypothesis =>
      have first := closings_flushEndpoint member bank
      unfold Sink.flushAll
      split
      next panic events after same =>
        rw [same] at first
        exact first
      next outcome events after _ same =>
        rw [same] at first
        exact (Event.closings_append _ _).trans (by rw [first, inductionHypothesis]; rfl)
  rcases console with ⟨bank, _ | member | members⟩
  · rfl
  · exact closings_flushEndpoint member bank
  · exact all members bank

end Console

namespace Machine

/-- Nothing is closed from one machine to the other. -/
def ClosesNothing (before after : Machine Console) : Prop :=
  after.journal.closings = before.journal.closings

namespace ClosesNothing

theorem framing : LineFraming ClosesNothing where
  refl _ := rfl
  trans first second := Eq.trans second first
  trace m mark message := by
    unfold ClosesNothing
    rw [trace_eq]
    cases (m.tracer.log mark message).1 <;> simp [Journal.closings, Journal.events]
  update _ _ _ _ _ := rfl
  leave body := body
  flush m := by
    unfold ClosesNothing
    rw [flush, Journal.closings_record, m.output.closings_flush, List.append_nil]

theorem farewell (m : Machine Console) : ClosesNothing m m.farewell.2 := by
  apply framing.trans (framing.trace m (text ">") exitCommand)
  exact framing.trans (framing.write _ _ _) (framing.finish _)

theorem reportFailure (m : Machine Console) (location : Option Location) (failure : Failure) :
    ClosesNothing m (m.reportFailure location failure).2 := by
  have noted (m : Machine Console) : ClosesNothing m (m.noteLine location failure) := by
    unfold noteLine
    split
    · simp [ClosesNothing, Journal.closings, Journal.events]
    · exact framing.refl m
  apply framing.trans (framing.trans (framing.trace m (text "!") failure.detail) (noted _))
  have written := framing.write ((m.trace (text "!") failure.detail).noteLine location failure)
    .direct (text "Error: " ++ failure.message ++ [Bytes.newline])
  unfold Machine.reportFailure
  dsimp only
  split
  next after same =>
    rw [same] at written
    exact framing.trans written (framing.flush after)
  next => exact written

theorem evalReporting (m : Machine Console) (location : Option Location) (line : Bytes) :
    ClosesNothing m (m.evalReporting location line).2 := by
  have evaluated := framing.eval line m
  unfold Machine.evalReporting
  split
  next failure after same =>
    rw [same] at evaluated
    exact framing.trans evaluated (reportFailure after location failure)
  next => exact evaluated

end ClosesNothing

end Machine

/-- Each source has closed a front part of what it held, in the order of the sources. -/
inductive Sheds : List Source → List Closable → List Source → Prop
  | nil : Sheds [] [] []
  | cons {source after : Source} {rest others : List Source} {front more : List Closable}
      (held : source.closables = front ++ after.closables) (same : after.isFeed = source.isFeed)
      (later : Sheds rest more others) : Sheds (source :: rest) (front ++ more) (after :: others)

namespace Sheds

theorem refl (sources : List Source) : Sheds sources [] sources := by
  induction sources with
  | nil => exact nil
  | cons source rest inductionHypothesis =>
    have kept : Sheds (source :: rest) ([] ++ []) (source :: rest) :=
      cons rfl rfl inductionHypothesis
    exact kept

theorem perm {sources others : List Source} {front : List Closable}
    (sheds : Sheds sources front others) :
    (front ++ others.flatMap Source.closables).Perm (sources.flatMap Source.closables) := by
  induction sheds with
  | nil => exact .nil
  | @cons source after rest others front more held same later inductionHypothesis =>
    simp only [List.flatMap_cons, held, List.append_assoc]
    apply List.Perm.append_left
    calc more ++ (after.closables ++ others.flatMap Source.closables)
        |>.Perm (after.closables ++ (more ++ others.flatMap Source.closables)) :=
          List.perm_append_comm_assoc _ _ _
      _ |>.Perm (after.closables ++ rest.flatMap Source.closables) :=
          inductionHypothesis.append_left _

end Sheds

namespace Interpreter

/-- What a run closes while it reads one source. -/
theorem exists_closings_drain (context : Context) (source : Source)
    (m : Machine Console) :
    ∃ front, source.closables = front ++ (drain context source m).source.closables ∧
      (drain context source m).source.isFeed = source.isFeed ∧
      (drain context source m).machine.journal.closings = m.journal.closings ++ front := by
  fun_induction drain context source m with
  | case1 context source m failure signal => exact ⟨[], rfl, rfl, (List.append_nil _).symm⟩
  | case2 context source m silent failure events after received ended =>
    obtain ⟨held, same⟩ := Source.closables_of_readLine received
    exact ⟨_, held, same, Journal.closings_record _ _⟩
  | case3 context source m silent failure events after received notEnded =>
    obtain ⟨held, same⟩ := Source.closables_of_readLine received
    exact ⟨_, held, same, Journal.closings_record _ _⟩
  | case4 context source m silent line events after received exits outcome left said =>
    obtain ⟨held, same⟩ := Source.closables_of_readLine received
    have kept := Machine.ClosesNothing.farewell (m.record events)
    rw [said] at kept
    exact ⟨_, held, same, kept.trans (Journal.closings_record _ _)⟩
  | case5 context source m silent line events after received stays evaluated done interrupt
      inductionHypothesis =>
    obtain ⟨held, same⟩ := Source.closables_of_readLine received
    have kept := Machine.ClosesNothing.evalReporting (m.record events) after.location? line
    rw [done] at kept
    obtain ⟨front, rest, still, closings⟩ := inductionHypothesis
    refine ⟨Event.closings events ++ front, ?_, still.trans same, ?_⟩
    · rw [held, rest, List.append_assoc]
    · rw [closings, ← List.append_assoc]
      exact congrArg (· ++ front) (kept.trans (Journal.closings_record _ _))
  | case6 context source m silent line events after received stays outcome evaluated stopped
      result =>
    obtain ⟨held, same⟩ := Source.closables_of_readLine received
    have kept := Machine.ClosesNothing.evalReporting (m.record events) after.location? line
    rw [result] at kept
    exact ⟨_, held, same, kept.trans (Journal.closings_record _ _)⟩

theorem exists_closings_runSources (context : Context) (sources : List Source)
    (m : Machine Console) :
    ∃ front, Sheds sources front (runSources context sources m).2.1 ∧
      (runSources context sources m).2.2.journal.closings = m.journal.closings ++ front := by
  induction sources generalizing context m with
  | nil =>
    refine ⟨[], .nil, ?_⟩
    rw [List.append_nil]
    exact Machine.ClosesNothing.framing.flush m
  | cons source rest inductionHypothesis =>
    obtain ⟨front, held, same, closings⟩ := exists_closings_drain context source m
    simp only [runSources]
    split
    next outcome further after left drained =>
      rw [drained] at held same closings
      refine ⟨front ++ [], .cons held same (.refl rest), ?_⟩
      rw [List.append_nil]
      exact closings
    next further after left drained =>
      rw [drained] at held same closings
      obtain ⟨more, later, found⟩ := inductionHypothesis further left
      refine ⟨front ++ more, .cons held same later, ?_⟩
      rw [found, closings, List.append_assoc]

end Interpreter

/-- What was handed to a source, that which it has closed since included. -/
structure Share where
  isFeed : Bool
  inputs : List Closable

/-- What was handed to a session. -/
structure Ledger where
  /-- The inputs of each source that the session has closed. -/
  past : List (List Closable)
  /-- The inputs of each source that it still reads from. -/
  current : List Share

/-- The source of one stream. -/
def Source.ofStream (stream : Stream) : Source := .feed (Feed.ofQueue [stream])

namespace Setting

/-- The source that a setting hands over, taken for itself. -/
def source? : Setting → Option Source
  | input stream => some (.ofStream stream)
  | lines list => some (.list list)
  | _ => none

def closables : Setting → List Closable
  | input stream => stream.closables
  | lines list => [.list list.handle]
  | _ => []

end Setting

namespace Ledger

def empty : Ledger := ⟨[], []⟩

/-- The inputs, grouped by the sources that they share. -/
def groups (ledger : Ledger) : List (List Closable) :=
  ledger.past ++ ledger.current.map Share.inputs

/-- A stream shares the last feed with the streams before it. -/
def addStream (stream : Stream) (shares : List Share) : List Share :=
  match shares.getLast? with
  | some ⟨true, inputs⟩ => shares.dropLast ++ [⟨true, inputs ++ stream.closables⟩]
  | _ => shares ++ [⟨true, stream.closables⟩]

def supply (ledger : Ledger) : Setting → Ledger
  | .input stream => { ledger with current := addStream stream ledger.current }
  | .lines list =>
    { ledger with current := ledger.current ++ [⟨false, [.list list.handle]⟩] }
  | _ => ledger

def supplyAll (ledger : Ledger) (settings : List Setting) : Ledger := settings.foldl supply ledger

/-- All sources are closed. -/
def retire (ledger : Ledger) : Ledger := ⟨ledger.groups, []⟩

theorem flatten_groups_supply (ledger : Ledger) (setting : Setting) :
    (ledger.supply setting).groups.flatten = ledger.groups.flatten ++ setting.closables := by
  cases setting with
  | input stream =>
    simp only [supply, groups, Setting.closables, addStream]
    split
    next inputs last =>
      obtain ⟨front, same⟩ := List.getLast?_eq_some_iff.mp last
      simp [same]
    next => simp
  | lines list => simp [supply, groups, Setting.closables]
  | output | tee | maxDepth | echo | trace | lineErrors => exact (List.append_nil _).symm

theorem flatten_groups_supplyAll (ledger : Ledger) (settings : List Setting) :
    (ledger.supplyAll settings).groups.flatten =
      ledger.groups.flatten ++ settings.flatMap Setting.closables := by
  induction settings generalizing ledger with
  | nil => exact (List.append_nil _).symm
  | cons setting rest inductionHypothesis =>
    rw [supplyAll, List.foldl_cons, ← supplyAll, inductionHypothesis, flatten_groups_supply,
      List.append_assoc, List.flatMap_cons]

theorem groups_retire (ledger : Ledger) : ledger.retire.groups = ledger.groups :=
  List.append_nil _

end Ledger

theorem exists_of_forall₂_concat {α β : Type} {R : α → β → Prop} {groups : List α} {front : List β}
    {last : β} (related : List.Forall₂ R groups (front ++ [last])) :
    ∃ others group, groups = others ++ [group] ∧ List.Forall₂ R others front ∧ R group last := by
  rw [← List.forall₂_reverse_iff, List.reverse_concat, List.forall₂_cons_right_iff] at related
  obtain ⟨group, others, first, rest, same⟩ := related
  refine ⟨others.reverse, group, ?_, ?_, first⟩
  · rw [← groups.reverse_reverse, same, List.reverse_cons]
  · rw [← List.forall₂_reverse_iff, List.reverse_reverse]
    exact rest

/-- The source holds what is left of its share. -/
structure Keeps (closed : List Closable) (share : Share) (source : Source) : Prop where
  isFeed : share.isFeed = source.isFeed
  inputs : ∃ front, front.Sublist closed ∧ share.inputs = front ++ source.closables

/-- Everything in the ledger is either closed or held by the source that it was handed to. -/
structure Custody (closed : List Closable) (ledger : Ledger) (sources : List Source) : Prop where
  past : ∀ inputs ∈ ledger.past, inputs.Sublist closed
  current : List.Forall₂ (Keeps closed) ledger.current sources
  whole : (closed ++ sources.flatMap Source.closables).Perm ledger.groups.flatten

namespace Keeps

variable {closed : List Closable}

theorem sheds {shares : List Share} {sources others : List Source} {front : List Closable}
    (keeps : List.Forall₂ (Keeps closed) shares sources) (sheds : Sheds sources front others) :
    List.Forall₂ (Keeps (closed ++ front)) shares others := by
  -- Sources further on close more, so the induction adds to what is closed on both sides.
  suffices go : ∀ before, List.Forall₂ (Keeps (closed ++ (before ++ front))) shares others from
    go []
  induction sheds generalizing shares with
  | nil =>
    cases keeps
    exact fun _ => .nil
  | @cons source after rest others front more held same later inductionHypothesis =>
    intro before
    cases keeps with
    | @cons share _ shares _ first others =>
      obtain ⟨earlier, closedBefore, inputs⟩ := first.inputs
      have rest := inductionHypothesis others (before ++ front)
      rw [List.append_assoc] at rest
      refine .cons ⟨first.isFeed.trans same.symm, earlier ++ front, ?_, ?_⟩ rest
      · apply closedBefore.append
        exact (List.sublist_append_left front more).trans (List.sublist_append_right before _)
      · rw [inputs, held, List.append_assoc]

theorem addStream {shares : List Share} {sources : List Source}
    (keeps : List.Forall₂ (Keeps closed) shares sources) (stream : Stream) (m : Machine Console) :
    List.Forall₂ (Keeps closed) (Ledger.addStream stream shares)
      (Interpreter.addStream ⟨m, sources⟩ stream).sources := by
  have alone : Keeps closed ⟨true, stream.closables⟩ (.feed (Feed.ofQueue [stream])) :=
    ⟨rfl, [], List.nil_sublist _, (List.append_nil _).symm⟩
  rcases sources.eq_nil_or_concat' with rfl | ⟨front, last, rfl⟩
  · cases keeps
    exact .cons alone .nil
  · obtain ⟨others, ⟨isFeed, inputs⟩, rfl, rest, kept⟩ := exists_of_forall₂_concat keeps
    obtain ⟨same, before, closedBefore, split⟩ := kept
    cases last with
    | feed feed =>
      cases same
      simp only [Ledger.addStream, Interpreter.addStream, List.getLast?_concat,
        List.dropLast_concat]
      refine List.rel_append rest (.cons ⟨rfl, before, closedBefore, ?_⟩ .nil)
      dsimp only at split
      rw [split, List.append_assoc]
      exact congrArg (before ++ ·) (feed.closables_enqueue stream).symm
    | list list =>
      cases same
      simp only [Ledger.addStream, Interpreter.addStream, List.getLast?_concat]
      exact List.rel_append keeps (.cons alone .nil)

end Keeps

namespace Interpreter

theorem sources_replaceOutput (target : Target) (interpreter : OnConsole) :
    (interpreter.replaceOutput target).2.sources = interpreter.sources := by
  unfold replaceOutput
  split <;> rfl

/-- Whatever is listed source by source and stream by stream, a setting adds its own at the end. -/
theorem flatMap_apply {α : Type} {list : Source → List α}
    (enqueued : ∀ feed stream,
      list (.feed (feed.enqueue stream)) = list (.feed feed) ++ list (.ofStream stream))
    (setting : Setting) (interpreter : OnConsole) :
    (interpreter.apply setting).2.sources.flatMap list =
      interpreter.sources.flatMap list ++ setting.source?.toList.flatMap list := by
  cases setting with
  | input stream =>
    simp only [apply, addStream]
    split
    next feed last =>
      obtain ⟨front, same⟩ := List.getLast?_eq_some_iff.mp last
      simp [same, enqueued, Setting.source?]
    next => simp [Setting.source?, Source.ofStream]
  | lines given => simp [apply, addList, Setting.source?]
  | output target =>
    simp only [apply, sources_replaceOutput]
    exact (List.append_nil _).symm
  | tee | maxDepth | echo | trace | lineErrors => exact (List.append_nil _).symm

/-- A setting adds to the end of what is held. -/
theorem closables_apply (setting : Setting) (interpreter : OnConsole) :
    (interpreter.apply setting).2.sources.flatMap Source.closables =
      interpreter.sources.flatMap Source.closables ++ setting.closables := by
  have alone (stream : Stream) : (Source.ofStream stream).closables = stream.closables := by
    simp [Source.ofStream, Source.closables, Feed.closables, Feed.ofQueue, Feed.unclosed]
  have handed : setting.source?.toList.flatMap Source.closables = setting.closables := by
    cases setting with
    | input stream => exact (List.flatMap_singleton _ _).trans (alone stream)
    | lines | output | tee | maxDepth | echo | trace | lineErrors => rfl
  rw [← handed]
  apply flatMap_apply
  intro feed stream
  rw [alone]
  exact feed.closables_enqueue stream

end Interpreter

namespace Custody

variable {closed : List Closable} {ledger : Ledger} {sources : List Source}

theorem empty : Custody [] .empty [] :=
  ⟨by simp [Ledger.empty], .nil, .nil⟩

/-- What a run closes. -/
theorem sheds {others : List Source} {front : List Closable}
    (custody : Custody closed ledger sources) (sheds : Sheds sources front others) :
    Custody (closed ++ front) ledger others := by
  refine ⟨?_, Keeps.sheds custody.current sheds, ?_⟩
  · intro inputs membership
    exact (custody.past inputs membership).trans (List.sublist_append_left _ _)
  · rw [List.append_assoc]
    exact (sheds.perm.append_left closed).trans custody.whole

theorem supply (custody : Custody closed ledger sources) (setting : Setting)
    (m : Machine Console) :
    Custody closed (ledger.supply setting) (Interpreter.apply setting ⟨m, sources⟩).2.sources := by
  refine ⟨?_, ?_, ?_⟩
  · cases setting <;> exact custody.past
  · cases setting with
    | input stream => exact Keeps.addStream custody.current stream m
    | lines list =>
      apply List.rel_append custody.current
      exact .cons ⟨rfl, [], List.nil_sublist _, rfl⟩ .nil
    | output target =>
      simp only [Interpreter.apply, Interpreter.sources_replaceOutput]
      exact custody.current
    | tee | maxDepth | echo | trace | lineErrors => exact custody.current
  · rw [Interpreter.closables_apply, ← List.append_assoc, Ledger.flatten_groups_supply]
    exact custody.whole.append_right _

/-- Every group of inputs is closed up to some point, and held from there on. -/
theorem exists_split (custody : Custody closed ledger sources) {group : List Closable}
    (membership : group ∈ ledger.groups) :
    ∃ front rest, group = front ++ rest ∧ front.Sublist closed ∧
      (rest = [] ∨ ∃ source ∈ sources, rest = source.closables) := by
  have held {shares : List Share} {sources : List Source}
      (keeps : List.Forall₂ (Keeps closed) shares sources) :
      group ∈ shares.map Share.inputs →
        ∃ front, front.Sublist closed ∧ ∃ source ∈ sources, group = front ++ source.closables := by
    induction keeps with
    | nil => simp
    | @cons share source shares sources first rest inductionHypothesis =>
      intro membership
      rcases List.mem_cons.mp membership with rfl | later
      · obtain ⟨front, closedBefore, split⟩ := first.inputs
        exact ⟨front, closedBefore, source, List.mem_cons_self, split⟩
      · obtain ⟨front, closedBefore, source, holds, split⟩ := inductionHypothesis later
        exact ⟨front, closedBefore, source, List.mem_cons_of_mem _ holds, split⟩
  rcases List.mem_append.mp membership with past | current
  · exact ⟨group, [], (List.append_nil _).symm, custody.past group past, .inl rfl⟩
  · obtain ⟨front, closedBefore, source, holds, split⟩ := held custody.current current
    exact ⟨front, _, split, closedBefore, .inr ⟨source, holds, rfl⟩⟩

/-- What a close closes. -/
theorem retire (custody : Custody closed ledger sources) :
    Custody (closed ++ sources.reverse.flatMap Source.closables) ledger.retire [] := by
  refine ⟨?_, .nil, ?_⟩
  · intro group membership
    obtain ⟨front, rest, rfl, closedBefore, held⟩ := custody.exists_split membership
    apply closedBefore.append
    rcases held with rfl | ⟨source, holds, rfl⟩
    · exact List.nil_sublist _
    · rw [List.flatMap]
      apply List.sublist_flatten_of_mem
      exact List.mem_map_of_mem (List.mem_reverse.mpr holds)
  · rw [Ledger.groups_retire, List.flatMap_nil, List.append_nil]
    apply List.Perm.trans _ custody.whole
    apply List.Perm.append_left
    exact sources.reverse_perm.flatMap_right _

/-- If all inputs are distinct, none is closed twice, and the inputs of a group are closed
in its order. -/
theorem nodup_ordered (custody : Custody closed ledger sources)
    (distinct : ledger.groups.flatten.Nodup) :
    closed.Nodup ∧ ∀ group ∈ ledger.groups, closed.filter (· ∈ group) <+: group := by
  rw [← custody.whole.nodup_iff, List.nodup_append] at distinct
  obtain ⟨once, -, apart⟩ := distinct
  refine ⟨once, ?_⟩
  intro group membership
  obtain ⟨front, rest, rfl, closedBefore, held⟩ := custody.exists_split membership
  have same : front = closed.filter (· ∈ front ++ rest) := by
    apply List.Sublist.eq_of_length_le
    · have filtered := closedBefore.filter (· ∈ front ++ rest)
      rwa [List.filter_eq_self.mpr (by simp +contextual)] at filtered
    · apply List.Nodup.length_le_of_subset (once.filter _)
      intro closable found
      obtain ⟨done, member⟩ := List.mem_filter.mp found
      rcases List.mem_append.mp (by simpa using member) with here | still
      · exact here
      · rcases held with rfl | ⟨source, holds, rfl⟩
        · exact absurd still List.not_mem_nil
        · exact absurd rfl (apart _ done _ (List.mem_flatMap.mpr ⟨source, holds, still⟩))
  rw [← same]
  exact List.prefix_append front rest

end Custody

end LineForth
