import LineForth.Table
import Mathlib.Data.List.Nodup

/-!
# Tables as logs of definitions

A table answers whatever it is asked as the log of its definitions would: the latest
definition of a name counts, and the names stand in the order in which they first came
up. The table itself is smaller than the log. It finds the place of a name by its number,
and that place is always there: as long as numbers, names and entries are aligned, no
request looks for an entry behind the last one, and every request leaves them aligned.
-/

set_option autoImplicit false

namespace LineForth

/-- The number of a name among others: its place, counted from 1, and 0 if it is not there. -/
def numberAmong (names : List Bytes) (name : Bytes) : Nat :=
  if name ∈ names then names.idxOf name + 1 else 0

/-- One more name, behind the others unless it is one of them. -/
theorem eraseDups_concat (names : List Bytes) (name : Bytes) :
    (names ++ [name]).eraseDups =
      if name ∈ names.eraseDups then names.eraseDups else names.eraseDups ++ [name] := by
  rw [List.eraseDups_append]
  split
  next known =>
    rw [List.mem_eraseDups] at known
    simp only [List.removeAll, List.filter_cons, List.filter_nil, List.elem_eq_mem, known,
      decide_true, Bool.not_true, Bool.false_eq_true, if_false, List.eraseDups_nil, List.append_nil]
  next new =>
    rw [List.mem_eraseDups] at new
    simp only [List.removeAll, List.filter_cons, List.filter_nil, List.elem_eq_mem, new,
      decide_false, Bool.not_false, if_true, List.eraseDups_cons, List.eraseDups_nil]

theorem numberAmong_eq_zero_iff {names : List Bytes} {name : Bytes} :
    numberAmong names name = 0 ↔ name ∉ names := by
  unfold numberAmong
  split <;> simp_all

/-- Names without a repetition are numbered from 1 in their order. -/
theorem map_numberAmong {names : List Bytes} (distinct : names.Nodup) :
    names.map (numberAmong names) = List.range' 1 names.length := by
  apply List.ext_getElem
  · simp
  · intro index bound _
    rw [List.length_map] at bound
    rw [List.getElem_map, numberAmong, if_pos (List.getElem_mem bound),
      distinct.idxOf_getElem, List.getElem_range', Nat.one_mul, Nat.add_comm]

namespace Symbols

variable {symbols : Symbols} {name : Bytes}

theorem Numbered.symbol (numbered : symbols.Numbered) (name : Bytes) :
    symbols.symbol name = numberAmong symbols.strings name := by
  unfold Symbols.symbol numberAmong
  rcases symbols.new_or_place name with new | ⟨index, place⟩
  · rw [numbered.lookup_of_new new, if_neg new]
    rfl
  · have known := List.mem_of_getElem? place
    have first : symbols.strings.idxOf name = index := by
      obtain ⟨bound, rfl⟩ := List.getElem?_eq_some_iff.mp place
      exact numbered.distinct.idxOf_getElem index bound
    rw [numbered.lookup_of_place place, if_pos known, first]
    rfl

theorem Numbered.symbol_eq_zero_iff (numbered : symbols.Numbered) :
    symbols.symbol name = 0 ↔ name ∉ symbols.strings := by
  rw [numbered.symbol, numberAmong_eq_zero_iff]

/-- The names are numbered from 1 in their order. -/
theorem Numbered.map_symbol (numbered : symbols.Numbered) :
    symbols.strings.map symbols.symbol = List.range' 1 symbols.strings.length := by
  rw [← map_numberAmong numbered.distinct]
  exact List.map_congr_left fun name _ => numbered.symbol name

/-- What may be asked of names and their numbers alone. -/
inductive Request where
  | symbolicate (name : Bytes)
  | symbol (name : Bytes)
  | names

inductive Answer where
  /-- The number of the name, and whether it had one before. -/
  | symbolicated (id : Nat) (defined : Bool)
  | symbol (id : Nat)
  | names (names : List Bytes)

def respond (symbols : Symbols) : Request → Answer × Symbols
  | .symbolicate name =>
    let ((id, defined), after) := symbols.symbolicate name
    (.symbolicated id defined, after)
  | .symbol name => (.symbol (symbols.symbol name), symbols)
  | .names => (.names symbols.strings, symbols)

def respondAll (symbols : Symbols) : List Request → List Answer × Symbols
  | [] => ([], symbols)
  | request :: rest =>
    let (answer, after) := symbols.respond request
    let (answers, last) := after.respondAll rest
    (answer :: answers, last)

/-- The names that were to be numbered, after one more request. -/
def Request.extend (asked : List Bytes) : Request → List Bytes
  | .symbolicate name => asked ++ [name]
  | _ => asked

/-- The answer, from the names that were to be numbered before. -/
def Request.answer (asked : List Bytes) : Request → Answer
  | .symbolicate name =>
    .symbolicated (numberAmong (asked ++ [name]).eraseDups name) (name ∈ asked.eraseDups)
  | .symbol name => .symbol (numberAmong asked.eraseDups name)
  | .names => .names asked.eraseDups

def Request.answers (asked : List Bytes) : List Request → List Answer
  | [] => []
  | request :: rest => request.answer asked :: answers (request.extend asked) rest

/-- The names are those that were to be numbered. -/
structure Counts (symbols : Symbols) (asked : List Bytes) : Prop where
  numbered : symbols.Numbered
  strings : symbols.strings = asked.eraseDups

namespace Counts

variable {asked : List Bytes}

theorem empty : Symbols.empty.Counts [] := ⟨numbered_empty, rfl⟩

/-- Numbering a name says whether it was known, and gives it the next number if not. -/
theorem symbolicate (counts : symbols.Counts asked) (name : Bytes) :
    (symbols.symbolicate name).1 =
        (numberAmong ((asked ++ [name]).eraseDups) name, decide (name ∈ asked.eraseDups)) ∧
      (symbols.symbolicate name).2.Counts (asked ++ [name]) := by
  have numbered := counts.numbered.symbolicate name
  have strings : (symbols.symbolicate name).2.strings = (asked ++ [name]).eraseDups := by
    rw [eraseDups_concat, ← counts.strings]
    rcases symbols.new_or_place name with new | ⟨index, place⟩
    · rw [counts.numbered.symbolicate_of_new new, if_neg new]
    · rw [counts.numbered.symbolicate_of_place place, if_pos (List.mem_of_getElem? place)]
  refine ⟨?_, numbered, strings⟩
  rw [← strings, ← numbered.symbol, ← counts.strings, Symbols.symbol]
  rcases symbols.new_or_place name with new | ⟨index, place⟩
  · rw [counts.numbered.symbolicate_of_new new]
    simp [new]
  · rw [counts.numbered.symbolicate_of_place place, counts.numbered.lookup_of_place place]
    simp [List.mem_of_getElem? place]

theorem respond (counts : symbols.Counts asked) (request : Request) :
    (symbols.respond request).1 = request.answer asked ∧
      (symbols.respond request).2.Counts (request.extend asked) := by
  cases request with
  | symbolicate name =>
    obtain ⟨answer, further⟩ := counts.symbolicate name
    refine ⟨?_, further⟩
    simp only [Symbols.respond, answer, Request.answer]
  | symbol name =>
    refine ⟨?_, counts⟩
    rw [Symbols.respond, counts.numbered.symbol, counts.strings]
    rfl
  | names => exact ⟨congrArg Answer.names counts.strings, counts⟩

theorem respondAll (counts : symbols.Counts asked) (requests : List Request) :
    (symbols.respondAll requests).1 = Request.answers asked requests ∧
      (symbols.respondAll requests).2.Counts (requests.foldl Request.extend asked) := by
  induction requests generalizing symbols asked with
  | nil => exact ⟨rfl, counts⟩
  | cons request rest inductionHypothesis =>
    obtain ⟨answer, further⟩ := counts.respond request
    obtain ⟨answers, last⟩ := inductionHypothesis further
    exact ⟨List.cons_eq_cons.mpr ⟨answer, answers⟩, last⟩

end Counts

theorem strings_prefix_respond (symbols : Symbols) (request : Request) :
    symbols.strings <+: (symbols.respond request).2.strings := by
  cases request with
  | symbolicate name =>
    simp only [respond, symbolicate]
    split
    · exact List.prefix_refl _
    · exact List.prefix_append _ _
  | symbol name => exact List.prefix_refl _
  | names => exact List.prefix_refl _

theorem strings_prefix_respondAll (symbols : Symbols) (requests : List Request) :
    symbols.strings <+: (symbols.respondAll requests).2.strings := by
  induction requests generalizing symbols with
  | nil => exact List.prefix_refl _
  | cons request rest inductionHypothesis =>
    exact (strings_prefix_respond symbols request).trans (inductionHypothesis _)

end Symbols

namespace Table

variable {α : Type} {name other : Bytes} {entry : α}

section Put

variable {entries : List (Bytes × α)}

/-- The entries after a definition: the entry of a known name is replaced. -/
def put (name : Bytes) (entry : α) : List (Bytes × α) → List (Bytes × α)
  | [] => [(name, entry)]
  | (other, old) :: rest =>
    if other = name then (name, entry) :: rest else (other, old) :: put name entry rest

theorem lookup_cons_eq (name : Bytes) (head : Bytes × α) (rest : List (Bytes × α)) :
    (head :: rest).lookup name = if name = head.1 then some head.2 else rest.lookup name := by
  rcases head with ⟨first, old⟩
  by_cases same : name = first
  · simp [same]
  · rw [List.lookup_cons, beq_false_of_ne same, if_neg same]

theorem put_of_not_mem (new : name ∉ entries.map Prod.fst) (entry : α) :
    put name entry entries = entries ++ [(name, entry)] := by
  induction entries with
  | nil => rfl
  | cons head rest inductionHypothesis =>
    rw [List.map_cons, List.mem_cons, not_or] at new
    have different : ¬ head.1 = name := fun same => new.1 same.symm
    rw [put, if_neg different, inductionHypothesis new.2, List.cons_append]

theorem lookup_put (name other : Bytes) (entry : α) (entries : List (Bytes × α)) :
    (put name entry entries).lookup other =
      if other = name then some entry else entries.lookup other := by
  induction entries with
  | nil => rw [put, lookup_cons_eq]
  | cons head rest inductionHypothesis =>
    rcases head with ⟨first, old⟩
    by_cases here : first = name
    · rw [put, if_pos here, lookup_cons_eq, lookup_cons_eq, here]
      split <;> rfl
    · rw [put, if_neg here, lookup_cons_eq, lookup_cons_eq, inductionHypothesis]
      by_cases same : other = name
      · have unlike : ¬ other = first := fun equal => here (equal.symm.trans same)
        simp only [if_neg unlike]
      · simp only [if_neg same]

end Put

section Zip

variable {strings : List Bytes} {payloads : List α}

theorem lookup_zip_of_new (new : name ∉ strings) : (strings.zip payloads).lookup name = none := by
  rw [List.lookup_eq_none_iff]
  rintro ⟨other, payload⟩ membership
  have known := (List.of_mem_zip membership).1
  exact bne_iff_ne.mpr fun same => new (same ▸ known)

variable {index : Nat} (distinct : strings.Nodup) (place : strings[index]? = some name)

include distinct place

theorem lookup_zip_of_place : (strings.zip payloads).lookup name = payloads[index]? := by
  induction strings generalizing payloads index with
  | nil => simp at place
  | cons first rest inductionHypothesis =>
    rw [List.nodup_cons] at distinct
    cases payloads with
    | nil => simp
    | cons payload others =>
      rw [List.zip_cons_cons, lookup_cons_eq]
      cases index with
      | zero =>
        rw [List.getElem?_cons_zero, Option.some.injEq] at place
        rw [if_pos place.symm, List.getElem?_cons_zero]
      | succ index =>
        rw [List.getElem?_cons_succ] at place ⊢
        have unlike := ne_of_mem_of_not_mem (List.mem_of_getElem? place) distinct.1
        rw [if_neg unlike, inductionHypothesis distinct.2 place]

theorem put_zip_of_place (same : payloads.length = strings.length) (entry : α) :
    put name entry (strings.zip payloads) = strings.zip (payloads.set index entry) := by
  induction strings generalizing payloads index with
  | nil => simp at place
  | cons first rest inductionHypothesis =>
    rw [List.nodup_cons] at distinct
    cases payloads with
    | nil => simp at same
    | cons payload others =>
      rw [List.zip_cons_cons, put]
      cases index with
      | zero =>
        rw [List.getElem?_cons_zero, Option.some.injEq] at place
        rw [if_pos place, place, List.set_cons_zero, List.zip_cons_cons]
      | succ index =>
        rw [List.getElem?_cons_succ] at place
        have unlike := ne_of_mem_of_not_mem (List.mem_of_getElem? place) distinct.1
        rw [if_neg unlike.symm, List.set_cons_succ, List.zip_cons_cons,
          inductionHypothesis distinct.2 place (Nat.succ.inj same)]

end Zip

end Table

namespace Bindings

open Table (put)

variable {α : Type} {bindings : Bindings α}

namespace Aligned

variable (aligned : bindings.Aligned)

include aligned

theorem map_fst_entries : bindings.entries.map Prod.fst = bindings.symbols.strings :=
  List.map_fst_zip (Nat.le_of_eq aligned.length.symm)

theorem lookup?_eq (name : Bytes) :
    bindings.lookup? name = some (bindings.entries.lookup name) := by
  rcases bindings.symbols.new_or_place name with new | ⟨index, place⟩
  · rw [aligned.lookup?_of_new new, entries, Table.lookup_zip_of_new new]
  · rw [aligned.lookup?_of_place place, entries,
      Table.lookup_zip_of_place aligned.symbols.distinct place]

theorem lookup?_eq_none_iff {name : Bytes} :
    bindings.lookup? name = some none ↔ name ∉ bindings.symbols.strings := by
  rcases bindings.symbols.new_or_place name with new | ⟨index, place⟩
  · simp [aligned.lookup?_of_new new, new]
  · obtain ⟨payload, there⟩ := aligned.exists_payload place
    simp [aligned.lookup?_of_place place, there, List.mem_of_getElem? place]

/-- A definition has a result. It numbers the name, gives back what the name was bound to, and
puts the new entry in its place. -/
theorem define?_eq (name : Bytes) (entry : α) :
    ∃ after, bindings.define? name entry = some
        ((bindings.entries.lookup name, decide (name ∈ bindings.symbols.strings)), after) ∧
      after.Aligned ∧ after.symbols = (bindings.symbols.symbolicate name).2 ∧
      after.entries = put name entry bindings.entries := by
  rcases bindings.symbols.new_or_place name with new | ⟨index, place⟩
  · have result := aligned.define?_of_new new entry
    refine ⟨_, ?_, aligned.of_define? result, rfl, ?_⟩
    · rw [result, entries, Table.lookup_zip_of_new new, decide_eq_false new]
    · have unnamed : name ∉ bindings.entries.map Prod.fst := by
        rwa [aligned.map_fst_entries]
      rw [Table.put_of_not_mem unnamed, entries, entries, aligned.symbols.symbolicate_of_new new,
        List.zip_append aligned.length.symm]
      rfl
  · have result := aligned.define?_of_place place entry
    refine ⟨_, ?_, aligned.of_define? result, ?_, ?_⟩
    · rw [result, entries, Table.lookup_zip_of_place aligned.symbols.distinct place,
        decide_eq_true (List.mem_of_getElem? place)]
    · rw [aligned.symbols.symbolicate_of_place place]
    · rw [entries, entries,
        Table.put_zip_of_place aligned.symbols.distinct place aligned.length]

end Aligned

end Bindings

namespace Table

variable {α : Type} {table : Table α} {name other : Bytes} {entry : α}

theorem names_eq (table : Table α) : table.names = table.entries.map Prod.fst :=
  table.aligned.map_fst_entries.symm

theorem nodup_names (table : Table α) : table.names.Nodup := table.aligned.symbols.distinct

theorem lookup?_eq (table : Table α) (name : Bytes) :
    table.lookup? name = table.entries.lookup name := by
  unfold lookup?
  simp only [table.aligned.lookup?_eq, Option.get_some]
  rfl

theorem bindings_define {answer : Option α × Bool} {after : Bindings α}
    (result : table.bindings.define? name entry = some (answer, after)) :
    (table.define name entry).bindings = after := by
  simp only [define, exchange, result, Option.get_some]

theorem entries_define (table : Table α) (name : Bytes) (entry : α) :
    (table.define name entry).entries = put name entry table.entries := by
  obtain ⟨after, result, -, -, entries⟩ := table.aligned.define?_eq name entry
  rw [Table.entries, bindings_define result, entries, Table.entries]

/-- The names and the entries determine the numbers. -/
theorem eq_of_entries {first second : Table α} (same : first.entries = second.entries) :
    first = second := by
  have strings : first.names = second.names := by rw [names_eq, names_eq, same]
  rcases first with ⟨⟨⟨strings, ids⟩, payloads⟩, aligned⟩
  rcases second with ⟨⟨⟨strings', ids'⟩, payloads'⟩, aligned'⟩
  cases strings
  have numbers : ids = ids' := aligned.symbols.ids.trans aligned'.symbols.ids.symm
  have values : payloads = payloads' := by
    have length : payloads.length = strings.length := aligned.length
    have length' : payloads'.length = strings.length := aligned'.length
    have unzipped := congrArg (List.map Prod.snd) same
    simp only [entries, Bindings.entries] at unzipped
    rwa [List.map_snd_zip (Nat.le_of_eq length), List.map_snd_zip (Nat.le_of_eq length')]
      at unzipped
  cases numbers
  cases values
  rfl

theorem lookup?_define (table : Table α) (name other : Bytes) (entry : α) :
    (table.define name entry).lookup? other =
      if other = name then some entry else table.lookup? other := by
  rw [lookup?_eq, lookup?_eq, entries_define, lookup_put]

theorem lookup?_define_self (table : Table α) (name : Bytes) (entry : α) :
    (table.define name entry).lookup? name = some entry := by
  rw [lookup?_define, if_pos rfl]

theorem mem_names_iff : name ∈ table.names ↔ (table.lookup? name).isSome := by
  rw [lookup?_eq, names, entries, Bindings.entries]
  rcases table.bindings.symbols.new_or_place name with new | ⟨index, place⟩
  · rw [lookup_zip_of_new new]
    simpa using new
  · obtain ⟨payload, there⟩ := table.aligned.exists_payload place
    rw [lookup_zip_of_place table.aligned.symbols.distinct place, there]
    simpa using List.mem_of_getElem? place

theorem names_define (table : Table α) (name : Bytes) (entry : α) :
    (table.define name entry).names =
      if name ∈ table.names then table.names else table.names ++ [name] := by
  obtain ⟨after, result, -, symbols, -⟩ := table.aligned.define?_eq name entry
  rw [names, bindings_define result, symbols]
  rcases table.bindings.symbols.new_or_place name with new | ⟨index, place⟩
  · rw [table.aligned.symbols.symbolicate_of_new new, names, if_neg new]
  · rw [table.aligned.symbols.symbolicate_of_place place, names,
      if_pos (List.mem_of_getElem? place)]

/-- Each name of a table is new to the entries before it. -/
theorem not_mem_names_front {front rest : List (Bytes × α)} {entry : Bytes × α}
    (split : table.entries = front ++ entry :: rest) : entry.1 ∉ front.map Prod.fst := by
  have distinct := table.nodup_names
  rw [names_eq, split, List.map_append, List.map_cons, List.nodup_append] at distinct
  intro membership
  exact distinct.2.2 _ membership _ List.mem_cons_self rfl

/-- The definitions that were asked for, the oldest one first. -/
abbrev Log (α : Type) := List (Bytes × α)

namespace Log

/-- What the name was last bound to. -/
def latest? (log : Log α) (name : Bytes) : Option α := log.reverse.lookup name

/-- Each name once, in the order of the first definitions. -/
def names (log : Log α) : List Bytes := (log.map Prod.fst).eraseDups

theorem latest?_append (log : Log α) (name other : Bytes) (entry : α) :
    latest? (log ++ [(name, entry)]) other =
      if other = name then some entry else log.latest? other := by
  unfold latest?
  rw [List.reverse_append, List.reverse_singleton, List.singleton_append, lookup_cons_eq]

end Log

/-- What may be asked of a table. -/
inductive Request (α : Type) where
  | define (name : Bytes) (entry : α)
  | lookup (name : Bytes)
  | symbol (name : Bytes)
  | names

inductive Answer (α : Type) where
  /-- The entry that was replaced, and whether the name was defined before. -/
  | defined (previous : Option α) (redefined : Bool)
  | found (entry : Option α)
  | symbol (id : Nat)
  | names (names : List Bytes)

namespace Request

/-- The log of the definitions after one more request. -/
def extend (log : Log α) : Request α → Log α
  | .define name entry => log ++ [(name, entry)]
  | _ => log

/-- The answer, from the log of the definitions before. -/
def answer (log : Log α) : Request α → Answer α
  | .define name _ => .defined (log.latest? name) (name ∈ log.names)
  | .lookup name => .found (log.latest? name)
  | .symbol name => .symbol (numberAmong log.names name)
  | .names => .names log.names

def answers (log : Log α) : List (Request α) → List (Answer α)
  | [] => []
  | request :: rest => request.answer log :: answers (request.extend log) rest

end Request

end Table

namespace Bindings

open Table (Log Request Answer)

variable {α : Type} {bindings : Bindings α} {log : Log α}

/-- There is no answer if an entry is looked for at a place that is not there. -/
def respond? (bindings : Bindings α) : Request α → Option (Answer α × Bindings α)
  | .define name entry => do
    let ((previous, redefined), after) ← bindings.define? name entry
    return (.defined previous redefined, after)
  | .lookup name => do
    let found ← bindings.lookup? name
    return (.found found, bindings)
  | .symbol name => some (.symbol (bindings.symbols.symbol name), bindings)
  | .names => some (.names bindings.symbols.strings, bindings)

def respondAll? (bindings : Bindings α) :
    List (Request α) → Option (List (Answer α) × Bindings α)
  | [] => some ([], bindings)
  | request :: rest => do
    let (answer, after) ← bindings.respond? request
    let (answers, last) ← after.respondAll? rest
    return (answer :: answers, last)

/-- The bindings hold what their log of definitions comes to. -/
structure Holds (bindings : Bindings α) (log : Log α) : Prop where
  symbols : bindings.symbols.Counts (log.map Prod.fst)
  length : bindings.payloads.length = bindings.symbols.strings.length
  latest : ∀ name, bindings.entries.lookup name = log.latest? name

namespace Holds

theorem empty : (empty : Bindings α).Holds [] := ⟨.empty, rfl, fun _ => rfl⟩

theorem aligned (holds : bindings.Holds log) : bindings.Aligned :=
  ⟨holds.symbols.numbered, holds.length⟩

theorem define? (holds : bindings.Holds log) (name : Bytes) (entry : α) :
    ∃ after, bindings.define? name entry =
        some ((log.latest? name, decide (name ∈ log.names)), after) ∧
      after.Holds (log ++ [(name, entry)]) := by
  obtain ⟨after, result, aligned, symbols, entries⟩ := holds.aligned.define?_eq name entry
  rw [holds.latest, holds.symbols.strings] at result
  refine ⟨after, result, ?_, aligned.length, ?_⟩
  · rw [symbols, List.map_append, List.map_singleton]
    exact (holds.symbols.symbolicate name).2
  · intro other
    rw [entries, Table.lookup_put, Log.latest?_append, holds.latest]

/-- One request: it is answered as by the log, and the bindings go on holding what that comes
to. -/
theorem respond? (holds : bindings.Holds log) (request : Request α) :
    ∃ after, bindings.respond? request = some (request.answer log, after) ∧
      after.Holds (request.extend log) := by
  cases request with
  | define name entry =>
    obtain ⟨after, result, further⟩ := holds.define? name entry
    exact ⟨after, by simp [Bindings.respond?, result, Request.answer], further⟩
  | lookup name =>
    refine ⟨bindings, ?_, holds⟩
    simp [Bindings.respond?, holds.aligned.lookup?_eq, holds.latest, Request.answer]
  | symbol name =>
    refine ⟨bindings, ?_, holds⟩
    rw [Bindings.respond?, holds.symbols.numbered.symbol, holds.symbols.strings]
    rfl
  | names =>
    refine ⟨bindings, ?_, holds⟩
    rw [Bindings.respond?, holds.symbols.strings]
    rfl

theorem respondAll? (holds : bindings.Holds log) (requests : List (Request α)) :
    ∃ after, bindings.respondAll? requests = some (Request.answers log requests, after) ∧
      after.Holds (requests.foldl Request.extend log) := by
  induction requests generalizing bindings log with
  | nil => exact ⟨bindings, rfl, holds⟩
  | cons request rest inductionHypothesis =>
    obtain ⟨next, answer, further⟩ := holds.respond? request
    obtain ⟨after, answers, last⟩ := inductionHypothesis further
    exact ⟨after, by simp [Bindings.respondAll?, answer, answers, Request.answers], last⟩

end Holds

end Bindings

namespace Table

variable {α : Type}

/-- The table holds what its log of definitions comes to. -/
def Holds (table : Table α) (log : Log α) : Prop := table.bindings.Holds log

namespace Holds

variable {table : Table α} {log : Log α}

theorem empty : (Table.empty : Table α).Holds [] := Bindings.Holds.empty

theorem names (holds : table.Holds log) : table.names = log.names := holds.symbols.strings

theorem lookup? (holds : table.Holds log) (name : Bytes) :
    table.lookup? name = log.latest? name := by
  rw [lookup?_eq, Table.entries, holds.latest]

theorem define (holds : table.Holds log) (name : Bytes) (entry : α) :
    (table.define name entry).Holds (log ++ [(name, entry)]) := by
  obtain ⟨after, result, further⟩ := holds.define? name entry
  rw [Holds, bindings_define result]
  exact further

end Holds

theorem Log.names_prefix (log : Log α) (requests : List (Request α)) :
    log.names <+: (requests.foldl Request.extend log).names := by
  induction requests generalizing log with
  | nil => exact List.prefix_refl _
  | cons request rest inductionHypothesis =>
    refine List.IsPrefix.trans ?_ (inductionHypothesis (request.extend log))
    cases request with
    | define name entry =>
      simp only [Request.extend, names, List.map_append, List.map_singleton, eraseDups_concat]
      split
      · exact List.prefix_refl _
      · exact List.prefix_append _ _
    | lookup name => exact List.prefix_refl _
    | symbol name => exact List.prefix_refl _
    | names => exact List.prefix_refl _

end Table

namespace Bindings

open Table (Log Request)

variable {α : Type}

/-- Bindings that start empty answer every sequence of requests, and they answer as the log of
the definitions among them does. So no entry is ever looked for at a place that is not there.
What has been asked leads to names that stand once each, that are never taken away or moved,
and that are numbered from 1 in their order, with 0 for all others. A definition has a result
in turn, and it changes nothing for other names. Likewise, names that are only numbered are
answered for as the list of all that were to be numbered says. -/
theorem respondAll_refines_log (requests later : List (Request α))
    (countings further : List Symbols.Request) :
    (∃ bindings last, (empty : Bindings α).respondAll? requests =
        some (Request.answers [] requests, bindings) ∧
      bindings.respondAll? later =
        some (Request.answers (requests.foldl Request.extend []) later, last) ∧
      (bindings.symbols.strings.Nodup ∧ bindings.symbols.strings <+: last.symbols.strings) ∧
      (bindings.symbols.strings.map bindings.symbols.symbol =
          List.range' 1 bindings.symbols.strings.length ∧
        ∀ name, bindings.symbols.symbol name = 0 ↔ bindings.lookup? name = some none) ∧
      ∀ name entry, ∃ answer after, bindings.define? name entry = some (answer, after) ∧
        ∀ other, other ≠ name → after.lookup? other = bindings.lookup? other) ∧
    (Symbols.empty.respondAll countings).1 = Symbols.Request.answers [] countings ∧
    let symbols := (Symbols.empty.respondAll countings).2
    (symbols.strings.Nodup ∧ symbols.strings <+: (symbols.respondAll further).2.strings) ∧
    symbols.strings.map symbols.symbol = List.range' 1 symbols.strings.length ∧
    ∀ name, symbols.symbol name = 0 ↔ name ∉ symbols.strings := by
  obtain ⟨bindings, answered, holds⟩ := Holds.empty.respondAll? requests
  obtain ⟨last, answeredLater, held⟩ := holds.respondAll? later
  obtain ⟨counted, counts⟩ := Symbols.Counts.empty.respondAll countings
  refine ⟨⟨bindings, last, answered, answeredLater, ⟨holds.symbols.numbered.distinct, ?_⟩,
    ⟨holds.symbols.numbered.map_symbol, ?_⟩, ?_⟩, counted,
    ⟨counts.numbered.distinct, Symbols.strings_prefix_respondAll _ further⟩,
    counts.numbered.map_symbol, fun _ => counts.numbered.symbol_eq_zero_iff⟩
  · rw [holds.symbols.strings, held.symbols.strings]
    exact Log.names_prefix _ later
  · intro name
    rw [holds.symbols.numbered.symbol_eq_zero_iff, holds.aligned.lookup?_eq_none_iff]
  · intro name entry
    obtain ⟨after, result, aligned, -, entries⟩ := holds.aligned.define?_eq name entry
    refine ⟨_, after, result, ?_⟩
    intro other different
    rw [aligned.lookup?_eq, holds.aligned.lookup?_eq, entries, Table.lookup_put,
      if_neg different]

end Bindings

end LineForth
