import Mathlib.Data.List.Basic
import FlatIL.Proofs.Session
import FlatIL.Proofs.Unguarded.Sources

/-!
# Histories of input sources

A history is everything that was asked of input sources, with the replies, from the time when there
were none. It accounts for the sources as they are: a request either fails, and changes nothing, or
registers a new name with all its values, or delivers the next value of a source and moves its
cursor. So the names are those that were registered, in that order, and of each source the values up
to its cursor are those that were delivered. -/

namespace FlatIL

/-! ## Requests -/

/-- The source that a request is about. -/
def Request.name : Request → String
  | register name _ => name
  | read name => name

/-- When a request fails: a name that is registered must be new and not empty, and its values must
all be words; a source that is read must be known and not exhausted. -/
def Request.Fails (inputs : Inputs) : Request → Prop
  | register name values => name = "" ∨ name ∈ inputs.names ∨ ∃ value ∈ values, ¬ value.IsWord
  | read name => name ∉ inputs.names ∨
    ∃ stream, inputs.get? name = some stream ∧ stream.values.length ≤ stream.cursor

namespace Inputs

/-- A name is one of the names exactly if it has a stream. -/
theorem mem_names_iff {inputs : Inputs} {name : String} :
    name ∈ inputs.names ↔ ∃ stream, inputs.get? name = some stream := by
  rw [names, Table.mem_keys_iff, Option.isSome_iff_exists]

/-- What a request can do to input sources. -/
inductive Answers (inputs : Inputs) : Request → Reply → Inputs → Prop where
  /-- The request fails, and nothing changes. -/
  | failed {request : Request} (fails : request.Fails inputs) (error : SessionError) :
      Answers inputs request (.error error) inputs
  /-- A new name is registered with all its values. -/
  | registered {name : String} {values : List Json} {words : List Word} (named : name ≠ "")
      (fresh : inputs.get? name = none) (admitted : values = words.map (.int ·.toNat)) :
      Answers inputs (.register name values) (.ok none) (inputs.insert name { values := words })
  /-- The next value of a source is delivered, and its cursor moves on. -/
  | delivered {name : String} {stream : InputStream} {value : Word}
      (known : inputs.get? name = some stream) (next : stream.values[stream.cursor]? = some value) :
      Answers inputs (.read name) (.ok (some value))
        (inputs.insert name { stream with cursor := stream.cursor + 1 })

/-- A name without a stream is not known. -/
theorem contains_eq_false_iff {inputs : Inputs} {name : String} :
    inputs.contains name = false ↔ inputs.get? name = none := by
  rw [Table.contains, Option.isSome_eq_false_iff, Option.isNone_iff_eq_none]

/-- A registration that does not fail is made. -/
theorem register_isOk {inputs : Inputs} {name : String} {values : List Json}
    (succeeds : ¬ (Request.register name values).Fails inputs) :
    ∃ after, inputs.register name values = .ok after := by
  simp only [Request.Fails, not_or, mem_names_iff, not_exists, not_and, not_not] at succeeds
  obtain ⟨named, fresh, words⟩ := succeeds
  obtain ⟨words, admitted⟩ := forall_isWord_iff.mp words
  have unknown : inputs.get? name = none := Option.eq_none_iff_forall_ne_some.mpr fresh
  exact ⟨_, register_eq_ok.mpr ⟨named, contains_eq_false_iff.mpr unknown, words, admitted, rfl⟩⟩

/-- A request does one of the things that requests can do. -/
theorem answers (inputs : Inputs) (request : Request) :
    inputs.Answers request (inputs.answer request).1 (inputs.answer request).2 := by
  cases request with
  | register name values =>
    rw [answer]
    cases registered : inputs.register name values with
    | ok after =>
      obtain ⟨named, fresh, words, admitted, rfl⟩ := register_eq_ok.mp registered
      exact .registered named (contains_eq_false_iff.mp fresh) admitted
    | error error =>
      refine .failed ?_ _
      by_contra succeeds
      obtain ⟨after, made⟩ := register_isOk succeeds
      rw [registered] at made
      cases made
  | read name =>
    rw [answer]
    obtain ⟨missing, unknown⟩ | ⟨stream, known, outcome⟩ := inputs.read_cases name
    · have fails : (Request.read name).Fails inputs := by
        refine Or.inl ?_
        rw [mem_names_iff, missing]
        rintro ⟨_, found⟩
        cases found
      rw [unknown]
      exact .failed fails _
    · obtain ⟨spent, exhausted⟩ | ⟨value, next, found⟩ := outcome
      · have fails : (Request.read name).Fails inputs :=
          Or.inr ⟨stream, known, List.getElem?_eq_none_iff.mp spent⟩
        rw [exhausted]
        exact .failed fails _
      · rw [found]
        exact .delivered known next

namespace Answers

variable {inputs after : Inputs} {request : Request} {reply : Reply}

/-- A request fails exactly under the conditions for that. -/
theorem fails_iff (answers : inputs.Answers request reply after) :
    (∃ error, reply = .error error) ↔ request.Fails inputs := by
  cases answers with
  | failed fails error => exact ⟨fun _ => fails, fun _ => ⟨error, rfl⟩⟩
  | registered named fresh admitted =>
    refine ⟨fun ⟨_, error⟩ => (nomatch error), ?_⟩
    rintro (empty | known | ⟨value, among, noWord⟩)
    · exact absurd empty named
    · obtain ⟨stream, found⟩ := mem_names_iff.mp known
      rw [fresh] at found
      cases found
    · exact absurd (forall_isWord_iff.mpr ⟨_, admitted⟩ value among) noWord
  | delivered known next =>
    refine ⟨fun ⟨_, error⟩ => (nomatch error), ?_⟩
    rintro (unknown | ⟨other, found, spent⟩)
    · exact absurd (mem_names_iff.mpr ⟨_, known⟩) unknown
    · obtain rfl := Option.some.inj (known.symm.trans found)
      rw [List.getElem?_eq_none spent] at next
      cases next

/-- A request that fails changes nothing. -/
theorem unchanged (answers : inputs.Answers request reply after) (fails : request.Fails inputs) :
    after = inputs := by
  obtain ⟨error, rfl⟩ := answers.fails_iff.mpr fails
  cases answers
  rfl

/-- A request changes no source but its own. -/
theorem frame (answers : inputs.Answers request reply after) {name : String}
    (other : name ≠ request.name) : after.get? name = inputs.get? name := by
  cases answers with
  | failed fails error => rfl
  | registered named fresh admitted => exact (Table.get?_insert _ _ _ _).trans (if_neg other)
  | delivered known next => exact (Table.get?_insert _ _ _ _).trans (if_neg other)

/-- The values of a source never change, and its cursor does not go back. -/
theorem keeps (answers : inputs.Answers request reply after) {name : String}
    {stream : InputStream} (known : inputs.get? name = some stream) :
    ∃ cursor, stream.cursor ≤ cursor ∧ after.get? name = some { stream with cursor } := by
  by_cases same : name = request.name
  · cases answers with
    | failed fails error => exact ⟨stream.cursor, Nat.le_refl _, known⟩
    | registered named fresh admitted =>
      rw [same] at known
      exact nomatch fresh.symm.trans known
    | delivered known' next =>
      subst same
      obtain rfl := Option.some.inj (known'.symm.trans known)
      exact ⟨_, Nat.le_succ _, (Table.get?_insert _ _ _ _).trans (if_pos rfl)⟩
  · exact ⟨stream.cursor, Nat.le_refl _, (answers.frame same).trans known⟩

end Answers

end Inputs

/-! ## Histories -/

/-- Requests with their replies, the earliest first. -/
abbrev History := List (Request × Reply)

/-- What became of input sources, beginning without any, in the course of a history. -/
inductive Account : History → Inputs → Prop where
  | opened : Account [] .empty
  | answered {history : History} {inputs : Inputs} (account : Account history inputs)
      (request : Request) :
      Account (history ++ [(request, (inputs.answer request).1)]) (inputs.answer request).2

namespace History

/-- The name that a request registers, if it does not fail. -/
def enrolled : Request × Reply → Option String
  | (.register name _, .ok _) => some name
  | _ => none

/-- The value that a request delivers from a source. -/
def obtained (name : String) : Request × Reply → Option Word
  | (.read source, .ok reply) => if source = name then reply else none
  | _ => none

/-- The names that were registered, in the order of their registration. -/
def registered (history : History) : List String :=
  history.filterMap enrolled

/-- The values that were read from a source, in the order of their delivery. -/
def delivered (history : History) (name : String) : List Word :=
  history.filterMap (obtained name)

/-- Registrations that were made one after the other. -/
def ofStreams (streams : List (String × List Json)) : History :=
  streams.map fun (name, values) => (.register name values, .ok none)

variable (history : History) (entry : Request × Reply)

/-- The last request may have registered a name. -/
theorem registered_concat :
    registered (history ++ [entry]) = history.registered ++ (enrolled entry).toList := by
  rw [registered, List.filterMap_append]
  cases found : enrolled entry <;> simp [registered, found]

/-- The last request may have delivered a value. -/
theorem delivered_concat (name : String) :
    delivered (history ++ [entry]) name =
      history.delivered name ++ (obtained name entry).toList := by
  rw [delivered, List.filterMap_append]
  cases found : obtained name entry <;> simp [delivered, found]

end History

/-- How a history tells the present from the past. -/
structure Delivers (history : History) (inputs : Inputs) : Prop where
  /-- The names are those that were registered, in that order. -/
  names : inputs.names = history.registered
  /-- No cursor is beyond the end. -/
  atMost : ∀ name stream, inputs.get? name = some stream → stream.cursor ≤ stream.values.length
  /-- What was delivered from a source are its first values. -/
  delivered : ∀ name stream, inputs.get? name = some stream →
    history.delivered name = stream.values.take stream.cursor
  /-- Nothing was delivered from what is no source. -/
  nothing : ∀ name, inputs.get? name = none → history.delivered name = []

namespace Delivers

variable {history : History} {inputs after : Inputs} {request : Request} {reply : Reply}

/-- A request that fails registers and delivers nothing. -/
theorem failed (delivers : Delivers history inputs) (request : Request) (error : SessionError) :
    Delivers (history ++ [(request, .error error)]) inputs := by
  have noName : History.enrolled (request, .error error) = none := by cases request <;> rfl
  have noValue (name : String) : History.obtained name (request, .error error) = none := by
    cases request <;> rfl
  refine ⟨?_, delivers.atMost, fun name stream known => ?_, fun name unknown => ?_⟩
  · rw [History.registered_concat, noName, delivers.names]
    exact (List.append_nil _).symm
  · rw [History.delivered_concat, noValue, delivers.delivered name stream known]
    exact List.append_nil _
  · rw [History.delivered_concat, noValue, delivers.nothing name unknown]
    rfl

/-- A registration appends a name, and nothing of it has been delivered. -/
theorem registered (delivers : Delivers history inputs) {name : String} {values : List Json}
    (words : List Word) (fresh : inputs.get? name = none) :
    Delivers (history ++ [(.register name values, .ok none)])
      (inputs.insert name { values := words }) := by
  have noValue (other : String) :
      History.obtained other (.register name values, .ok none) = none := rfl
  refine ⟨?_, fun other stream known => ?_, fun other stream known => ?_, fun other unknown => ?_⟩
  · rw [History.registered_concat, ← delivers.names, Inputs.names, Table.keys,
      Table.entries_insert_of_none fresh, List.map_append]
    rfl
  · rw [Table.get?_insert] at known
    split at known
    · obtain rfl := Option.some.inj known
      exact Nat.zero_le _
    · exact delivers.atMost other stream known
  · rw [History.delivered_concat, noValue]
    rw [Table.get?_insert] at known
    split at known
    · next same =>
      obtain rfl := Option.some.inj known
      rw [same, delivers.nothing name fresh]
      rfl
    · rw [delivers.delivered other stream known]
      exact List.append_nil _
  · rw [History.delivered_concat, noValue]
    rw [Table.get?_insert] at unknown
    split at unknown
    · cases unknown
    · rw [delivers.nothing other unknown]
      rfl

/-- A value that is delivered is the one at the cursor, which moves behind it. -/
theorem delivered_next (delivers : Delivers history inputs) {name : String} {stream : InputStream}
    {value : Word} (known : inputs.get? name = some stream)
    (next : stream.values[stream.cursor]? = some value) :
    Delivers (history ++ [(.read name, .ok (some value))])
      (inputs.insert name { stream with cursor := stream.cursor + 1 }) := by
  have own : History.obtained name (.read name, .ok (some value)) = some value := if_pos rfl
  have none (other : String) (differ : other ≠ name) :
      History.obtained other (.read name, .ok (some value)) = none := if_neg differ.symm
  refine ⟨?_, fun other found known' => ?_, fun other found known' => ?_, fun other unknown => ?_⟩
  · rw [History.registered_concat, ← delivers.names, Inputs.names,
      Table.keys_insert_of_some known]
    exact (List.append_nil _).symm
  · rw [Table.get?_insert] at known'
    split at known'
    · obtain rfl := Option.some.inj known'
      obtain ⟨within, -⟩ := List.getElem?_eq_some_iff.mp next
      exact within
    · exact delivers.atMost other found known'
  · rw [History.delivered_concat]
    rw [Table.get?_insert] at known'
    split at known'
    · next same =>
      obtain rfl := Option.some.inj known'
      rw [same, own, delivers.delivered name stream known, List.take_add_one, next]
    · next differ =>
      rw [none other differ, delivers.delivered other found known']
      exact List.append_nil _
  · rw [History.delivered_concat]
    rw [Table.get?_insert] at unknown
    split at unknown
    · cases unknown
    · next differ =>
      rw [none other differ, delivers.nothing other unknown]
      rfl

/-- A request and its reply keep a history in step with the sources. -/
theorem answered (delivers : Delivers history inputs)
    (answers : inputs.Answers request reply after) :
    Delivers (history ++ [(request, reply)]) after := by
  cases answers with
  | failed fails error => exact delivers.failed request error
  | registered named fresh admitted => exact delivers.registered _ fresh
  | delivered known next => exact delivers.delivered_next known next

end Delivers

namespace Account

variable {history : History} {inputs : Inputs}

/-- Registrations that are made go on with the history of the sources. -/
theorem registerAll {after : Inputs} {streams : List (String × List Json)}
    (account : Account history inputs) (registered : inputs.registerAll streams = .ok after) :
    Account (history ++ History.ofStreams streams) after := by
  induction streams generalizing history inputs with
  | nil =>
    obtain rfl := Except.ok.inj registered
    rw [History.ofStreams, List.map_nil, List.append_nil]
    exact account
  | cons stream streams ih =>
    obtain ⟨name, values⟩ := stream
    obtain ⟨middle, first, others⟩ := Seeds.bind_eq_ok.mp registered
    have answered : inputs.answer (.register name values) = (.ok none, middle) := by
      rw [Inputs.answer, first]
    have goesOn := account.answered (.register name values)
    rw [answered] at goesOn
    have later := ih goesOn others
    rw [List.append_assoc] at later
    exact later

/-- What became of input sources is in step with their history. -/
theorem delivers (account : Account history inputs) : Delivers history inputs := by
  induction account with
  | opened =>
    exact ⟨rfl, fun _ _ none => (nomatch none), fun _ _ none => (nomatch none), fun _ _ => rfl⟩
  | answered account request ih => exact ih.answered (Inputs.answers _ request)

/-- A part of a history accounts for sources whose values are still the same. -/
theorem past_keeps (account : Account history inputs) {earlier : History}
    (before : earlier <+: history) :
    ∃ past, Account earlier past ∧ ∀ name stream, past.get? name = some stream →
      ∃ cursor, stream.cursor ≤ cursor ∧ inputs.get? name = some { stream with cursor } := by
  induction account with
  | opened =>
    obtain rfl := List.prefix_nil.mp before
    exact ⟨_, .opened, fun _ stream known => ⟨stream.cursor, Nat.le_refl _, known⟩⟩
  | @answered history inputs account request ih =>
    rcases List.prefix_concat_iff.mp before with rfl | before
    · exact ⟨_, .answered account request, fun _ stream known =>
        ⟨stream.cursor, Nat.le_refl _, known⟩⟩
    · obtain ⟨past, accounted, kept⟩ := ih before
      refine ⟨past, accounted, fun name stream known => ?_⟩
      obtain ⟨cursor, forward, found⟩ := kept name stream known
      obtain ⟨last, further, present⟩ := (Inputs.answers inputs request).keeps found
      exact ⟨last, Nat.le_trans forward further, present⟩

/-- A source has the values that it was registered with. -/
theorem values_eq (account : Account history inputs) {name : String} {values : List Json}
    {result : Option Word} (registered : (.register name values, .ok result) ∈ history) :
    ∃ stream, inputs.get? name = some stream ∧ values = stream.values.map (.int ·.toNat) := by
  induction account with
  | opened => cases registered
  | @answered history inputs account request ih =>
    have answers := inputs.answers request
    rcases List.mem_append.mp registered with before | last
    · obtain ⟨stream, known, same⟩ := ih before
      obtain ⟨cursor, -, found⟩ := answers.keeps known
      exact ⟨_, found, same⟩
    · obtain ⟨rfl, replied⟩ := Prod.mk.inj (List.mem_singleton.mp last)
      rw [← replied] at answers
      generalize (inputs.answer (.register name values)).2 = after at answers
      cases answers with
      | registered named fresh admitted =>
        exact ⟨_, (Table.get?_insert _ _ _ _).trans (if_pos rfl), admitted⟩

end Account

/-! ## Two dictionaries -/

namespace Unguarded.Sources

/-- What becomes of two dictionaries by a request. -/
def after (sources : Sources) : Request → Sources
  | .register name values => (sources.register name values).2
  | .read name => (sources.read name).2

/-- What became of two dictionaries, empty at first, in the course of a history. -/
def replay (history : History) : Sources :=
  history.foldl (fun sources entry => sources.after entry.1) {}

/-- A request does to two dictionaries what it does to a table of streams. -/
theorem after_sources (inputs : Inputs) (request : Request) :
    inputs.sources.after request = (inputs.answer request).2.sources := by
  cases request with
  | register name values =>
    rw [after, register_sources, Inputs.answer]
    rcases inputs.register name values with error | words <;> rfl
  | read name =>
    rw [after, read_sources]
    rfl

end Unguarded.Sources

open Unguarded in
/-- A history does to two dictionaries what it does to a table of streams. -/
theorem Account.replay_eq {history : History} {inputs : Inputs} (account : Account history inputs) :
    Sources.replay history = inputs.sources := by
  induction account with
  | opened => rfl
  | answered account request ih =>
    rw [Sources.replay, List.foldl_append]
    exact (congrArg (Sources.after · request) ih).trans (Sources.after_sources _ request)

end FlatIL
