import FlatIL.Proofs.Session

/-!
# Forks

A fork has cells of its own for variables, memory and input sources. So the original and the copy
never see what is done to the other, whatever else the original shares its cells with: however acts
on the two alternate, each of them ends as if only its own acts had been done to the state that was
forked.
-/

namespace FlatIL

/-- What belongs to a slot, in its order. -/
def ofSlot {α : Type} (slot : String) (entries : List (String × α)) : List α :=
  (entries.filter (·.1 = slot)).map (·.2)

/-- Does something to runs of a session turn by turn. -/
def Session.acts (session : Session) :
    List (String × Act) → Option (List (String × Reply) × Session)
  | [] => some ([], session)
  | (slot, act) :: turns =>
    match session.act slot act with
    | none => none
    | some (reply, next) =>
      (next.acts turns).map fun rest => ((slot, reply) :: rest.1, rest.2)

/-- Does one thing after another to a state. -/
def State.acts (s : State) : List Act → Option (List Reply × State)
  | [] => some ([], s)
  | act :: acts =>
    match act.on s with
    | none => none
    | some (reply, t) => (t.acts acts).map fun rest => (reply :: rest.1, rest.2)

/-! ## Turns of a slot -/

section

variable {α : Type} {slot other : String} {entry : α} {entries : List (String × α)}

@[simp]
theorem ofSlot_cons_self :
    ofSlot slot ((slot, entry) :: entries) = entry :: ofSlot slot entries := by
  simp [ofSlot]

theorem ofSlot_cons_of_ne (differ : other ≠ slot) :
    ofSlot slot ((other, entry) :: entries) = ofSlot slot entries := by
  simp [ofSlot, differ]

end

/-! ## Separation -/

/-- A slot holds a run with this state in cells of the store. -/
structure Session.Keeps (session : Session) (slot : String) (handle : Handle) (s : State) :
    Prop where
  found : session.slots.get? slot = some handle
  held : session.store.Holds handle
  loaded : session.store.load handle = s

namespace Session

variable {session : Session} {first second : String} {a b : State}

/-- The state that is kept in a slot. -/
theorem Keeps.state?_eq {handle : Handle} (keeps : session.Keeps first handle a) :
    session.state? first = some a := by
  rw [state?, keeps.found, Option.map_some, keeps.loaded]

/-- What is written back to a slot is kept there. -/
theorem Keeps.save {handle : Handle} (keeps : session.Keeps first handle a) (t : State) :
    (session.put first (session.store.save handle t)).Keeps first
      (session.store.save handle t).2 t where
  found := by rw [get?_put, if_pos rfl]
  held := keeps.held.saved t
  loaded := Store.load_save keeps.held t

/-- What is written back to a slot leaves what another one keeps in cells apart. -/
theorem Keeps.save_of_apart {handle other : Handle} (keeps : session.Keeps second other b)
    (apart : handle.Apart other) (differ : second ≠ first) (t : State) :
    (session.put first (session.store.save handle t)).Keeps second other b where
  found := by rw [get?_put, if_neg differ, keeps.found]
  held := keeps.held.save handle t
  loaded := by rw [← keeps.loaded]; exact Store.load_save_of_apart apart t

/-- Two slots hold runs with these states that have no cell in common. -/
def Separate (session : Session) (first second : String) (a b : State) : Prop :=
  ∃ handle other, session.Keeps first handle a ∧ session.Keeps second other b ∧ handle.Apart other

/-- Which of two runs is named first does not matter. -/
theorem Separate.symm (separate : session.Separate first second a b) :
    session.Separate second first b a := by
  obtain ⟨handle, other, keeps, keepsOther, apart⟩ := separate
  exact ⟨other, handle, keepsOther, keeps, apart.env.symm, apart.memory.symm, apart.inputs.symm⟩

/-- An act on one of two separate runs is an act on its state and leaves the other run alone. -/
theorem Separate.act (separate : session.Separate first second a b) (differ : first ≠ second)
    (act : Act) :
    (act.on a = none ∧ session.act first act = none) ∨
      ∃ reply t next, act.on a = some (reply, t) ∧ session.act first act = some (reply, next) ∧
        next.Separate first second t b := by
  obtain ⟨handle, other, keeps, keepsOther, apart⟩ := separate
  rw [act_eq keeps.found, keeps.loaded]
  rcases act.on a with _ | ⟨reply, t⟩
  · exact .inl ⟨rfl, rfl⟩
  · refine .inr ⟨reply, t, _, rfl, rfl, _, other, keeps.save t, ?_, ?_⟩
    · exact keepsOther.save_of_apart apart differ.symm t
    · exact ⟨apart.env, apart.memory, apart.inputs⟩

/-! ## Turns -/

/-- How turns on two separate runs come out: they end if the acts of both slots do, and then each
run has got the replies and the state that its own acts alone lead to. -/
def EndsApart (session : Session) (turns : List (String × Act)) (first second : String)
    (a b : State) : Prop :=
  (session.acts turns = none ∧
      (a.acts (ofSlot first turns) = none ∨ b.acts (ofSlot second turns) = none)) ∨
    ∃ replies last t u, session.acts turns = some (replies, last) ∧
      a.acts (ofSlot first turns) = some (ofSlot first replies, t) ∧
      b.acts (ofSlot second turns) = some (ofSlot second replies, u) ∧
      last.Separate first second t u

/-- Which of two runs is named first does not matter. -/
theorem EndsApart.symm {turns : List (String × Act)}
    (ends : session.EndsApart turns first second a b) :
    session.EndsApart turns second first b a := by
  obtain ⟨unfinished, either⟩ | ⟨replies, last, t, u, finished, ofFirst, ofSecond, separate⟩ := ends
  · exact .inl ⟨unfinished, either.symm⟩
  · exact .inr ⟨replies, last, u, t, finished, ofSecond, ofFirst, separate.symm⟩

/-- A turn of the first run comes before what follows, and the second run does not notice. -/
theorem EndsApart.cons {turns : List (String × Act)} {act : Act} {reply : Reply} {next : Session}
    {t : State} (differ : first ≠ second) (acted : act.on a = some (reply, t))
    (acts : session.act first act = some (reply, next))
    (ends : next.EndsApart turns first second t b) :
    session.EndsApart ((first, act) :: turns) first second a b := by
  rw [EndsApart, ofSlot_cons_self, ofSlot_cons_of_ne differ, Session.acts, acts, State.acts, acted]
  simp only
  obtain ⟨unfinished, either⟩ | ⟨replies, last, t, u, finished, ofFirst, ofSecond, separate⟩ := ends
  · rw [unfinished, Option.map_none]
    refine .inl ⟨rfl, either.imp_left fun none => ?_⟩
    rw [none, Option.map_none]
  · rw [finished, ofFirst, ofSecond]
    refine .inr ⟨_, last, t, u, rfl, ?_, ?_, separate⟩
    · rw [ofSlot_cons_self]
      rfl
    · rw [ofSlot_cons_of_ne differ]

/-- Turns on two separate runs keep them separate. -/
theorem Separate.acts {turns : List (String × Act)} (separate : session.Separate first second a b)
    (differ : first ≠ second) (either : ∀ turn ∈ turns, turn.1 = first ∨ turn.1 = second) :
    session.EndsApart turns first second a b := by
  induction turns generalizing session a b with
  | nil => exact .inr ⟨[], session, a, b, rfl, rfl, rfl, separate⟩
  | cons turn turns ih =>
    obtain ⟨slot, act⟩ := turn
    obtain ⟨here, later⟩ := List.forall_mem_cons.mp either
    rcases here with rfl | rfl
    · obtain ⟨endless, stuck⟩ | ⟨reply, t, next, acted, acts, separate⟩ := separate.act differ act
      · refine .inl ⟨?_, .inl ?_⟩
        · rw [Session.acts, stuck]
        · rw [ofSlot_cons_self, State.acts, endless]
      · exact .cons differ acted acts (ih separate later)
    · obtain ⟨endless, stuck⟩ | ⟨reply, t, next, acted, acts, separate⟩ :=
        separate.symm.act differ.symm act
      · refine .inl ⟨?_, .inr ?_⟩
        · rw [Session.acts, stuck]
        · rw [ofSlot_cons_self, State.acts, endless]
      · exact (EndsApart.cons differ.symm acted acts (ih separate.symm later).symm).symm

/-! ## Forks -/

/-- A run and its fork have the same state and no cell in common. -/
theorem separate_fork {slot copy : String} {handle : Handle}
    (found : session.slots.get? slot = some handle) (held : session.store.Holds handle)
    (differ : slot ≠ copy) :
    (session.fork slot copy).2.Separate slot copy (session.store.load handle)
      (session.store.load handle) := by
  rw [fork, found]
  refine ⟨handle, _, ⟨?_, held.allocate _, Store.load_allocate_of_holds held _⟩,
    ⟨?_, Store.holds_allocate _ _, Store.load_allocate _ _⟩, held.apart_allocate _⟩
  · rw [get?_put, if_neg differ, found]
  · rw [get?_put, if_pos rfl]

/-- However acts on a run and on its fork alternate, each of the two gets the replies and ends in
the state that its own acts, one after the other, lead to from the state that was forked; and the
turns come to an end if the acts of each of them do. In particular the same acts have the same
replies and lead to the same state. -/
theorem fork_isolates {session : Session} {slot copy : String} {handle : Handle}
    (found : session.slots.get? slot = some handle) (held : session.store.Holds handle)
    (differ : slot ≠ copy) :
    let s := session.store.load handle
    let forked := (session.fork slot copy).2
    (session.fork slot copy).1 = .ok () ∧ forked.state? slot = some s ∧
      forked.state? copy = some s ∧
      ∀ turns : List (String × Act), (∀ turn ∈ turns, turn.1 = slot ∨ turn.1 = copy) →
        ((∃ replies last, forked.acts turns = some (replies, last)) ↔
          (∃ replies a, s.acts (ofSlot slot turns) = some (replies, a)) ∧
            ∃ replies b, s.acts (ofSlot copy turns) = some (replies, b)) ∧
        ∀ replies last, forked.acts turns = some (replies, last) →
          ∃ a b, last.state? slot = some a ∧ last.state? copy = some b ∧
            s.acts (ofSlot slot turns) = some (ofSlot slot replies, a) ∧
            s.acts (ofSlot copy turns) = some (ofSlot copy replies, b) ∧
            (ofSlot slot turns = ofSlot copy turns →
              ofSlot slot replies = ofSlot copy replies ∧ a = b) := by
  intro s forked
  have separate : forked.Separate slot copy s s := separate_fork found held differ
  refine ⟨?_, ?_, ?_, ?_⟩
  · rw [fork, found]
  · obtain ⟨_, _, keeps, -, -⟩ := separate
    exact keeps.state?_eq
  · obtain ⟨_, _, -, keeps, -⟩ := separate
    exact keeps.state?_eq
  · intro turns either
    obtain ⟨unfinished, endless⟩ | ⟨replies, last, a, b, finished, alone, aloneCopy, apart⟩ :=
      separate.acts differ either
    · refine ⟨⟨?_, ?_⟩, ?_⟩
      · rintro ⟨replies, last, finished⟩
        rw [unfinished] at finished
        cases finished
      · rintro ⟨⟨_, _, ends⟩, ⟨_, _, endsCopy⟩⟩
        rcases endless with endless | endless
        · rw [endless] at ends
          cases ends
        · rw [endless] at endsCopy
          cases endsCopy
      · intro replies last finished
        rw [unfinished] at finished
        cases finished
    · refine ⟨⟨fun _ => ⟨⟨_, _, alone⟩, _, _, aloneCopy⟩, fun _ => ⟨replies, last, finished⟩⟩, ?_⟩
      intro replies' last' finished'
      obtain ⟨rfl, rfl⟩ := Prod.mk.inj (Option.some.inj (finished.symm.trans finished'))
      obtain ⟨_, _, keeps, keepsCopy, -⟩ := apart
      refine ⟨a, b, keeps.state?_eq, keepsCopy.state?_eq, alone, aloneCopy, fun same => ?_⟩
      rw [same] at alone
      exact Prod.mk.inj (Option.some.inj (alone.symm.trans aloneCopy))

/-- The original shares its sources with a third run, and the fork reads the same source by a step
of a program: each of the two moves its own cursor. -/
theorem fork_isolates_of_shared_sources :
    let seeds : Seeds := { inputs := [("in", [.int 7, .int 8])] }
    let session := ((({} : Session).start "a" seeds none).2.attach "line" "a").2
    let engine := Engine.program ⟨[.assign "x" (.input "in")]⟩
    let turns : List (String × Act) :=
      [("a", .request (.read "in")), ("b", .steps engine 1),
        ("b", .request (.register "more" [])), ("a", .request (.read "in"))]
    ∃ replies last a b, (session.fork "a" "b").2.acts turns = some (replies, last) ∧
      last.state? "a" = some a ∧ last.state? "b" = some b ∧
      (a.inputs.cursors, a.steps) = ([("in", 2)], 0) ∧
      (b.inputs.cursors, b.steps) = ([("in", 1), ("more", 0)], 1) := by
  intro seeds session engine turns
  have found : session.slots.get? "a" = some { env := 0, memory := 0, inputs := 0 } := rfl
  have held : session.store.Holds { env := 0, memory := 0, inputs := 0 } :=
    ⟨by decide, by decide, by decide⟩
  have differ : "a" ≠ "b" := by decide
  obtain ⟨-, -, -, alternate⟩ := fork_isolates found held differ
  obtain ⟨ends, each⟩ := alternate turns (by simp [turns])
  obtain ⟨replies, last, finished⟩ := ends.mpr ⟨⟨_, _, rfl⟩, ⟨_, _, rfl⟩⟩
  obtain ⟨a, b, atA, atB, alone, aloneCopy, -⟩ := each replies last finished
  refine ⟨replies, last, a, b, finished, atA, atB, ?_, ?_⟩
  · obtain ⟨-, rfl⟩ := Prod.mk.inj (Option.some.inj alone)
    rfl
  · obtain ⟨-, rfl⟩ := Prod.mk.inj (Option.some.inj aloneCopy)
    decide +kernel

end Session

end FlatIL
