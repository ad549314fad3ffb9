import FlatIL.Proofs.Dialogue
import FlatIL.Proofs.History
import Mathlib.Data.List.Forall2
import Mathlib.Data.List.Induction

/-!
# What the runs of a session get from their sources

Runs of a session may share their input sources, and a fork gets a copy of its own. Whatever is done
in a session, each of its input sources can be accounted for by a history: those of the original up
to the fork for a copy, and from then on all that was asked of it, from outside or by evaluations,
steps and runs of whatever run shares it. -/

namespace FlatIL

/-- What can be done in a session. -/
inductive Deed where
  /-- Start a run in a slot, on the input sources of another slot if one is named. -/
  | start (slot : String) (seeds : Seeds) (sharing : Option String)
  /-- Start a run in a slot that shares all cells of another. -/
  | attach (slot other : String)
  /-- Copy a run into a slot. -/
  | fork (slot copy : String)
  /-- Do something to the run in a slot. -/
  | act (slot : String) (act : Act)

/-- What becomes of a session, if a run without a budget ends within its patience. -/
def Session.perform (session : Session) : Deed → Option Session
  | .start slot seeds sharing => some (session.start slot seeds sharing).2
  | .attach slot other => some (session.attach slot other).2
  | .fork slot copy => some (session.fork slot copy).2
  | .act slot act => (session.act slot act).map (·.2)

/-! ## Records -/

/-- What an act asks of the input sources of a state, and what they reply. -/
inductive Act.Asks (s : State) : Act → History → Prop where
  /-- A request from outside is asked as it is. -/
  | request (asked : Request) : Asks s (.request asked) [(asked, (s.inputs.answer asked).1)]
  /-- Anything else asks what a dialogue asks that tells what it does. -/
  | dialogue {act : Act} (inside : ∀ asked, act ≠ .request asked)
      {dialogue : Dialogue (Option (Reply × State))} (told : dialogue.Tells act.on s) :
      Asks s act (dialogue.exchanges s.inputs)

/-- How a deed goes down in the histories of the input sources of a session: new sources begin with
their registrations, a copy begins with all that is known of the original, and an act is entered for
the sources of its run. -/
def Deed.Enters (deed : Deed) (session : Session) (before after : List History) : Prop :=
  match deed with
  | .start _ seeds none =>
    match seeds.start with
    | .error _ => after = before
    | .ok _ => after = before ++ [.ofStreams seeds.inputs]
  | .start _ _ (some _) => after = before
  | .attach _ _ => after = before
  | .fork slot _ =>
    match session.slots.get? slot with
    | none => after = before
    | some handle => after = before ++ (before[handle.inputs]?).toList
  | .act slot done =>
    match session.slots.get? slot with
    | none => after = before
    | some handle => ∃ exchanges, Act.Asks (session.store.load handle) done exchanges ∧
      after = before.modify handle.inputs (· ++ exchanges)

/-- The histories of the input sources of a session after deeds that began with nothing. -/
inductive Recorded : List Deed → Session → List History → Prop where
  | opened : Recorded [] {} []
  | entered {deeds : List Deed} {session next : Session} {before after : List History}
      (recorded : Recorded deeds session before) {deed : Deed}
      (performed : session.perform deed = some next)
      (enters : deed.Enters session before after) : Recorded (deeds ++ [deed]) next after

/-! ## What acts ask -/

/-- Every act asks something of input sources, if only nothing. -/
theorem Act.exists_asks (act : Act) (s : State) : ∃ exchanges, Act.Asks s act exchanges := by
  by_cases outside : ∃ asked, act = .request asked
  · obtain ⟨asked, rfl⟩ := outside
    exact ⟨_, .request asked⟩
  · have inside : ∀ asked, act ≠ .request asked := fun asked same => outside ⟨asked, same⟩
    obtain ⟨dialogue, told⟩ := Act.converses inside s
    exact ⟨_, .dialogue inside told⟩

/-- What is said in a dialogue goes on with the history of the sources. -/
theorem Account.dialogue {ρ : Type} (dialogue : Dialogue ρ) {history : History} {inputs : Inputs}
    (account : Account history inputs) :
    Account (history ++ dialogue.exchanges inputs) (dialogue.run inputs).2 := by
  induction dialogue generalizing history inputs with
  | done result =>
    rw [Dialogue.exchanges, List.append_nil]
    exact account
  | ask source next ih =>
    have later := ih (inputs.read source).1 (account.answered (.read source))
    rw [List.append_assoc] at later
    exact later

/-- What an act asks goes on with the history of the sources. -/
theorem Account.act {act : Act} {s t : State} {exchanges history : History} {reply : Reply}
    (account : Account history s.inputs) (asks : Act.Asks s act exchanges)
    (acted : act.on s = some (reply, t)) : Account (history ++ exchanges) t.inputs := by
  cases asks with
  | request asked =>
    obtain ⟨-, rfl⟩ := Prod.mk.inj (Option.some.inj acted)
    exact account.answered asked
  | @dialogue _ inside dialogue told =>
    have tells : dialogue.tell s.inputs = some (reply, t) := (told s.inputs).symm.trans acted
    obtain ⟨done, -, made⟩ := Option.map_eq_some_iff.mp tells
    obtain ⟨-, rfl⟩ := Prod.mk.inj made
    exact account.dialogue dialogue

/-! ## What deeds leave -/

section

variable {α β : Type} {R : α → β → Prop} {xs : List α} {ys : List β}

/-- What stands at a position of the second list is matched in the first one. -/
theorem forall₂_getElem? (matched : List.Forall₂ R xs ys) {n : Nat} {y : β}
    (found : ys[n]? = some y) : ∃ x, xs[n]? = some x ∧ R x y := by
  induction matched generalizing n with
  | nil => cases found
  | @cons x y xs ys related _ ih =>
    cases n with
    | zero =>
      obtain rfl := Option.some.inj found
      exact ⟨x, rfl, related⟩
    | succ n => exact ih found

/-- Two lists stay matched when both are changed at the same position. -/
theorem forall₂_modify_set (matched : List.Forall₂ R xs ys) {n : Nat} {f : α → α} {z : β}
    (changed : ∀ x y, xs[n]? = some x → ys[n]? = some y → R x y → R (f x) z) :
    List.Forall₂ R (xs.modify n f) (ys.set n z) := by
  induction matched generalizing n with
  | nil => cases n <;> exact .nil
  | @cons x y xs ys related rest ih =>
    cases n with
    | zero => exact .cons (changed x y rfl rfl related) rest
    | succ n => exact .cons related (ih changed)

end

namespace Session

/-- The cells of all runs of a session are in its store. -/
def Sound (session : Session) : Prop :=
  ∀ slot handle, session.slots.get? slot = some handle → session.store.Holds handle

/-- A session stays sound when a run is put into a slot that leaves all cells in the store. -/
theorem Sound.put {session : Session} (sound : session.Sound) (slot : String)
    {placed : Store × Handle} (held : placed.1.Holds placed.2)
    (kept : ∀ handle, session.store.Holds handle → placed.1.Holds handle) :
    (session.put slot placed).Sound := by
  intro name handle found
  rw [get?_put] at found
  split at found
  · obtain rfl := Option.some.inj found
    exact held
  · exact kept handle (sound name handle found)

/-- The input sources of a run that is in the store. -/
theorem inputs_eq {session : Session} {handle : Handle} (held : session.store.Holds handle) :
    session.store.inputs[handle.inputs]? = some (session.store.load handle).inputs := by
  simp [Store.load, held.inputs]

/-- A session is sound, and a history accounts for each of its input sources. -/
structure Accounted (session : Session) (histories : List History) : Prop where
  sound : session.Sound
  accounts : List.Forall₂ Account histories session.store.inputs

namespace Accounted

variable {session : Session} {histories : List History}

/-- The history of the input sources of a run. -/
theorem exists_history (accounted : session.Accounted histories) {handle : Handle}
    (held : session.store.Holds handle) :
    ∃ history, histories[handle.inputs]? = some history ∧
      Account history (session.store.load handle).inputs :=
  forall₂_getElem? accounted.accounts (inputs_eq held)

/-- A run over input sources that exist already leaves their histories as they are. -/
theorem put (accounted : session.Accounted histories) (slot : String) {placed : Store × Handle}
    (held : placed.1.Holds placed.2)
    (kept : ∀ handle, session.store.Holds handle → placed.1.Holds handle)
    (same : placed.1.inputs = session.store.inputs) :
    (session.put slot placed).Accounted histories where
  sound := accounted.sound.put slot held kept
  accounts := by
    rw [Session.put, same]
    exact accounted.accounts

/-- A run over input sources of its own brings their history along. -/
theorem allocate (accounted : session.Accounted histories) (slot : String) {s : State}
    {history : History} (account : Account history s.inputs) :
    (session.put slot (session.store.allocate s)).Accounted (histories ++ [history]) where
  sound := accounted.sound.put slot (Store.holds_allocate _ s) fun _ held => held.allocate s
  accounts := List.rel_append accounted.accounts (.cons account .nil)

/-- What is asked in a slot is entered for the input sources of the run there. -/
theorem save (accounted : session.Accounted histories) {slot : String} {handle : Handle}
    (held : session.store.Holds handle) {s : State} {exchanges : History}
    (goesOn : ∀ history, Account history (session.store.load handle).inputs →
      Account (history ++ exchanges) s.inputs) :
    (session.put slot (session.store.save handle s)).Accounted
      (histories.modify handle.inputs (· ++ exchanges)) where
  sound := accounted.sound.put slot (held.saved s) fun _ other => other.save handle s
  accounts := by
    refine forall₂_modify_set accounted.accounts fun history inputs _ found account => ?_
    obtain rfl := Option.some.inj ((inputs_eq held).symm.trans found)
    exact goesOn history account

/-- A deed leaves a session whose input sources are accounted for by what it enters. -/
theorem perform {before after : List History} {next : Session} {deed : Deed}
    (accounted : session.Accounted before) (performed : session.perform deed = some next)
    (enters : deed.Enters session before after) : next.Accounted after := by
  cases deed with
  | start slot seeds sharing =>
    obtain rfl := Option.some.inj performed
    cases sharing with
    | none =>
      simp only [Deed.Enters] at enters
      rw [Session.start]
      cases started : seeds.start with
      | error error =>
        simp only [started] at enters
        rw [enters]
        exact accounted
      | ok s =>
        simp only [started] at enters
        rw [enters]
        obtain ⟨inputs, registered, startedOn⟩ := Seeds.start_eq_ok_iff.mp started
        obtain ⟨_, _, -, -, rfl⟩ := Seeds.startOn_eq_ok_iff.mp startedOn
        exact accounted.allocate slot (Account.opened.registerAll registered)
    | some other =>
      obtain rfl : after = before := enters
      rw [Session.start]
      cases found : session.slots.get? other with
      | none => exact accounted
      | some handle =>
        have held := accounted.sound other handle found
        simp only
        cases seeds.startOn (session.store.load handle).inputs with
        | error error => exact accounted
        | ok s =>
          exact accounted.put slot (Store.holds_allocateOn held.inputs s)
            (fun _ kept => kept.allocateOn _ s) rfl
  | attach slot other =>
    obtain rfl := Option.some.inj performed
    obtain rfl : after = before := enters
    rw [Session.attach]
    cases found : session.slots.get? other with
    | none => exact accounted
    | some handle =>
      have held := accounted.sound other handle found
      exact accounted.put slot ⟨held.env, held.memory, held.inputs⟩ (fun _ kept => kept) rfl
  | fork slot copy =>
    obtain rfl := Option.some.inj performed
    rw [Session.fork]
    cases found : session.slots.get? slot with
    | none =>
      simp only [Deed.Enters, found] at enters
      rw [enters]
      exact accounted
    | some handle =>
      obtain ⟨history, recorded, account⟩ :=
        accounted.exists_history (accounted.sound slot handle found)
      simp only [Deed.Enters, found, recorded] at enters
      rw [enters]
      exact accounted.allocate copy account
  | act slot act =>
    cases found : session.slots.get? slot with
    | none =>
      simp only [Deed.Enters, found] at enters
      rw [Session.perform, Session.act_of_missing found] at performed
      obtain rfl := Option.some.inj performed
      rw [enters]
      exact accounted
    | some handle =>
      simp only [Deed.Enters, found] at enters
      obtain ⟨exchanges, asks, rfl⟩ := enters
      rw [Session.perform, Session.act_eq found, Option.map_map] at performed
      obtain ⟨⟨reply, s⟩, acted, rfl⟩ := Option.map_eq_some_iff.mp performed
      exact accounted.save (accounted.sound slot handle found) fun history account =>
        account.act asks acted

end Accounted

end Session

/-! ## Delivery -/

namespace Recorded

variable {deeds : List Deed} {session : Session} {histories : List History}

/-- Whatever is done, the input sources of a session are accounted for. -/
theorem accounted (recorded : Recorded deeds session histories) : session.Accounted histories := by
  induction recorded with
  | opened => exact ⟨fun _ _ none => (nomatch none), .nil⟩
  | entered _ performed enters ih => exact ih.perform performed enters

/-- A deed can be entered. -/
theorem exists_enters (deed : Deed) (session : Session) (before : List History) :
    ∃ after, deed.Enters session before after := by
  cases deed with
  | start slot seeds sharing =>
    cases sharing with
    | none =>
      simp only [Deed.Enters]
      cases seeds.start <;> exact ⟨_, rfl⟩
    | some other => exact ⟨_, rfl⟩
  | attach slot other => exact ⟨_, rfl⟩
  | fork slot copy =>
    simp only [Deed.Enters]
    cases session.slots.get? slot <;> exact ⟨_, rfl⟩
  | act slot act =>
    simp only [Deed.Enters]
    cases session.slots.get? slot with
    | none => exact ⟨_, rfl⟩
    | some handle =>
      obtain ⟨exchanges, asks⟩ := act.exists_asks (session.store.load handle)
      exact ⟨_, exchanges, asks, rfl⟩

/-- Whatever is done can be recorded. -/
theorem exists_of_performed (performed : deeds.foldlM Session.perform {} = some session) :
    ∃ histories, Recorded deeds session histories := by
  induction deeds using List.reverseRecOn generalizing session with
  | nil =>
    obtain rfl := Option.some.inj performed
    exact ⟨[], .opened⟩
  | append_singleton deeds deed ih =>
    rw [List.foldlM_append] at performed
    obtain ⟨middle, before, last⟩ := Option.bind_eq_some_iff.mp performed
    obtain ⟨histories, recorded⟩ := ih before
    obtain ⟨after, enters⟩ := exists_enters deed middle histories
    have performed : middle.perform deed = some session := by simpa using last
    exact ⟨after, .entered recorded performed enters⟩

end Recorded

open Unguarded (Sources)

/-- Whatever is done in a session by any number of runs, that share input sources or copy them, it
can be recorded what was asked of each of its input sources and what was replied. The names and the
cursors, in two dictionaries, are those of the sources that were registered, in that order; no
cursor is beyond the end; what was read from a source are its first values up to the cursor, in
order; and the values of a source are what they have been ever since it was registered. Whatever is
asked next concerns one source only, and changes nothing at all if it fails, as it does under the
conditions for that and no others. -/
theorem Session.sources_deliver_in_order {deeds : List Deed} {session : Session}
    (performed : deeds.foldlM Session.perform {} = some session) :
    (∃ histories, Recorded deeds session histories) ∧
      ∀ histories, Recorded deeds session histories → ∀ (cell : Nat) (inputs : Inputs),
        session.store.inputs[cell]? = some inputs →
          ∃ history, histories[cell]? = some history ∧ Account history inputs ∧
            Sources.replay history = inputs.sources ∧
            inputs.sources.values.keys = history.registered ∧
            inputs.sources.cursors.keys = history.registered ∧
            (∀ name stream, inputs.get? name = some stream →
              stream.cursor ≤ stream.values.length ∧
                history.delivered name = stream.values.take stream.cursor) ∧
            (∀ name values result, (.register name values, .ok result) ∈ history →
              ∃ stream, inputs.get? name = some stream ∧
                values = stream.values.map (.int ·.toNat)) ∧
            (∀ earlier, earlier <+: history → ∃ past, Account earlier past ∧
              ∀ name stream, past.get? name = some stream → ∃ cursor, stream.cursor ≤ cursor ∧
                inputs.get? name = some { stream with cursor }) ∧
            ∀ request : Request,
              let after := (inputs.answer request).2
              ((∃ error, (inputs.answer request).1 = .error error) ↔ request.Fails inputs) ∧
                (request.Fails inputs →
                  after = inputs ∧ inputs.sources.after request = inputs.sources) ∧
                ∀ name, name ≠ request.name → after.get? name = inputs.get? name := by
  refine ⟨Recorded.exists_of_performed performed, ?_⟩
  intro histories recorded cell inputs found
  obtain ⟨history, entered, account⟩ := forall₂_getElem? recorded.accounted.accounts found
  have delivers := account.delivers
  obtain ⟨values, cursors⟩ := Sources.keys_sources inputs
  refine ⟨history, entered, account, account.replay_eq, values.trans delivers.names,
    cursors.trans delivers.names, fun name stream known =>
      ⟨delivers.atMost name stream known, delivers.delivered name stream known⟩,
    fun name values result registered => account.values_eq registered,
    fun earlier before => account.past_keeps before, fun request => ?_⟩
  have answers := inputs.answers request
  refine ⟨answers.fails_iff, fun fails => ⟨answers.unchanged fails, ?_⟩, fun name other =>
    answers.frame other⟩
  rw [Sources.after_sources, answers.unchanged fails]

/-- Two runs share a source: one reads it by a step, is forked, and the other one reads on. -/
theorem Session.sources_deliver_in_order_of_shared_source :
    let engine := Engine.program ⟨[.assign "x" (.input "in")]⟩
    let deeds : List Deed :=
      [.start "a" { inputs := [("in", [.int 7, .int 8])] } none, .start "b" {} (some "a"),
        .act "a" (.steps engine 1), .fork "a" "c", .act "b" (.request (.read "in"))]
    ∃ session histories history copied, deeds.foldlM Session.perform {} = some session ∧
      Recorded deeds session histories ∧
      histories[0]? = some history ∧ history.delivered "in" = [7, 8] ∧
      histories[1]? = some copied ∧ copied.delivered "in" = [7] := by
  intro engine deeds
  have computed : (deeds.foldlM Session.perform {}).map (·.store.inputs.map (·.get? "in")) =
      some [some { values := [7, 8], cursor := 2 }, some { values := [7, 8], cursor := 1 }] := by
    decide +kernel
  obtain ⟨session, performed, cells⟩ := Option.map_eq_some_iff.mp computed
  obtain ⟨⟨histories, recorded⟩, each⟩ := sources_deliver_in_order performed
  obtain ⟨shared, others, all, atShared, rest⟩ := List.map_eq_cons_iff.mp cells
  obtain ⟨copy, none, other, atCopy, -⟩ := List.map_eq_cons_iff.mp rest
  have first : session.store.inputs[0]? = some shared := by rw [all]; rfl
  have second : session.store.inputs[1]? = some copy := by rw [all, other]; rfl
  obtain ⟨history, entered, -, -, -, -, delivered, -⟩ := each histories recorded 0 shared first
  obtain ⟨copied, enteredCopy, -, -, -, -, deliveredCopy, -⟩ :=
    each histories recorded 1 copy second
  exact ⟨session, histories, history, copied, performed, recorded, entered,
    (delivered "in" _ atShared).2, enteredCopy, (deliveredCopy "in" _ atCopy).2⟩

end FlatIL
