import FlatIL.Run

/-!
# Logs

A run leaves a log: every statement it executes, how it ends, and what was read
before it. Records below a threshold are left out.
-/

namespace FlatIL.Command

/-- How important a record is. -/
inductive Level where
  | debug
  | info
  | warning
  deriving DecidableEq, Repr

namespace Level

/-- The name of a level. -/
def name : Level → String
  | debug => "DEBUG"
  | info => "INFO"
  | warning => "WARNING"

/-- Levels by ascending importance. -/
def rank : Level → Nat
  | debug => 0
  | info => 1
  | warning => 2

end Level

/-- Something worth a record. -/
inductive Event where
  /-- A text was parsed into statements. -/
  | parsed (count : Nat)
  /-- A program is ready to run. -/
  | loaded (count : Nat) (name : String)
  /-- A statement is about to be executed. -/
  | executing (pc : Int) (kind : String)
  /-- The run has come to the end of the program. -/
  | succeeded (pc : Int) (steps : Nat)
  /-- The run has met a fault. -/
  | failed (fault : Fault) (pc : Int)
  /-- The run has used up its budget. -/
  | exhausted (budget : Nat) (pc : Int)
  deriving DecidableEq, Repr

namespace Event

/-- How important an event is. -/
def level : Event → Level
  | parsed _ | loaded _ _ | executing _ _ => .debug
  | succeeded _ _ | exhausted _ _ => .info
  | failed _ _ => .warning

/-- Which part of the program tells of an event. -/
def origin : Event → String
  | parsed _ => "simpil.parse._parser"
  | loaded _ _ => "simpil.cli"
  | executing _ _ | succeeded _ _ | failed _ _ | exhausted _ _ => "simpil.simulate._executor"

/-- The text of an event. -/
def message : Event → String
  | parsed count => "Parsed " ++ Decimal.ofNat count ++ " statements"
  | loaded count name => "Loaded " ++ Decimal.ofNat count ++ " statements from " ++ name
  | executing pc kind => "pc=" ++ Decimal.ofInt pc ++ " " ++ kind
  | succeeded pc steps =>
    "Halted successfully at pc=" ++ Decimal.ofInt pc ++ " after " ++ Decimal.ofNat steps ++ " steps"
  | failed fault pc =>
    "Halted with " ++ fault.kind ++ " at pc=" ++ Decimal.ofInt pc ++ ": " ++ fault.message
  | exhausted budget pc =>
    "Step budget of " ++ Decimal.ofNat budget ++ " exhausted at pc=" ++ Decimal.ofInt pc

/-- The record of an event. -/
def record (event : Event) : String :=
  event.level.name ++ " " ++ event.origin ++ ": " ++ event.message ++ "\n"

end Event

/-- The records of the events that are important enough. -/
def logText (threshold : Level) (events : List Event) : String :=
  String.join ((events.filter fun event => threshold.rank ≤ event.level.rank).map Event.record)

/-- How a step ended the run, if it did. -/
def endEvents (t : State) : List Event :=
  match t.status, t.fault with
  | .failed, some fault => [.failed fault t.pc]
  | .succeeded, _ => [.succeeded t.pc t.steps]
  | _, _ => []

/-- The events of a step from one state to another. -/
def stepEvents (p : Program) (s t : State) : List Event :=
  match p.statements[s.pc.toNat]? with
  | some stmt => .executing s.pc stmt.kind :: endEvents t
  | none => endEvents t

/-- The important events of at most `count` steps of a run, added in front of `done`, which
holds earlier events with the last one first. -/
def eventsOnto (threshold : Level) (p : Program) (done : List Event) :
    (count : Nat) → State → List Event × State
  | 0, s => (done, s)
  | count + 1, s =>
    if s.isRunning then
      match p.step s with
      | .error _ => (done, s)
      | .ok t =>
        let events := (stepEvents p s t).filter fun event => threshold.rank ≤ event.level.rank
        eventsOnto threshold p (events.reverse ++ done) count t
    else (done, s)

/-- The important events of a run with a budget, or of one that ends within the steps looked
ahead. -/
def runEvents (threshold : Level) (p : Program) (budget : Option Nat) (patience : Nat)
    (s : State) : List Event :=
  match budget with
  | none => (eventsOnto threshold p [] patience s).1.reverse
  | some n =>
    let (events, t) := eventsOnto threshold p [] n s
    if t.isRunning then events.reverse ++ [.exhausted n t.pc] else events.reverse

end FlatIL.Command
