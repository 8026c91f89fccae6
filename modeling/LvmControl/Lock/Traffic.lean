import LvmControl.Client.Stack

/-!
# Calls in flight

Any number of calls can be on their way through layers of locks that share a registry, among tasks
that acquire locks of it directly. This module says which steps a call takes from its start to its
result.

## Main definitions

* `FlightStage`, `Flight`: a call on its way.
* `Traffic`: a registry and the calls in flight over it.
* `TrafficAction`: what can happen; `Traffic.step` and `Traffic.run` carry it out.
* `Traffic.entered`: which calls have reached the client, in order, and as what.

## Design notes

**The client is outside.** What the client does with a call that has reached it is not decided here:
at some point it answers, with whatever result.

**The result comes last.** A call that has been answered first gives its locks back and only then
returns, so its caller never sees a result while locks are still held for it.

**Tasks belong to flights.** The task that acquires the locks of a call is finished or given up by
what happens to the call and in no other way.
-/

namespace LvmControl.Lock

/-- The number of a flight. -/
abbrev FlightId := Nat

/-- How far a call has come. -/
inductive FlightStage
  /-- Its locks are being acquired by the task. -/
  | locking (task : TaskId)
  /-- It is with the client. -/
  | inside (task : Option TaskId)
  /-- It is done but for its locks, which are being given back. There is no result if its caller
  gave it up. -/
  | returning (task : TaskId) (result : Option Result)
  /-- It is over. -/
  | returned (result : Option Result)

/-- A call on its way. -/
structure Flight where
  call : Call
  stage : FlightStage

/-- The task that acquires or has the locks of a flight. -/
def Flight.task? (f : Flight) : Option TaskId :=
  match f.stage with
  | .locking t => some t
  | .inside t => t
  | .returning t _ => some t
  | .returned _ => none

/-- A registry and the calls in flight over it. -/
structure Traffic where
  registry : Registry := {}
  flights : List Flight := []
  /-- The flights that have reached the client, in order, with the call that did. -/
  entered : List (FlightId × Call) := []

/-- What can happen to calls in flight. -/
inductive TrafficAction
  /-- A call is made. -/
  | call (call : Call)
  /-- Something happens in the registry. -/
  | registry (action : RegistryAction)
  /-- A call whose task is done with acquiring goes on. -/
  | proceed (flight : FlightId)
  /-- The client answers a call. -/
  | answer (flight : FlightId) (result : Result)
  /-- The caller of a call gives it up. -/
  | drop (flight : FlightId)

namespace Traffic

/-- Gives a flight a new stage. -/
def setStage (s : Traffic) (f : FlightId) (flight : Flight) (stage : FlightStage) : Traffic :=
  { s with flights := s.flights.set f { flight with stage := stage } }

/-- Carries out an action of the registry. -/
def onRegistry (s : Traffic) (action : RegistryAction) : Traffic :=
  { s with registry := s.registry.step action }

/-- Whether a task belongs to a flight. -/
def isOwned (s : Traffic) (t : TaskId) : Bool := s.flights.any fun f => f.task? = some t

/-- Whether something may happen in the registry on its own account. The tasks of flights are
finished and given up by their flights. -/
def permits (s : Traffic) : RegistryAction → Bool
  | .finish t => !s.isOwned t
  | .abandon t => !s.isOwned t
  | _ => true

/-- Starts a call: one that reads goes to the client at once, one that is not valid is refused, and
for any other one a task is added that acquires its locks. -/
def start (s : Traffic) (call : Call) : Traffic :=
  match call.keys? with
  | none =>
    { s with
      flights := s.flights ++ [⟨call, .inside none⟩]
      entered := s.entered ++ [(s.flights.length, call)] }
  | some keys =>
    match call.fault? with
    | some e =>
      { s with flights := s.flights ++ [⟨call, .returned (some (.error (.validation e)))⟩] }
    | none =>
      { s with
        registry := s.registry.begin keys call.context.token
        flights := s.flights ++ [⟨call, .locking s.registry.tasks.length⟩] }

/-- The stage of a task. -/
def taskStage? (s : Traffic) (t : TaskId) : Option Stage := (s.registry.tasks[t]?).map Task.stage

/-- Lets a call go on: into the client once its task has all its keys, and to its end once its task
is over. -/
def proceed (s : Traffic) (f : FlightId) : Traffic :=
  match s.flights[f]? with
  | none => s
  | some flight =>
    match flight.stage with
    | .locking t =>
      match s.taskStage? t with
      | some .complete =>
        { s.setStage f flight (.inside (some t)) with
          entered := s.entered ++ [(f, flight.call)] }
      | some (.over (.cancelled key)) =>
        s.setStage f flight (.returned (some (.error (.lockCancelled key))))
      | _ => s
    | .returning t result =>
      match s.taskStage? t with
      | some (.over _) => s.setStage f flight (.returned result)
      | _ => s
    | _ => s

/-- Takes the client's answer to a call. -/
def answer (s : Traffic) (f : FlightId) (result : Result) : Traffic :=
  match s.flights[f]? with
  | none => s
  | some flight =>
    match flight.stage with
    | .inside none => s.setStage f flight (.returned (some result))
    | .inside (some t) =>
      (s.onRegistry (.finish t)).setStage f flight (.returning t (some result))
    | _ => s

/-- Gives a call up. The client is left and the locks are given back. -/
def drop (s : Traffic) (f : FlightId) : Traffic :=
  match s.flights[f]? with
  | none => s
  | some flight =>
    match flight.stage with
    | .locking t => (s.onRegistry (.abandon t)).setStage f flight (.returning t none)
    | .inside none => s.setStage f flight (.returned none)
    | .inside (some t) => (s.onRegistry (.abandon t)).setStage f flight (.returning t none)
    | .returning t _ => s.setStage f flight (.returning t none)
    | .returned _ => s

/-- The traffic after an action. -/
def step (s : Traffic) : TrafficAction → Traffic
  | .call call => s.start call
  | .registry action => if s.permits action then s.onRegistry action else s
  | .proceed f => s.proceed f
  | .answer f result => s.answer f result
  | .drop f => s.drop f

/-- The traffic after actions in order. -/
def run (s : Traffic) (actions : List TrafficAction) : Traffic := actions.foldl step s

@[simp] theorem run_nil (s : Traffic) : s.run [] = s := rfl

@[simp] theorem run_cons (s : Traffic) (a : TrafficAction) (as : List TrafficAction) :
    s.run (a :: as) = (s.step a).run as := rfl

end Traffic

end LvmControl.Lock
