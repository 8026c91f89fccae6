import LvmControl.Client.Rehearsal
import LvmControl.Lock.Traffic

/-!
# Traffic on one thread

Calls and tasks that take turns on one thread. Each runs until it cannot go on by itself or has had
its share, and those that something has happened to run next, in the order in which it happened.

## Main definitions

* `Participant`: a task that holds locks until it is told to give them back, or a call that stays
  with the client until it is told to go on.
* `Schedule`: the traffic, the client and whose turn is next.
* `Schedule.nextMove?`: the next move of a participant, if it can go on.
* `Schedule.settle`: the moves of everybody until nobody can go on.
* `Standing`: how far a participant has come, as others see it.

## Design notes

**Who runs next.** A participant that is handed a lock is put at the end of the queue at that
moment. When a token fires, those that wait with it are put there in the order in which they began
their present wait.

**Nobody runs for ever.** A turn has an allowance of locks, `turnAllowance`. A participant that has
used it up is put off until the round of turns is over. It stops before it asks for a lock if a
token can cancel the asking, and before it goes on after having been told to. Without a token it
asks for one lock more: it joins the line if the lock is not free, and if it gets the lock it is put
off with it and the lock counts in its next turn. A round is over when nobody has a turn left, or
after `roundLength` turns; those who have been put off are then next, the last of them first.

**Told in advance.** Telling a participant to go on holds also for when it gets there.
-/

namespace LvmControl.Lock

/-- How many locks a participant may take in one turn. -/
def turnAllowance : Nat := 128

/-- How many turns a round has at most. -/
def roundLength : Nat := 61

/-- Somebody who takes turns. -/
inductive Participant
  /-- A task that acquires locks and holds them. -/
  | hold (task : TaskId)
  /-- A call through a layer of locks. -/
  | call (flight : FlightId)
deriving DecidableEq, Repr

/-- Traffic whose participants take turns. -/
structure Schedule where
  traffic : Traffic := {}
  client : Rehearsal := {}
  /-- The participants with their labels, in the order in which they came. -/
  participants : List (String × Participant) := []
  /-- The labels of those that have been told to go on. -/
  released : List String := []
  /-- The tasks that stand in lines, in the order in which they began their present wait. -/
  waiting : List TaskId := []
  /-- The labels of those whose turn is next. The first of them is running. -/
  queue : List String := []
  /-- How many locks the one that is running may still take. -/
  allowance : Nat := turnAllowance
  /-- How many turns of this round are over. -/
  turns : Nat := 0
  /-- The labels of those that have been put off in this round, the last of them first. -/
  postponed : List String := []
  /-- The labels of those that have taken a lock which counts in their next turn. -/
  debtors : List String := []

/-- What a participant does next. -/
inductive Move
  /-- It takes a step in the traffic. -/
  | act (action : TrafficAction)
  /-- It has the client carry out the call. -/
  | ask (flight : FlightId) (call : Call)

/-- How far a participant has come. -/
inductive Standing
  | waiting
  /-- It holds the locks of the keys. -/
  | holding (keys : List Key)
  /-- It is with the client. -/
  | inside
  /-- It has held the locks of the keys and given them back. -/
  | held (keys : List Key)
  /-- It was cancelled when it was about to get the lock of the key. -/
  | cancelled (key : Key)
  /-- Its call has returned. -/
  | returned (result : Result)
  /-- It was given up. -/
  | aborted

namespace Schedule

/-- The participant of a label. -/
def participant? (s : Schedule) (label : String) : Option Participant :=
  s.participants.lookup label

/-- The task of a participant. -/
def taskOf? (s : Schedule) : Participant → Option TaskId
  | .hold t => some t
  | .call f => (s.traffic.flights[f]?).bind Flight.task?

/-- The labels of the participants that a task belongs to. -/
def labelsOf (s : Schedule) (t : TaskId) : List String :=
  (s.participants.filter fun p => s.taskOf? p.2 = some t).map Prod.fst

/-- The next move of a task that is to hold its locks until it is told to go on. -/
def holdMove? (s : Schedule) (released : Bool) (t : TaskId) : Option Move :=
  if s.traffic.registry.isStuck t then none
  else
    match s.traffic.taskStage? t with
    | none => none
    | some .complete => if released then some (.act (.registry (.finish t))) else none
    | some (.over _) => none
    | some _ => some (.act (.registry (.advance t)))

/-- The next move of a call that is to stay with the client until it is told to go on. -/
def callMove? (s : Schedule) (released : Bool) (f : FlightId) : Option Move :=
  (s.traffic.flights[f]?).bind fun flight =>
    match flight.stage with
    | .locking t =>
      if s.traffic.registry.isStuck t then none
      else
        match s.traffic.taskStage? t with
        | none => none
        | some .complete => some (.act (.proceed f))
        | some (.over _) => some (.act (.proceed f))
        | some _ => some (.act (.registry (.advance t)))
    | .inside _ => if released then some (.ask f flight.call) else none
    | .returning t _ =>
      match s.traffic.taskStage? t with
      | some (.over _) => some (.act (.proceed f))
      | _ => some (.act (.registry (.advance t)))
    | .returned _ => none

/-- The next move of a participant, if it can go on. -/
def nextMove? (s : Schedule) (label : String) : Option Move :=
  (s.participant? label).bind fun p =>
    match p with
    | .hold t => s.holdMove? (s.released.contains label) t
    | .call f => s.callMove? (s.released.contains label) f

/-- The traffic and the client after a move. -/
def carryOut (s : Schedule) : Move → Traffic × Rehearsal
  | .act action => (s.traffic.step action, s.client)
  | .ask f call =>
    let (result, client) := s.client.perform {} s.traffic.registry.fired call
    (s.traffic.step (.answer f result), client)

/-- The tasks that stand in a line. -/
def standing (r : Registry) : List TaskId :=
  (r.tasks.zipIdx.filter fun (task, _) =>
    match task.stage with
    | .queued _ _ _ => true
    | _ => false).map Prod.snd

/-- The schedule after its traffic has changed: those that have been handed a lock are put at the
end of the queue unless they wait there already, and those that have begun to wait at the end of
those that wait. -/
def withTraffic (s : Schedule) (traffic : Traffic) : Schedule :=
  let handedBefore := s.traffic.registry.handedOver
  let handed := traffic.registry.handedOver.filter fun t => !handedBefore.contains t
  let stoodBefore := standing s.traffic.registry
  let stand := standing traffic.registry
  let called := (handed.flatMap s.labelsOf).filter fun label => !(s.queue.drop 1).contains label
  { s with
    traffic := traffic
    waiting := s.waiting.filter stand.contains ++ stand.filter fun t => !stoodBefore.contains t
    queue := s.queue ++ called }

/-- How many locks a task has. -/
def locksOf (r : Registry) (t : TaskId) : Nat :=
  ((r.tasks[t]?).map fun task => task.guards.length).getD 0

/-- How many locks a move takes, given the registries before and after it. -/
def locksTaken (before after : Registry) : Move → Nat
  | .act (.registry (.advance t)) => locksOf after t - locksOf before t
  | _ => 0

/-- The schedule after a move of the participant that is running. -/
def move (s : Schedule) (m : Move) : Schedule :=
  let (traffic, client) := s.carryOut m
  { s.withTraffic traffic with
    client := client
    allowance := s.allowance - locksTaken s.traffic.registry traffic.registry m }

/-- Whether a move is put off when the allowance is used up. -/
def needsAllowance (s : Schedule) : Move → Bool
  | .ask _ _ => true
  | .act (.registry (.finish _)) => true
  | .act (.registry (.advance t)) =>
    (s.traffic.registry.tasks[t]?).any fun task =>
      match task.stage with
      | .arrived _ _ _ => task.token.isSome
      | _ => false
  | .act _ => false

/-- The schedule after a round: those who have been put off have turns again. -/
def endRound (s : Schedule) : Schedule :=
  { s with queue := s.queue ++ s.postponed, postponed := [], turns := 0 }

/-- The schedule after a turn, given those whose turn is next. -/
def endTurn (s : Schedule) (rest : List String) : Schedule :=
  let s := { s with queue := rest, turns := s.turns + 1, allowance := turnAllowance }
  if rest.isEmpty || s.turns = roundLength then s.endRound else s

/-- The schedule after the running participant has been put off. -/
def putOff (s : Schedule) (label : String) (rest : List String) : Schedule :=
  { s with postponed := label :: s.postponed }.endTurn rest

/-- The schedule after a move that is not put off. Who has taken a lock beyond the allowance is put
off with it. -/
def proceed (s : Schedule) (label : String) (m : Move) : Schedule :=
  let after := s.move m
  if s.allowance < locksTaken s.traffic.registry after.traffic.registry m then
    { after with debtors := label :: after.debtors }.putOff label (after.queue.drop 1)
  else after

/-- The next thing that happens: the running participant has a lock of its last turn counted, makes
a move, is put off or, if it cannot go on, ends its turn. -/
def tick (s : Schedule) : Schedule :=
  match s.queue with
  | [] => s
  | label :: rest =>
    if s.debtors.contains label then
      { s with debtors := s.debtors.erase label, allowance := s.allowance - 1 }
    else
      match s.nextMove? label with
      | none => s.endTurn rest
      | some m =>
        if s.allowance = 0 && s.needsAllowance m then s.putOff label rest
        else s.proceed label m

/-- The schedule after so many things have happened, or earlier if nothing more can. -/
def ticks (s : Schedule) : Nat → Schedule
  | 0 => s
  | n + 1 => if s.queue.isEmpty then s else s.tick.ticks n

/-- More than what can happen until nobody can go on. A task takes no more steps than its bound, a
call four more. For every key a task is at most once handed the lock and at most once put off, which
ends a turn each, and once more it has a lock counted late or is put off when told to go on. -/
def tickBound (s : Schedule) : Nat :=
  s.traffic.registry.tasks.foldl
    (fun n task => n + Registry.stepBound task + 4 * task.keys.length + 12)
    (s.queue.length + 4 * s.participants.length)

/-- The schedule after everybody has gone on as far as possible, from the start of a round. -/
def settle (s : Schedule) : Schedule := { s with turns := 0 }.ticks s.tickBound

/-! ## What is done to a schedule -/

/-- Adds a participant and lets it run. -/
def enroll (s : Schedule) (label : String) (p : Participant) (action : TrafficAction) : Schedule :=
  { s with
    traffic := s.traffic.step action
    participants := s.participants ++ [(label, p)]
    queue := s.queue ++ [label] }.settle

/-- Adds a task that acquires the locks of some keys. -/
def hold (s : Schedule) (label : String) (keys : List Key) (token : Option Token) : Schedule :=
  s.enroll label (.hold s.traffic.registry.tasks.length) (.registry (.begin keys token))

/-- Adds a call. -/
def call (s : Schedule) (label : String) (call : Call) : Schedule :=
  s.enroll label (.call s.traffic.flights.length) (.call call)

/-- Tells a participant to go on. -/
def release (s : Schedule) (label : String) : Schedule :=
  { s with released := label :: s.released, queue := s.queue ++ [label] }.settle

/-- Gives a participant up. -/
def abort (s : Schedule) (label : String) : Schedule :=
  match s.participant? label with
  | none => s
  | some (.hold t) =>
    { s with queue := s.queue ++ [label] }.move (.act (.registry (.abandon t))) |>.settle
  | some (.call f) => { s with queue := s.queue ++ [label] }.move (.act (.drop f)) |>.settle

/-- Fires a token. -/
def cancel (s : Schedule) (token : Token) : Schedule :=
  let woken := s.waiting.filter fun t =>
    (s.traffic.registry.tasks[t]?).any fun task => task.token = some token
  { s with
    traffic := s.traffic.step (.registry (.fire token))
    queue := s.queue ++ woken.flatMap s.labelsOf }.settle

/-- How far a task that holds locks has come. -/
def holdStanding (s : Schedule) (t : TaskId) : Standing :=
  match s.traffic.registry.tasks[t]? with
  | none => .aborted
  | some task =>
    match task.stage with
    | .complete => .holding task.heldKeys
    | .over .released => .held task.keys
    | .over (.cancelled key) => .cancelled key
    | .over .abandoned => .aborted
    | _ => .waiting

/-- How far a call has come. -/
def callStanding (s : Schedule) (f : FlightId) : Standing :=
  match (s.traffic.flights[f]?).map Flight.stage with
  | none => .aborted
  | some (.locking _) => .waiting
  | some (.inside _) => .inside
  | some (.returning _ _) => .waiting
  | some (.returned none) => .aborted
  | some (.returned (some result)) => .returned result

/-- How far each participant has come. -/
def standings (s : Schedule) : List (String × Standing) :=
  s.participants.map fun (label, p) =>
    match p with
    | .hold t => (label, s.holdStanding t)
    | .call f => (label, s.callStanding f)

end Schedule

end LvmControl.Lock
