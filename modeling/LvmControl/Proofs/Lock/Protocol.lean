import LvmControl.Proofs.Lock.FlightMoves
import Mathlib.Data.List.Infix

/-!
# What becomes of a call

A call that goes through a layer of locks can be refused, cancelled, given up at any moment, or
reach the client and be answered, while any number of other calls are under way. This module follows
one of them: what has reached the client on its account, which locks it has, and what it returns.

## Main definitions

* `Operation.lookups`: the operations that change nothing.
* `Journey`: a call that was made, and what has happened before and since.
* `Journey.Phase`: the phases of a call that is locked.
* `Journey.LookupPhase`: the phases of a call that looks something up.
* `Journey.FollowsProtocol`: what becomes of a call.

## Main statements

* `Call.keys?_eq_none_iff`: the calls without keys are the lookups.
* `Journey.inPhase`: a call that is locked is always in one of the phases.
* `Journey.followsProtocol`: every call follows the protocol.

## Design notes

**Phases, not runs.** What a call returns depends on its whole past. A phase says as much of the
past as matters later: whether the client has been asked, what it answered, and why the task of the
call gives its locks back.
-/

namespace LvmControl

/-- The operations that change nothing. -/
def Operation.lookups : List Operation :=
  [.run .version, .findGroup, .run .vgs, .findVolume, .run .lvs, .run .pvs, .run .devicesList,
    .run .devicesCheck]

theorem Operation.scope?_eq_none_iff {operation : Operation} :
    operation.command.scope? = none ↔ operation ∈ lookups := by
  cases operation with
  | run c => cases c <;> decide
  | findGroup | findVolume => decide

/-- The calls without keys are the lookups. -/
theorem Call.keys?_eq_none_iff {call : Call} :
    call.keys? = none ↔ call.operation ∈ Operation.lookups := by
  rw [Call.keys?, Command.keys?, Option.map_eq_none_iff, Operation.scope?_eq_none_iff]

namespace Lock

/-! ## One call -/

/-- A call that is made after some actions, and the actions that have followed. -/
structure Journey where
  before : List TrafficAction
  call : Call
  since : List TrafficAction := []

namespace Journey

/-- The number of its flight. -/
def id (j : Journey) : FlightId := (Traffic.run {} j.before).flights.length

/-- The number of its task, if it has one. -/
def task (j : Journey) : TaskId := (Traffic.run {} j.before).registry.tasks.length

/-- The traffic as it is now. -/
def traffic (j : Journey) : Traffic := Traffic.run {} (j.before ++ .call j.call :: j.since)

/-- The call has come to the stage. -/
def At (j : Journey) (stage : FlightStage) : Prop :=
  j.traffic.flights[j.id]? = some ⟨j.call, stage⟩

/-- Its task as it is now, if it has one. -/
def task? (j : Journey) : Option Task := j.traffic.registry.tasks[j.task]?

/-- What has reached the client on its account. -/
def entries (j : Journey) : List Call := j.traffic.entriesOf j.id

/-- The same call when the given actions had followed. -/
def upTo (j : Journey) (since : List TrafficAction) : Journey := { j with since := since }

/-- One more action follows. -/
def next (j : Journey) (a : TrafficAction) : Journey := j.upTo (j.since ++ [a])

/-- While the call was with the client, the client answered it so. -/
def Answered (j : Journey) (result : Result) : Prop :=
  ∃ mid, mid ++ [.answer j.id result] <+: j.since ∧ ∃ u, (j.upTo mid).At (.inside u)

/-- What happens to a call is looked at from its end. -/
@[elab_as_elim]
theorem inductionOn {p : Journey → Prop} (j : Journey) (opening : p (j.upTo []))
    (next : ∀ d a, p d → p (d.next a)) : p j := by
  obtain ⟨before, call, since⟩ := j
  induction since using List.reverseRecOn with
  | nil => exact opening
  | append_singleton since a ih => exact next ⟨before, call, since⟩ a (ih opening)

variable {j : Journey}

@[simp] theorem traffic_next (j : Journey) (a : TrafficAction) :
    (j.next a).traffic = j.traffic.step a := by
  simp [traffic, next, upTo, Traffic.run_append]

theorem traffic_opening (j : Journey) :
    (j.upTo []).traffic = (Traffic.run {} j.before).start j.call := by
  simp [traffic, upTo, Traffic.run_append, Traffic.step]

theorem sound (j : Journey) : j.traffic.Sound := Traffic.sound_run _

/-- Nothing has reached the client on account of a call that has not been made. -/
theorem entriesOf_before (j : Journey) : (Traffic.run {} j.before).entriesOf j.id = [] := by
  simp only [Traffic.entriesOf, List.map_eq_nil_iff, List.filter_eq_nil_iff, decide_eq_true_eq]
  exact fun e he => Nat.ne_of_lt (Traffic.entered_lt_run j.before e he)

theorem Answered.next {result : Result} (h : j.Answered result) (a : TrafficAction) :
    (j.next a).Answered result := by
  obtain ⟨mid, hmid, hinside⟩ := h
  exact ⟨mid, hmid.trans (List.prefix_append _ _), hinside⟩

/-- A call that is answered while it is with the client has been answered. -/
theorem answered_next {u : Option TaskId} (h : j.At (.inside u)) (result : Result) :
    (j.next (.answer j.id result)).Answered result :=
  ⟨j.since, List.prefix_refl _, u, h⟩

/-- A call is at one stage. -/
theorem At.unique {stage stage' : FlightStage} (h : j.At stage) (h' : j.At stage') :
    stage = stage' :=
  congrArg Flight.stage (Option.some.inj (h.symm.trans h'))

/-- What an action of others leaves to the call. -/
theorem At.elsewhere {stage : FlightStage} (h : j.At stage) {a : TrafficAction}
    (ha : ¬ a.IsOf j.id) : (j.next a).At stage ∧ (j.next a).entries = j.entries := by
  have hstep := Traffic.elsewhere_step h ha
  rwa [← traffic_next] at hstep

/-- The phases of a call that is locked: how its task stands, what has reached the client on its
account, and its stage. -/
inductive Phase (j : Journey) (task : Task) : List Call → FlightStage → Prop
  | locking (h : ∀ e, task.ending? = some e → ∃ key, e = .cancelled key) :
      Phase j task [] (.locking j.task)
  | inside (h : task.stage = .complete) : Phase j task [j.call] (.inside (some j.task))
  | answered {result : Result} (hresult : j.Answered result) (h : task.ending? = some .released) :
      Phase j task [j.call] (.returning j.task (some result))
  | returned {result : Result} (hresult : j.Answered result) (h : task.stage = .over .released) :
      Phase j task [j.call] (.returned (some result))
  | cancelled {key : Key} (h : task.stage = .over (.cancelled key)) :
      Phase j task [] (.returned (some (.error (.lockCancelled key))))
  | dropped {calls : List Call} {ending : Ending} (h : task.ending? = some ending)
      (hcalls : calls = [] ∨ calls = [j.call] ∧ ∀ key, ending ≠ .cancelled key) :
      Phase j task calls (.returning j.task none)
  | gone {calls : List Call} {ending : Ending} (h : task.stage = .over ending)
      (hcalls : calls = [] ∨ calls = [j.call] ∧ ∀ key, ending ≠ .cancelled key) :
      Phase j task calls (.returned none)

/-- The call is in one of the phases. -/
def InPhase (j : Journey) : Prop :=
  ∃ task stage, j.At stage ∧ j.task? = some task ∧ j.Phase task j.entries stage

/-- A phase that nothing has changed. -/
theorem Phase.next {task : Task} {calls : List Call} {stage : FlightStage}
    (h : j.Phase task calls stage) (a : TrafficAction) : (j.next a).Phase task calls stage := by
  cases h with
  | locking h => exact .locking h
  | inside h => exact .inside h
  | answered hresult h => exact .answered (hresult.next a) h
  | returned hresult h => exact .returned (hresult.next a) h
  | cancelled h => exact .cancelled h
  | dropped h hcalls => exact .dropped h hcalls
  | gone h hcalls => exact .gone h hcalls

/-- Nothing has reached the client on account of a call whose keys have yet to be locked. -/
theorem entries_opening {keys : List Key} (hkeys : j.call.keys? = some keys)
    (hfault : j.call.fault? = none) : (j.upTo []).entries = [] := by
  have htraffic := j.traffic_opening
  simp only [Traffic.start, hkeys, hfault] at htraffic
  rw [entries, htraffic]
  exact j.entriesOf_before

/-- A call that has been made and whose keys are to be locked starts by locking them. -/
theorem inPhase_opening {keys : List Key} (hkeys : j.call.keys? = some keys)
    (hfault : j.call.fault? = none) : (j.upTo []).InPhase := by
  have htraffic := j.traffic_opening
  simp only [Traffic.start, hkeys, hfault] at htraffic
  refine ⟨⟨distinctKeys keys, j.call.context.token, [], .choosing (distinctKeys keys)⟩,
    .locking j.task, ?_, ?_, ?_⟩
  · rw [At, htraffic]
    exact List.getElem?_concat_length
  · rw [task?, htraffic]
    exact List.getElem?_concat_length
  · rw [entries_opening hkeys hfault]
    exact .locking (by simp [Task.ending?])

/-- An action of others leaves a call in its phase. -/
theorem InPhase.elsewhere (h : j.InPhase) {a : TrafficAction} (ha : ¬ a.IsOf j.id) :
    (j.next a).InPhase := by
  obtain ⟨task, stage, hat, ht, hphase⟩ := h
  obtain ⟨hat', hentries⟩ := hat.elsewhere ha
  rw [← hentries] at hphase
  -- A task that belongs to the flight takes a step of its own at most.
  have hstep : ∀ stage', stage = stage' → (⟨j.call, stage'⟩ : Flight).task? = some j.task →
      (∀ task', task.Move j.traffic.registry.fired j.task (.advance j.task) task' →
        (j.next a).Phase task' (j.next a).entries stage) → (j.next a).InPhase := by
    rintro _ rfl howned hmoved
    have hcases := j.sound.task_step hat howned ht ha
    rw [← traffic_next] at hcases
    rcases hcases with hsame | ⟨task', ht', hmove⟩
    · exact ⟨task, stage, hat', hsame, hphase.next a⟩
    · exact ⟨task', stage, hat', ht', hmoved task' hmove⟩
  have hover : ∀ ending, task.stage = .over ending → (j.next a).InPhase := by
    intro ending hs
    have hsame := j.sound.over_step ht hs a
    rw [← traffic_next] at hsame
    exact ⟨task, stage, hat', hsame, hphase.next a⟩
  generalize (j.next a).entries = calls at hphase hstep
  cases hphase with
  | locking h =>
    refine hstep _ rfl rfl fun task' hmove => .locking fun e he => ?_
    rcases hmove.ending_of_advance with hsame | ⟨key, hcancelled⟩
    · exact h e (hsame ▸ he)
    · exact ⟨key, Option.some.inj (he.symm.trans hcancelled)⟩
  | inside h => exact hstep _ rfl rfl fun task' hmove => absurd h hmove.ne_complete
  | answered hresult h =>
    exact hstep _ rfl rfl fun task' hmove => .answered (hresult.next a) (hmove.ending h).1
  | dropped h hcalls =>
    exact hstep _ rfl rfl fun task' hmove => .dropped (hmove.ending h).1 hcalls
  | returned _ h | cancelled h | gone h _ => exact hover _ h

/-- An action of a call leads from a phase to a phase. -/
theorem InPhase.own (h : j.InPhase) {a : TrafficAction} (ha : a.IsOf j.id) :
    (j.next a).InPhase := by
  obtain ⟨task, stage, hat, ht, hphase⟩ := h
  have hmove := Traffic.move_step hat ha
  rw [← traffic_next] at hmove
  have hset := Traffic.getElem?_setStage_self hat
  -- It is enough to look at the traffic to which the action leads.
  have hphase_of : ∀ {s' : Traffic} {task' : Task} {calls : List Call} {stage' : FlightStage},
      (j.next a).traffic = s' → s'.flights[j.id]? = some ⟨j.call, stage'⟩ →
        s'.registry.tasks[j.task]? = some task' → s'.entriesOf j.id = calls →
          (j.next a).Phase task' calls stage' → (j.next a).InPhase := by
    rintro s' task' calls stage' rfl hat' ht' rfl hphase'
    exact ⟨task', stage', hat', ht', hphase'⟩
  have hstage : ∀ {st : Stage}, j.traffic.taskStage? j.task = some st → task.stage = st := by
    intro st hst
    have ht : j.traffic.registry.tasks[j.task]? = some task := ht
    simpa [Traffic.taskStage?, ht] using hst
  generalize hcalls : j.entries = calls at hphase
  generalize hs' : (j.next a).traffic = s' at hmove
  cases hmove with
  | rests _ => exact hphase_of hs' hat ht hcalls (hphase.next _)
  | entered hs hcomplete =>
    obtain rfl : stage = .locking _ := hs
    cases hphase with
    | locking h =>
      have hone : j.traffic.entriesOf j.id ++ [j.call] = [j.call] :=
        congrArg (· ++ [j.call]) hcalls
      exact hphase_of hs' (hset _) ht ((Traffic.entriesOf_concat _ j.id j.call).trans hone)
        (.inside (hstage hcomplete))
  | failed hs hover =>
    obtain rfl : stage = .locking _ := hs
    cases hphase with
    | locking h => exact hphase_of hs' (hset _) ht hcalls (.cancelled (hstage hover))
  | landed hs hover =>
    obtain rfl : stage = .returning _ _ := hs
    cases hphase with
    | answered hresult h =>
      have hover := hstage hover
      obtain rfl : _ = Ending.released := by simpa [Task.ending?, hover] using h
      exact hphase_of hs' (hset _) ht hcalls (.returned (hresult.next _) hover)
    | dropped h hreached =>
      have hover := hstage hover
      have hending : task.ending? = some _ := h
      simp only [Task.ending?, hover, Option.some.injEq] at hending
      exact hphase_of hs' (hset _) ht hcalls (.gone hover (hending ▸ hreached))
  | replied hs =>
    obtain rfl : stage = .inside none := hs
    cases hphase
  | answered hs =>
    obtain rfl : stage = .inside _ := hs
    cases hphase with
    | inside h =>
      obtain ⟨task', ht', hending⟩ := Registry.exists_finished ht h
      exact hphase_of hs' (hset _) ht' hcalls (.answered (answered_next hat _) hending)
  | left hs =>
    rcases hs with hs | hs
    · obtain rfl : stage = .locking _ := hs
      cases hphase with
      | locking h =>
        obtain ⟨task', ht', hending⟩ := Registry.exists_abandoned ht
        exact hphase_of hs' (hset _) ht' hcalls (.dropped hending (.inl rfl))
    · obtain rfl : stage = .inside _ := hs
      cases hphase with
      | inside h =>
        obtain ⟨task', ht', hending⟩ := Registry.exists_abandoned ht
        have habandoned : task'.ending? = some .abandoned := by
          simpa [Task.ending?, h] using hending
        exact hphase_of hs' (hset _) ht' hcalls (.dropped habandoned (.inr ⟨rfl, by simp⟩))
  | ignored hs =>
    obtain rfl : stage = .inside none := hs
    cases hphase
  | forgotten hs =>
    obtain rfl : stage = .returning _ _ := hs
    cases hphase with
    | answered hresult h =>
      exact hphase_of hs' (hset _) ht hcalls (.dropped h (.inr ⟨rfl, by simp⟩))
    | dropped h hreached => exact hphase_of hs' (hset _) ht hcalls (.dropped h hreached)

/-- **The phases of a call.** A call whose keys are locked is in one of the phases, whatever
happens. -/
theorem inPhase {keys : List Key} (hkeys : j.call.keys? = some keys)
    (hfault : j.call.fault? = none) : j.InPhase := by
  induction j using inductionOn with
  | opening => exact inPhase_opening hkeys hfault
  | next d a ih =>
    by_cases ha : a.IsOf d.id
    · exact (ih hkeys hfault).own ha
    · exact (ih hkeys hfault).elsewhere ha

/-! ## Calls that lock nothing -/

/-- The call has not touched the registry, neither when it was made nor since. -/
def LeavesRegistry (j : Journey) : Prop :=
  (j.upTo []).traffic.registry = (Traffic.run {} j.before).registry ∧
    ∀ mid a, mid ++ [a] <+: j.since → a.IsOf j.id →
      (j.upTo (mid ++ [a])).traffic.registry = (j.upTo mid).traffic.registry

/-- A call that never has a task leaves the registry as it is. -/
theorem leavesRegistry_of_taskless
    (hopening : (j.upTo []).traffic.registry = (Traffic.run {} j.before).registry)
    (htaskless : ∀ mid, ∃ stage, (j.upTo mid).At stage ∧
      (⟨j.call, stage⟩ : Flight).task? = none) : j.LeavesRegistry := by
  refine ⟨hopening, fun mid a _ ha => ?_⟩
  obtain ⟨stage, hat, hnone⟩ := htaskless mid
  have hnext : (j.upTo (mid ++ [a])).traffic = (j.upTo mid).traffic.step a :=
    traffic_next (j.upTo mid) a
  rw [hnext]
  rcases (Traffic.move_step hat ha).of_taskless hnone with hs | ⟨-, ⟨result, -, hs⟩ | hs⟩ <;>
    rw [hs] <;> rfl

/-- The phases of a call that looks something up. -/
inductive LookupPhase (j : Journey) : FlightStage → Prop
  | inside : LookupPhase j (.inside none)
  | returned {result : Result} (h : j.Answered result) : LookupPhase j (.returned (some result))
  | gone : LookupPhase j (.returned none)

theorem LookupPhase.task?_eq_none {stage : FlightStage} (h : j.LookupPhase stage) (call : Call) :
    (⟨call, stage⟩ : Flight).task? = none := by
  cases h <;> rfl

/-- A phase that nothing has changed. -/
theorem LookupPhase.next {stage : FlightStage} (h : j.LookupPhase stage) (a : TrafficAction) :
    (j.next a).LookupPhase stage := by
  cases h with
  | inside => exact .inside
  | returned h => exact .returned (h.next a)
  | gone => exact .gone

/-- A call without keys starts with the client. -/
theorem lookup_opening (hkeys : j.call.keys? = none) :
    (j.upTo []).At (.inside none) ∧ (j.upTo []).entries = [j.call] ∧
      (j.upTo []).traffic.registry = (Traffic.run {} j.before).registry := by
  have htraffic := j.traffic_opening
  simp only [Traffic.start, hkeys] at htraffic
  rw [At, entries, htraffic]
  refine ⟨List.getElem?_concat_length, ?_, rfl⟩
  exact (Traffic.entriesOf_concat _ j.id j.call).trans (congrArg (· ++ [j.call]) j.entriesOf_before)

/-- A call without keys is with the client until it is answered or given up. -/
theorem exists_lookupPhase (hkeys : j.call.keys? = none) :
    ∃ stage, j.At stage ∧ j.entries = [j.call] ∧ j.LookupPhase stage := by
  induction j using inductionOn with
  | opening =>
    obtain ⟨hat, hentries, -⟩ := lookup_opening (j := j) hkeys
    exact ⟨_, hat, hentries, .inside⟩
  | next d a ih =>
    obtain ⟨stage, hat, hentries, hphase⟩ := ih hkeys
    by_cases ha : a.IsOf d.id
    · have hset := Traffic.getElem?_setStage_self hat
      have hmove := (Traffic.move_step hat ha).of_taskless (hphase.task?_eq_none _)
      rw [← traffic_next] at hmove
      rcases hmove with hs | ⟨hinside, hcases⟩
      · exact ⟨stage, by rw [At, hs]; exact hat, by rw [entries, hs]; exact hentries,
          hphase.next a⟩
      · obtain rfl : stage = .inside none := hinside
        rcases hcases with ⟨result, rfl, hs⟩ | hs
        · exact ⟨.returned (some result), by rw [At, hs]; exact hset _,
            by rw [entries, hs]; exact hentries, .returned (answered_next hat result)⟩
        · exact ⟨.returned none, by rw [At, hs]; exact hset _,
            by rw [entries, hs]; exact hentries, .gone⟩
    · obtain ⟨hat', hentries'⟩ := hat.elsewhere ha
      exact ⟨stage, hat', hentries'.trans hentries, hphase.next a⟩

/-- A call that is not valid starts by being refused. -/
theorem refused_opening {keys : List Key} (hkeys : j.call.keys? = some keys) {e : ValidationError}
    (hfault : j.call.fault? = some e) :
    (j.upTo []).At (.returned (some (.error (.validation e)))) ∧ (j.upTo []).entries = [] ∧
      (j.upTo []).traffic.registry = (Traffic.run {} j.before).registry := by
  have htraffic := j.traffic_opening
  simp only [Traffic.start, hkeys, hfault] at htraffic
  rw [At, entries, htraffic]
  exact ⟨List.getElem?_concat_length, j.entriesOf_before, rfl⟩

/-- A call that is not valid has been refused, and that is all. -/
theorem at_refused {keys : List Key} (hkeys : j.call.keys? = some keys) {e : ValidationError}
    (hfault : j.call.fault? = some e) :
    j.At (.returned (some (.error (.validation e)))) ∧ j.entries = [] := by
  induction j using inductionOn with
  | opening =>
    obtain ⟨hat, hentries, -⟩ := refused_opening (j := j) hkeys hfault
    exact ⟨hat, hentries⟩
  | next d a ih =>
    obtain ⟨hat, hentries⟩ := ih hkeys hfault
    by_cases ha : a.IsOf d.id
    · have hmove := (Traffic.move_step hat ha).of_taskless rfl
      rw [← traffic_next] at hmove
      rcases hmove with hs | ⟨hinside, -⟩
      · exact ⟨by rw [At, hs]; exact hat, by rw [entries, hs]; exact hentries⟩
      · cases hinside
    · obtain ⟨hat', hentries'⟩ := hat.elsewhere ha
      exact ⟨hat', hentries'.trans hentries⟩

/-! ## How a call goes on -/

/-- The call after its task has taken steps by itself, and it has gone on then. -/
def afterSteps (j : Journey) (n : Nat) : Journey :=
  j.upTo (j.since ++ List.replicate n (.registry (.advance j.task)) ++ [.proceed j.id])

/-- What its task does by itself changes nothing but the registry. -/
theorem traffic_afterSteps (j : Journey) (n : Nat) :
    (j.afterSteps n).traffic =
      ({ j.traffic with registry := j.traffic.registry.run (List.replicate n (.advance j.task)) } :
        Traffic).step (.proceed j.id) := by
  rw [← Traffic.run_replicate_advance]
  simp [traffic, afterSteps, upTo, Traffic.run_append]

/-- A task that gives everything back is over after some steps of its own, and the call goes on
then. -/
theorem exists_afterSteps {stage stage' : FlightStage} (hat : j.At stage) {task : Task}
    (ht : j.task? = some task) {ending : Ending} (hending : task.ending? = some ending)
    (hproceed : ∀ s : Traffic, s.flights[j.id]? = some ⟨j.call, stage⟩ →
      s.taskStage? j.task = some (.over ending) →
        (s.step (.proceed j.id)).flights[j.id]? = some ⟨j.call, stage'⟩) :
    ∃ n, (j.afterSteps n).At stage' := by
  obtain ⟨n, task', ht', hover⟩ := Registry.exists_over ht hending
  refine ⟨n, ?_⟩
  show (j.afterSteps n).traffic.flights[j.id]? = _
  rw [j.traffic_afterSteps n]
  exact hproceed _ hat (by simp [Traffic.taskStage?, ht', hover])

/-! ## The protocol -/

/-- What becomes of a call that is locked. -/
structure IsLocked (j : Journey) (keys : List Key) : Prop where
  /-- The client gets it once at most, with the context and the options of the caller. -/
  once : j.entries = [] ∨ j.entries = [j.call]
  /-- While it is with the client it has the locks of all its keys. -/
  inside : ∀ u, j.At (.inside u) → j.entries = [j.call] ∧
    ∃ task, j.task? = some task ∧ u = some j.task ∧ task.heldKeys = distinctKeys keys
  /-- If it is cancelled the client never gets it, and it returns nothing but that. -/
  cancelled : ∀ task key, j.task? = some task → task.acquisition = .cancelled key →
    j.entries = [] ∧ ∀ result, j.At (.returned (some result)) →
      result = .error (.lockCancelled key)
  /-- A result is what the client answered, unless the call was cancelled. -/
  result : ∀ result, j.At (.returned (some result)) →
    (j.entries = [j.call] ∧ j.Answered result) ∨
      ∃ task key, j.task? = some task ∧ task.acquisition = .cancelled key
  /-- When it has returned, or has been given up and is over, it has no lock, is after none and
  stands in no line. -/
  released : ∀ result, j.At (.returned result) → ∃ task, j.task? = some task ∧ task.guards = [] ∧
    task.pursuit? = none ∧ ∀ lock, j.task ∉ j.traffic.registry.line lock
  /-- As soon as it has all its locks it can go to the client. -/
  enters : j.At (.locking j.task) → (∃ task, j.task? = some task ∧ task.stage = .complete) →
    (j.next (.proceed j.id)).At (.inside (some j.task)) ∧
      (j.next (.proceed j.id)).entries = [j.call]
  /-- When it has been answered, or given up, it returns after steps of its own. -/
  returns : ∀ result, j.At (.returning j.task result) → ∃ n, (j.afterSteps n).At (.returned result)
  /-- When it has been cancelled it returns so after steps of its own. -/
  withdraws : j.At (.locking j.task) → ∀ task key, j.task? = some task →
    task.acquisition = .cancelled key →
      ∃ n, (j.afterSteps n).At (.returned (some (.error (.lockCancelled key))))

namespace Phase

variable {task : Task} {calls : List Call} {stage : FlightStage}

/-- The client gets a call once at most. -/
theorem calls_cases (h : j.Phase task calls stage) : calls = [] ∨ calls = [j.call] := by
  cases h with
  | locking _ | cancelled _ => exact .inl rfl
  | inside _ | answered _ _ | returned _ _ => exact .inr rfl
  | dropped _ hcalls | gone _ hcalls => exact hcalls.imp_right And.left

/-- The client never gets a call that is cancelled, and the call returns nothing else. -/
theorem of_cancelled (h : j.Phase task calls stage) {key : Key}
    (hcancelled : task.acquisition = .cancelled key) :
    calls = [] ∧ ∀ result, stage = .returned (some result) →
      result = .error (.lockCancelled key) := by
  have hending := Task.acquisition_eq_cancelled_iff.mp hcancelled
  have hnever : ∀ {ending : Ending}, task.ending? = some ending →
      ¬ ∀ key, ending ≠ .cancelled key :=
    fun he hne => hne key (Option.some.inj (he.symm.trans hending))
  cases h with
  | locking _ => exact ⟨rfl, fun result hs => by cases hs⟩
  | inside h => simp [Task.ending?, h] at hending
  | answered _ h => exact absurd (by simp) (hnever h)
  | returned _ h => simp [Task.ending?, h] at hending
  | cancelled h =>
    simp only [Task.ending?, h, Option.some.injEq, Ending.cancelled.injEq] at hending
    refine ⟨rfl, fun result hs => ?_⟩
    cases hs
    rw [hending]
  | dropped h hcalls =>
    exact ⟨hcalls.resolve_right fun hreached => hnever h hreached.2, fun result hs => by cases hs⟩
  | gone h hcalls =>
    rename_i ending
    have hover : task.ending? = some ending := by rw [Task.ending?, h]
    exact ⟨hcalls.resolve_right fun hreached => hnever hover hreached.2,
      fun result hs => by cases hs⟩

/-- A result is what the client answered, or the call was cancelled. -/
theorem result_cases {result : Result} (h : j.Phase task calls (.returned (some result))) :
    calls = [j.call] ∧ j.Answered result ∨ ∃ key, task.acquisition = .cancelled key := by
  cases h with
  | returned hresult _ => exact .inl ⟨rfl, hresult⟩
  | cancelled h =>
    exact .inr ⟨_, Task.acquisition_eq_cancelled_iff.mpr (by rw [Task.ending?, h])⟩

/-- The task of a call that has returned is over. -/
theorem over_of_returned {result : Option Result} (h : j.Phase task calls (.returned result)) :
    ∃ ending, task.stage = .over ending := by
  cases h with
  | returned _ h | cancelled h | gone h _ => exact ⟨_, h⟩

/-- The task of a call that is about to return gives everything back. -/
theorem ending_of_returning {result : Option Result}
    (h : j.Phase task calls (.returning j.task result)) :
    ∃ ending, task.ending? = some ending := by
  cases h with
  | answered _ h | dropped h _ => exact ⟨_, h⟩

end Phase

/-- A call in a phase is locked as it should be. -/
theorem InPhase.isLocked (h : j.InPhase) {keys : List Key} (hkeys : j.call.keys? = some keys) :
    j.IsLocked keys := by
  obtain ⟨task, stage, hat, ht, hphase⟩ := h
  have htask : ∀ {task'}, j.task? = some task' → task' = task :=
    fun ht' => Option.some.inj (ht'.symm.trans ht)
  exact
    { once := hphase.calls_cases
      inside := by
        intro u hat'
        obtain ⟨t, task', rfl, ht', hheld⟩ := j.sound.exists_holder hat' rfl hkeys
        obtain rfl := hat.unique hat'
        generalize j.entries = calls at hphase
        cases hphase with
        | inside h => exact ⟨rfl, task', ht', rfl, hheld⟩
      cancelled := by
        intro task' key ht' hcancelled
        obtain rfl := htask ht'
        obtain ⟨hnever, honly⟩ := hphase.of_cancelled hcancelled
        exact ⟨hnever, fun result hat' => honly result (hat.unique hat')⟩
      result := by
        intro result hat'
        obtain rfl := hat.unique hat'
        exact hphase.result_cases.imp_right fun ⟨key, hcancelled⟩ => ⟨task, key, ht, hcancelled⟩
      released := by
        intro result hat'
        obtain rfl := hat.unique hat'
        obtain ⟨ending, hover⟩ := hphase.over_of_returned
        exact ⟨task, ht, j.sound.registry.wellFormed.free_of_over ht hover⟩
      enters := by
        rintro hat' ⟨task', ht', hcomplete⟩
        obtain rfl := hat.unique hat'
        have hentries : j.traffic.entriesOf j.id = [] := by
          change j.entries = []
          generalize j.entries = calls at hphase
          cases hphase
          rfl
        have htask : j.traffic.taskStage? j.task = some .complete := by
          have ht' : j.traffic.registry.tasks[j.task]? = some task' := ht'
          simp [Traffic.taskStage?, ht', hcomplete]
        have hnext := Traffic.proceed_of_complete hat htask
        rwa [← traffic_next, hentries] at hnext
      returns := by
        intro result hat'
        obtain rfl := hat.unique hat'
        obtain ⟨ending, hending⟩ := hphase.ending_of_returning
        refine exists_afterSteps hat ht hending fun s hf hover => ?_
        simp only [Traffic.step, Traffic.proceed, hf, hover]
        exact Traffic.getElem?_setStage_self hf _
      withdraws := by
        intro hat' task' key ht' hcancelled
        have hending := Task.acquisition_eq_cancelled_iff.mp hcancelled
        refine exists_afterSteps hat' ht' hending fun s hf hover => ?_
        simp only [Traffic.step, Traffic.proceed, hf, hover]
        exact Traffic.getElem?_setStage_self hf _ }

/-- A call that looks something up. -/
theorem lookup_of_keys?_eq_none (hkeys : j.call.keys? = none) :
    (j.upTo []).At (.inside none) ∧ j.entries = [j.call] ∧ j.LeavesRegistry ∧
      ∀ result, j.At (.returned (some result)) → j.Answered result := by
  obtain ⟨hopening, -, hregistry⟩ := lookup_opening hkeys
  obtain ⟨stage, hat, hentries, hphase⟩ := exists_lookupPhase hkeys
  refine ⟨hopening, hentries, leavesRegistry_of_taskless hregistry fun mid => ?_, ?_⟩
  · obtain ⟨stage, hat, -, hphase⟩ := (j.upTo mid).exists_lookupPhase hkeys
    exact ⟨stage, hat, hphase.task?_eq_none _⟩
  · intro result hat'
    obtain rfl := hat.unique hat'
    cases hphase with
    | returned h => exact h

end Journey

end Lock

end LvmControl
