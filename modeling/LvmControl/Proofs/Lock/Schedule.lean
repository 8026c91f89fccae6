import LvmControl.Lock.Schedule
import LvmControl.Proofs.Lock.Exclusion
import LvmControl.Proofs.Lock.FlightMoves

/-!
# Turns on one thread are traffic

A schedule decides whose turn it is and nothing else: all that it does to its traffic are actions of
the traffic. So whatever is done to a schedule, its traffic is one of those that any order of
actions leads to, and what holds of all of them holds of it.

## Main definitions

* `Traffic.Leads`: actions lead from one traffic to another.
* `ScheduleAction`: what can be done to a schedule; `Schedule.act` and `Schedule.run` do it.

## Main statements

* `Schedule.leads_tick`: one thing that happens in a schedule is one action at most.
* `Schedule.leads_run`: whatever is done to a schedule, actions lead to its traffic.
* `Schedule.exclusive_of_run`: calls that take turns exclude each other.
-/

namespace LvmControl.Lock

/-- Actions lead from one traffic to another. -/
def Traffic.Leads (s s' : Traffic) : Prop := ∃ actions, s' = s.run actions

namespace Traffic.Leads

theorem refl (s : Traffic) : s.Leads s := ⟨[], rfl⟩

theorem step (s : Traffic) (a : TrafficAction) : s.Leads (s.step a) := ⟨[a], rfl⟩

theorem trans {s s' s'' : Traffic} (h : s.Leads s') (h' : s'.Leads s'') : s.Leads s'' := by
  obtain ⟨actions, rfl⟩ := h
  obtain ⟨more, rfl⟩ := h'
  exact ⟨actions ++ more, (s.run_append actions more).symm⟩

end Traffic.Leads

/-- What can be done to a schedule. -/
inductive ScheduleAction
  | hold (label : String) (keys : List Key) (token : Option Token)
  | call (label : String) (call : Call)
  | release (label : String)
  | abort (label : String)
  | cancel (token : Token)

namespace Schedule

variable (s : Schedule)

/-- The schedule after something has been done to it. -/
def act : ScheduleAction → Schedule
  | .hold label keys token => s.hold label keys token
  | .call label call => s.call label call
  | .release label => s.release label
  | .abort label => s.abort label
  | .cancel token => s.cancel token

/-- The schedule after things have been done to it in order. -/
def run (actions : List ScheduleAction) : Schedule := actions.foldl act s

/-! ## One thing that happens -/

/-- A move is an action of the traffic. -/
theorem leads_move (m : Move) : s.traffic.Leads (s.move m).traffic := by
  cases m with
  | act action => exact .step _ action
  | ask f call =>
    exact .step s.traffic (.answer f (s.client.perform {} s.traffic.registry.fired call).1)

theorem traffic_endTurn (rest : List String) : (s.endTurn rest).traffic = s.traffic := by
  simp only [endTurn]
  split <;> rfl

theorem traffic_putOff (label : String) (rest : List String) :
    (s.putOff label rest).traffic = s.traffic :=
  traffic_endTurn ..

theorem leads_proceed (label : String) (m : Move) :
    s.traffic.Leads (s.proceed label m).traffic := by
  simp only [proceed]
  split
  · rw [traffic_putOff]
    exact s.leads_move m
  · exact s.leads_move m

/-- **One thing that happens** is at most one move. -/
theorem leads_tick : s.traffic.Leads s.tick.traffic := by
  unfold tick
  split
  · exact .refl _
  split
  · exact .refl _
  split
  · rw [traffic_endTurn]
    exact .refl _
  split
  · rw [traffic_putOff]
    exact .refl _
  · exact s.leads_proceed _ _

/-- So are the things that happen until nobody can go on. -/
theorem leads_ticks (n : Nat) : s.traffic.Leads (s.ticks n).traffic := by
  induction n generalizing s with
  | zero => exact .refl _
  | succ n ih =>
    unfold ticks
    split
    · exact .refl _
    · exact s.leads_tick.trans (ih s.tick)

theorem leads_settle : s.traffic.Leads s.settle.traffic :=
  leads_ticks { s with turns := 0 } _

/-! ## What is done to a schedule -/

theorem leads_enroll (label : String) (p : Participant) (action : TrafficAction) :
    s.traffic.Leads (s.enroll label p action).traffic :=
  (Traffic.Leads.step s.traffic action).trans (leads_settle _)

theorem leads_act (a : ScheduleAction) : s.traffic.Leads (s.act a).traffic := by
  cases a with
  | hold label keys token => exact s.leads_enroll ..
  | call label call => exact s.leads_enroll ..
  | release label =>
    exact leads_settle { s with released := label :: s.released, queue := s.queue ++ [label] }
  | abort label =>
    have hmove := leads_move { s with queue := s.queue ++ [label] }
    simp only [act, abort]
    split
    · exact .refl _
    · exact (hmove _).trans (leads_settle _)
    · exact (hmove _).trans (leads_settle _)
  | cancel token =>
    exact (Traffic.Leads.step s.traffic (.registry (.fire token))).trans (leads_settle _)

/-- **Schedules.** Whatever is done to a schedule, all that happens to its traffic are actions of
the traffic. -/
theorem leads_run (actions : List ScheduleAction) : s.traffic.Leads (s.run actions).traffic := by
  induction actions generalizing s with
  | nil => exact .refl _
  | cons a actions ih => exact (s.leads_act a).trans (ih (s.act a))

/-- Calls that take turns on one thread exclude each other like any others. -/
theorem exclusive_of_run (client : Rehearsal) (actions : List ScheduleAction) :
    (run { client } actions).traffic.Exclusive := by
  obtain ⟨steps, hsteps⟩ := leads_run { client } actions
  rw [hsteps]
  exact (Traffic.sound_run steps).exclusive

end Schedule

end LvmControl.Lock
