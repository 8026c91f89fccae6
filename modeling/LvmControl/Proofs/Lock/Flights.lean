import LvmControl.Lock.Traffic
import LvmControl.Proofs.Lock.WellFormed

/-!
# What holds of every call in flight

A flight and its task are two records in two lists, and neither refers back to the other. What ties
them together is that a flight is the only one that finishes its task or gives it up, so the task of
a flight that is with the client still has all the keys of the call.

## Main definitions

* `Flight.ServedBy`: the task acquires, or has, the locks of the call.
* `Traffic.Sound`: how flights and tasks fit together.

## Main statements

* `Traffic.Sound.step`: an action keeps traffic sound.
* `Traffic.sound_run`: traffic that starts with nothing is sound at every moment.
* `Traffic.Sound.exists_holder`: a call that is with the client has the locks of its keys.

## Design notes

**First the flight, then the task.** A call that is answered leaves the client in the same step in
which its task is finished. The two halves commute, and they are looked at in the order in which
traffic stays sound in between: the flight moves on, and then nobody inside relies on the task.
-/

namespace LvmControl.Lock

/-- The task is for the keys of the call, and has all of them while the call is with the client. -/
def Flight.ServedBy (flight : Flight) (task : Task) : Prop :=
  (∃ keys, flight.call.keys? = some keys ∧ task.keys = distinctKeys keys) ∧
    ∀ t, flight.stage = .inside t → task.stage = .complete

namespace Traffic

/-- How flights and tasks fit together. -/
structure Sound (s : Traffic) : Prop where
  registry : s.registry.Reachable
  /-- A task belongs to one flight. -/
  apart : ∀ {f g : FlightId} {a b : Flight} {t : TaskId}, s.flights[f]? = some a →
    s.flights[g]? = some b → a.task? = some t → b.task? = some t → f = g
  served : ∀ {f : FlightId} {flight : Flight} {t : TaskId}, s.flights[f]? = some flight →
    flight.task? = some t → ∃ task, s.registry.tasks[t]? = some task ∧ flight.ServedBy task
  /-- A call that is with the client without a task changes nothing. -/
  unserved : ∀ {f : FlightId} {flight : Flight}, s.flights[f]? = some flight →
    flight.stage = .inside none → flight.call.keys? = none

/-- Where nothing has happened, traffic is sound. -/
theorem sound_empty : Sound {} where
  registry := ⟨[], rfl⟩
  apart := by simp
  served := by simp
  unserved := by simp

namespace Sound

variable {s : Traffic}

/-- Something happens in the registry that leaves the tasks of calls with the client alone. -/
theorem onRegistry (h : s.Sound) {a : RegistryAction}
    (ha : ∀ {f : FlightId} {flight : Flight} {t : TaskId}, s.flights[f]? = some flight →
      flight.stage = .inside (some t) → a ≠ .finish t ∧ a ≠ .abandon t) :
    (s.onRegistry a).Sound where
  registry := h.registry.step a
  apart := h.apart
  served := by
    intro f flight t hf ht
    obtain ⟨task, htask, ⟨keys, hkeys, hdistinct⟩, hinside⟩ := h.served hf ht
    -- The task may have moved, but if the call is with the client it has not.
    obtain ⟨task', htask', hsame, -⟩ := Registry.exists_task_step s.registry htask a
    refine ⟨task', htask', ⟨keys, hkeys, hsame.trans hdistinct⟩, ?_⟩
    intro u hu
    obtain rfl : u = some t := by simpa [Flight.task?, hu] using ht
    obtain ⟨hfinish, habandon⟩ := ha hf hu
    have hkept := Registry.complete_step s.registry htask (hinside _ hu) hfinish habandon
    obtain rfl : task' = task := Option.some.inj (htask'.symm.trans hkept)
    exact hinside _ hu
  unserved := h.unserved

/-- A flight moves on. It keeps its task or is rid of it, and it goes to the client only when its
task has all its keys. -/
theorem setStage (h : s.Sound) {f : FlightId} {flight : Flight} (hf : s.flights[f]? = some flight)
    {stage : FlightStage}
    (htask : ∀ t, (⟨flight.call, stage⟩ : Flight).task? = some t → flight.task? = some t)
    (hinside : ∀ u, stage = .inside u →
      ∃ t task, u = some t ∧ s.registry.tasks[t]? = some task ∧ task.stage = .complete) :
    (s.setStage f flight stage).Sound := by
  have hget := getElem?_set_of_some hf ⟨flight.call, stage⟩
  have hold : ∀ {g : FlightId} {b : Flight} {t : TaskId},
      (s.setStage f flight stage).flights[g]? = some b → b.task? = some t →
        ∃ b', s.flights[g]? = some b' ∧ b'.call = b.call ∧ b'.task? = some t := by
    intro g b t hg ht
    rw [Traffic.setStage, hget] at hg
    split at hg
    · rename_i hgf
      obtain rfl := Option.some.inj hg
      exact ⟨flight, hgf ▸ hf, rfl, htask t ht⟩
    · exact ⟨b, hg, rfl, ht⟩
  exact
    { registry := h.registry
      apart := by
        intro g₁ g₂ a b t hg₁ hg₂ ha hb
        obtain ⟨a', hg₁, -, ha⟩ := hold hg₁ ha
        obtain ⟨b', hg₂, -, hb⟩ := hold hg₂ hb
        exact h.apart hg₁ hg₂ ha hb
      served := by
        intro g b t hg ht
        obtain ⟨b', hg', hcall, ht'⟩ := hold hg ht
        obtain ⟨task, htask, hkeys, hcomplete⟩ := h.served hg' ht'
        refine ⟨task, htask, hcall ▸ hkeys, ?_⟩
        intro u hu
        rw [Traffic.setStage, hget] at hg
        split at hg
        · obtain rfl := Option.some.inj hg
          obtain ⟨t', task', rfl, htask', hs⟩ := hinside u hu
          obtain rfl : t' = t := by simpa [Flight.task?, show stage = _ from hu] using ht
          obtain rfl : task' = task := Option.some.inj (htask'.symm.trans htask)
          exact hs
        · obtain rfl : b' = b := Option.some.inj (hg'.symm.trans hg)
          exact hcomplete u hu
      unserved := by
        intro g b hg hb
        rw [Traffic.setStage, hget] at hg
        split at hg
        · obtain rfl := Option.some.inj hg
          obtain ⟨t, -, hnone, -⟩ := hinside none hb
          cases hnone
        · exact h.unserved hg hb }

/-- A flight is added whose task, if it has one, is no other flight's. -/
theorem addFlight (h : s.Sound) (flight : Flight)
    (hfree : ∀ {g : FlightId} {b : Flight} {t : TaskId}, s.flights[g]? = some b →
      b.task? = some t → flight.task? ≠ some t)
    (hserved : ∀ t, flight.task? = some t →
      ∃ task, s.registry.tasks[t]? = some task ∧ flight.ServedBy task)
    (hunserved : flight.stage = .inside none → flight.call.keys? = none) :
    ({ s with flights := s.flights ++ [flight] } : Traffic).Sound where
  registry := h.registry
  apart := by
    intro g₁ g₂ a b t hg₁ hg₂ ha hb
    rcases getElem?_concat_cases hg₁ with hold₁ | ⟨hlast₁, rfl⟩
    · rcases getElem?_concat_cases hg₂ with hold₂ | ⟨-, rfl⟩
      · exact h.apart hold₁ hold₂ ha hb
      · exact absurd hb (hfree hold₁ ha)
    · rcases getElem?_concat_cases hg₂ with hold₂ | ⟨hlast₂, -⟩
      · exact absurd ha (hfree hold₂ hb)
      · exact hlast₁.trans hlast₂.symm
  served := by
    intro g b t hg ht
    rcases getElem?_concat_cases hg with hg | ⟨-, rfl⟩
    · exact h.served hg ht
    · exact hserved t ht
  unserved := by
    intro g b hg hb
    rcases getElem?_concat_cases hg with hg | ⟨-, rfl⟩
    · exact h.unserved hg hb
    · exact hunserved hb

/-- What has reached the client is a record that nothing depends on. -/
theorem withEntered (h : s.Sound) (entered : List (FlightId × Call)) :
    ({ s with entered := entered } : Traffic).Sound :=
  ⟨h.registry, h.apart, h.served, h.unserved⟩

/-- A call is made. -/
theorem start (h : s.Sound) (call : Call) : (s.start call).Sound := by
  unfold Traffic.start
  cases hkeys : call.keys? with
  | none =>
    have hadd : ({ s with flights := s.flights ++ [⟨call, .inside none⟩] } : Traffic).Sound :=
      h.addFlight _ (by simp [Flight.task?]) (by simp [Flight.task?]) fun _ => hkeys
    exact hadd.withEntered _
  | some keys =>
    cases hfault : call.fault? with
    | some e =>
      exact h.addFlight _ (by simp [Flight.task?]) (by simp [Flight.task?]) (by simp)
    | none =>
      have hbegin := h.onRegistry (a := .begin keys call.context.token) (by simp)
      -- The number of the new task is one that no flight has: theirs are below it.
      refine hbegin.addFlight ⟨call, .locking s.registry.tasks.length⟩ ?_ ?_ (by simp)
      · intro g b t hg ht hnew
        obtain ⟨task, htask, -⟩ := h.served hg ht
        obtain rfl : s.registry.tasks.length = t := by simpa [Flight.task?] using hnew
        simp at htask
      · intro t ht
        obtain rfl : s.registry.tasks.length = t := by simpa [Flight.task?] using ht
        exact ⟨_, List.getElem?_concat_length, ⟨keys, hkeys, rfl⟩, by simp⟩

/-- A call whose task is done with acquiring goes on. -/
theorem proceed (h : s.Sound) (f : FlightId) : (s.proceed f).Sound := by
  unfold Traffic.proceed
  cases hf : s.flights[f]? with
  | none => exact h
  | some flight =>
    cases hstage : flight.stage with
    | locking t =>
      simp only [hstage]
      split
      · rename_i hcomplete
        obtain ⟨task, ht, hs⟩ := Option.map_eq_some_iff.mp hcomplete
        refine (h.setStage hf ?_ ?_).withEntered _
        · simp [Flight.task?, hstage]
        · rintro u hu
          cases hu
          exact ⟨t, task, rfl, ht, hs⟩
      · exact h.setStage hf (by simp [Flight.task?]) (by simp)
      · exact h
    | returning t result =>
      simp only [hstage]
      split
      · exact h.setStage hf (by simp [Flight.task?]) (by simp)
      · exact h
    | inside u => simpa [hstage] using h
    | returned result => simpa [hstage] using h

/-- A flight stops relying on its task, and then something happens to the task. -/
theorem giveBack (h : s.Sound) {f : FlightId} {flight : Flight} {t : TaskId}
    (hf : s.flights[f]? = some flight) (ht : flight.task? = some t) (result : Option Result)
    {a : RegistryAction} (ha : a = .finish t ∨ a = .abandon t) :
    ((s.onRegistry a).setStage f flight (.returning t result)).Sound := by
  have hmoved : (s.setStage f flight (.returning t result)).Sound :=
    h.setStage hf (by simpa [Flight.task?] using ht) (by simp)
  refine hmoved.onRegistry ?_
  intro g b u hg hb
  -- A flight inside with this task would be the one that has just moved on.
  have hut : u ≠ t := by
    rintro rfl
    have hlast : (s.setStage f flight (.returning u result)).flights[f]? =
        some ⟨flight.call, .returning u result⟩ := by
      rw [Traffic.setStage, getElem?_set_of_some hf, if_pos rfl]
    obtain rfl : g = f := hmoved.apart hg hlast (by simp [Flight.task?, hb]) rfl
    obtain rfl : b = _ := Option.some.inj (hg.symm.trans hlast)
    cases hb
  rcases ha with rfl | rfl
  · exact ⟨fun heq => hut (RegistryAction.finish.inj heq).symm, by simp⟩
  · exact ⟨by simp, fun heq => hut (RegistryAction.abandon.inj heq).symm⟩

/-- The client answers a call. -/
theorem answer (h : s.Sound) (f : FlightId) (result : Result) : (s.answer f result).Sound := by
  unfold Traffic.answer
  cases hf : s.flights[f]? with
  | none => exact h
  | some flight =>
    cases hstage : flight.stage with
    | inside u =>
      cases u with
      | none =>
        simp only [hstage]
        exact h.setStage hf (by simp [Flight.task?]) (by simp)
      | some t =>
        simp only [hstage]
        exact h.giveBack hf (by simp [Flight.task?, hstage]) _ (.inl rfl)
    | _ => simpa [hstage] using h

/-- The caller of a call gives it up. -/
theorem drop (h : s.Sound) (f : FlightId) : (s.drop f).Sound := by
  unfold Traffic.drop
  cases hf : s.flights[f]? with
  | none => exact h
  | some flight =>
    cases hstage : flight.stage with
    | locking t =>
      simp only [hstage]
      exact h.giveBack hf (by simp [Flight.task?, hstage]) none (.inr rfl)
    | inside u =>
      cases u with
      | none =>
        simp only [hstage]
        exact h.setStage hf (by simp [Flight.task?]) (by simp)
      | some t =>
        simp only [hstage]
        exact h.giveBack hf (by simp [Flight.task?, hstage]) none (.inr rfl)
    | returning t result =>
      simp only [hstage]
      exact h.setStage hf (by simp [Flight.task?, hstage]) (by simp)
    | returned result => simpa [hstage] using h

/-- Something happens in the registry on its own account. -/
theorem permitted (h : s.Sound) {a : RegistryAction} (ha : s.permits a = true) :
    (s.onRegistry a).Sound := by
  refine h.onRegistry ?_
  intro f flight t hf hstage
  have howned : s.isOwned t = true :=
    List.any_eq_true.mpr
      ⟨flight, List.mem_of_getElem? hf, by simp [Flight.task?, hstage]⟩
  constructor
  · rintro rfl
    simp [permits, howned] at ha
  · rintro rfl
    simp [permits, howned] at ha

/-- **Preservation.** An action keeps traffic sound. -/
theorem step (h : s.Sound) (a : TrafficAction) : (s.step a).Sound := by
  cases a with
  | call call => exact h.start call
  | registry action =>
    simp only [Traffic.step]
    split
    · rename_i ha
      exact h.permitted ha
    · exact h
  | proceed f => exact h.proceed f
  | answer f result => exact h.answer f result
  | drop f => exact h.drop f

/-- Actions in order keep traffic sound. -/
theorem run (h : s.Sound) (actions : List TrafficAction) : (s.run actions).Sound := by
  induction actions generalizing s with
  | nil => exact h
  | cons a as ih => exact ih (h.step a)

/-- A call that changes something and is with the client has a task that holds exactly its keys. -/
theorem exists_holder (h : s.Sound) {f : FlightId} {flight : Flight} {u : Option TaskId}
    {keys : List Key} (hf : s.flights[f]? = some flight) (hstage : flight.stage = .inside u)
    (hkeys : flight.call.keys? = some keys) :
    ∃ t task, u = some t ∧ s.registry.tasks[t]? = some task ∧
      task.heldKeys = distinctKeys keys := by
  cases u with
  | none => simp [h.unserved hf hstage] at hkeys
  | some t =>
    obtain ⟨task, htask, ⟨keys', hkeys', hdistinct⟩, hcomplete⟩ :=
      h.served hf (t := t) (by simp [Flight.task?, hstage])
    obtain rfl : keys' = keys := Option.some.inj (hkeys'.symm.trans hkeys)
    have hprogress := (h.registry.wellFormed.orderly htask).progress
    rw [Task.Progress, hcomplete _ hstage] at hprogress
    exact ⟨t, task, rfl, htask, hprogress.trans hdistinct⟩

end Sound

/-- Traffic that starts with nothing is sound at every moment. -/
theorem sound_run (actions : List TrafficAction) : (Traffic.run {} actions).Sound :=
  sound_empty.run actions

end Traffic

end LvmControl.Lock
