import LvmControl.Proofs.Lock.Flights
import LvmControl.Proofs.Lock.Moves
import Mathlib.Data.List.Induction

/-!
# What becomes of one flight

A flight goes on, is answered and is given up by actions that bear its number. All other actions
leave the flight as it is, and its task in the hands of the registry.

## Main definitions

* `TrafficAction.IsOf`: the actions of a flight.
* `Traffic.Move`: what they do.
* `Traffic.entriesOf`: what has reached the client on account of a flight.

## Main statements

* `Traffic.move_step`: an action of a flight makes one of its moves.
* `Traffic.elsewhere_step`: an action of others leaves the flight as it is.
* `Traffic.Sound.registry_step`: what an action comes to in the registry.
* `Traffic.Sound.task_step`: the task of a flight only takes steps of its own as long as others act.
-/

namespace LvmControl.Lock

/-- The action goes on with the flight, answers it or gives it up. -/
def TrafficAction.IsOf (f : FlightId) (a : TrafficAction) : Prop :=
  a = .proceed f ∨ (∃ result, a = .answer f result) ∨ a = .drop f

namespace Traffic

variable {s : Traffic} {f : FlightId} {flight : Flight}

/-- What has reached the client on account of a flight. -/
def entriesOf (s : Traffic) (f : FlightId) : List Call :=
  (s.entered.filter fun e => e.1 = f).map Prod.snd

/-- What has reached the client when one more call has. -/
theorem entriesOf_concat (s : Traffic) (f : FlightId) (call : Call) :
    ({ s with entered := s.entered ++ [(f, call)] } : Traffic).entriesOf f =
      s.entriesOf f ++ [call] := by
  simp [entriesOf]

theorem run_append (s : Traffic) (as bs : List TrafficAction) :
    s.run (as ++ bs) = (s.run as).run bs := by
  simp [run]

/-- What the actions of a flight do. -/
inductive Move (s : Traffic) (f : FlightId) (flight : Flight) : TrafficAction → Traffic → Prop
  | rests (a : TrafficAction) : Move s f flight a s
  /-- It goes to the client. -/
  | entered {t : TaskId} (hs : flight.stage = .locking t) (ht : s.taskStage? t = some .complete) :
      Move s f flight (.proceed f)
        { s.setStage f flight (.inside (some t)) with
          entered := s.entered ++ [(f, flight.call)] }
  /-- It returns without having been there. -/
  | failed {t : TaskId} {key : Key} (hs : flight.stage = .locking t)
      (ht : s.taskStage? t = some (.over (.cancelled key))) :
      Move s f flight (.proceed f)
        (s.setStage f flight (.returned (some (.error (.lockCancelled key)))))
  /-- It returns when it has given its locks back. -/
  | landed {t : TaskId} {result : Option Result} {ending : Ending}
      (hs : flight.stage = .returning t result) (ht : s.taskStage? t = some (.over ending)) :
      Move s f flight (.proceed f) (s.setStage f flight (.returned result))
  | replied {result : Result} (hs : flight.stage = .inside none) :
      Move s f flight (.answer f result) (s.setStage f flight (.returned (some result)))
  | answered {t : TaskId} {result : Result} (hs : flight.stage = .inside (some t)) :
      Move s f flight (.answer f result)
        ((s.onRegistry (.finish t)).setStage f flight (.returning t (some result)))
  /-- It is given up while it has a task. -/
  | left {t : TaskId} (hs : flight.stage = .locking t ∨ flight.stage = .inside (some t)) :
      Move s f flight (.drop f)
        ((s.onRegistry (.abandon t)).setStage f flight (.returning t none))
  /-- It is given up while it looks something up. -/
  | ignored (hs : flight.stage = .inside none) :
      Move s f flight (.drop f) (s.setStage f flight (.returned none))
  /-- It is given up when it is done but for its locks. -/
  | forgotten {t : TaskId} {result : Option Result} (hs : flight.stage = .returning t result) :
      Move s f flight (.drop f) (s.setStage f flight (.returning t none))

/-- A flight that is given a new stage has it. -/
theorem getElem?_setStage_self (hf : s.flights[f]? = some flight) (stage : FlightStage) :
    (s.setStage f flight stage).flights[f]? = some ⟨flight.call, stage⟩ := by
  rw [setStage, getElem?_set_of_some hf, if_pos rfl]

/-- **One action of a flight.** It makes one of the moves. -/
theorem move_step (hf : s.flights[f]? = some flight) {a : TrafficAction} (ha : a.IsOf f) :
    s.Move f flight a (s.step a) := by
  rcases ha with rfl | ⟨result, rfl⟩ | rfl
  · simp only [step, proceed, hf]
    cases hs : flight.stage with
    | locking t =>
      simp only
      split
      · exact .entered hs ‹_›
      · exact .failed hs ‹_›
      · exact .rests _
    | returning t result =>
      simp only
      split
      · exact .landed hs ‹_›
      · exact .rests _
    | _ => exact .rests _
  · simp only [step, answer, hf]
    cases hs : flight.stage with
    | inside u =>
      cases u with
      | none => exact .replied hs
      | some t => exact .answered hs
    | _ => exact .rests _
  · simp only [step, drop, hf]
    cases hs : flight.stage with
    | locking t => exact .left (.inl hs)
    | inside u =>
      cases u with
      | none => exact .ignored hs
      | some t => exact .left (.inr hs)
    | returning t result => exact .forgotten hs
    | returned result => exact .rests _

/-- A flight without a task rests, or returns from the client when it is answered or given up. -/
theorem Move.of_taskless {a : TrafficAction} {s' : Traffic} (h : s.Move f flight a s')
    (hnone : flight.task? = none) :
    s' = s ∨ flight.stage = .inside none ∧
      ((∃ result, a = .answer f result ∧ s' = s.setStage f flight (.returned (some result))) ∨
        s' = s.setStage f flight (.returned none)) := by
  cases h with
  | rests _ => exact .inl rfl
  | replied hs => exact .inr ⟨hs, .inl ⟨_, rfl, rfl⟩⟩
  | ignored hs => exact .inr ⟨hs, .inr rfl⟩
  | entered hs _ | failed hs _ | landed hs _ | answered hs | forgotten hs =>
    simp [Flight.task?, hs] at hnone
  | left hs => rcases hs with hs | hs <;> simp [Flight.task?, hs] at hnone

/-- A flight whose task has all its keys goes to the client. -/
theorem proceed_of_complete {call : Call} {t : TaskId}
    (hf : s.flights[f]? = some ⟨call, .locking t⟩) (ht : s.taskStage? t = some .complete) :
    (s.step (.proceed f)).flights[f]? = some ⟨call, .inside (some t)⟩ ∧
      (s.step (.proceed f)).entriesOf f = s.entriesOf f ++ [call] := by
  simp only [step, proceed, hf, ht]
  exact ⟨getElem?_setStage_self hf _, entriesOf_concat _ f call⟩

/-- An action belongs to a flight that there is, or it starts a call, or it is one of the registry,
or it does nothing. -/
theorem step_cases (s : Traffic) (a : TrafficAction) :
    (∃ call, a = .call call) ∨ (∃ b, a = .registry b) ∨ s.step a = s ∨
      ∃ f flight, a.IsOf f ∧ s.flights[f]? = some flight := by
  have hown : ∀ f, a.IsOf f → (s.flights[f]? = none → s.step a = s) → s.step a = s ∨
      ∃ f flight, a.IsOf f ∧ s.flights[f]? = some flight := by
    intro f ha hnone
    cases hf : s.flights[f]? with
    | none => exact .inl (hnone hf)
    | some flight => exact .inr ⟨f, flight, ha, hf⟩
  cases a with
  | call call => exact .inl ⟨call, rfl⟩
  | registry b => exact .inr (.inl ⟨b, rfl⟩)
  | proceed f =>
    exact .inr (.inr (hown f (.inl rfl) fun hf => by simp [step, proceed, hf]))
  | answer f result =>
    exact .inr (.inr (hown f (.inr (.inl ⟨result, rfl⟩)) fun hf => by simp [step, answer, hf]))
  | drop f => exact .inr (.inr (hown f (.inr (.inr rfl)) fun hf => by simp [step, drop, hf]))

/-- What an action leaves to a flight that it is not of: the flight, and what has reached the client
on its account. -/
theorem elsewhere_step (hf : s.flights[f]? = some flight) {a : TrafficAction} (ha : ¬ a.IsOf f) :
    (s.step a).flights[f]? = some flight ∧ (s.step a).entriesOf f = s.entriesOf f := by
  have hlt : f < s.flights.length := (List.getElem?_eq_some_iff.mp hf).1
  rcases s.step_cases a with ⟨call, rfl⟩ | ⟨b, rfl⟩ | hnothing | ⟨g, other, hg, hother⟩
  · simp only [step, start]
    split
    · refine ⟨getElem?_concat_of_some hf _, ?_⟩
      simp [entriesOf, Nat.ne_of_gt hlt]
    · split <;> exact ⟨getElem?_concat_of_some hf _, rfl⟩
  · simp only [step]
    split <;> exact ⟨hf, rfl⟩
  · rw [hnothing]
    exact ⟨hf, rfl⟩
  · have hfg : f ≠ g := by
      rintro rfl
      exact ha hg
    have hset : ∀ stage, (s.setStage g other stage).flights[f]? = some flight := by
      intro stage
      rw [setStage, getElem?_set_of_some hother, if_neg hfg, hf]
    have hmove := move_step hother hg
    generalize s.step a = s' at hmove
    cases hmove with
    | rests _ => exact ⟨hf, rfl⟩
    | entered hs ht => exact ⟨hset _, by simp [entriesOf, hfg.symm]⟩
    | _ => exact ⟨hset _, rfl⟩

/-- What has reached the client did so on account of a flight that there is. -/
theorem entered_lt_run (actions : List TrafficAction) :
    ∀ e ∈ (Traffic.run {} actions).entered, e.1 < (Traffic.run {} actions).flights.length := by
  induction actions using List.reverseRecOn with
  | nil => simp
  | append_singleton actions a ih =>
    rw [run_append, run_cons, run_nil]
    generalize Traffic.run {} actions = s at ih
    rcases s.step_cases a with ⟨call, rfl⟩ | ⟨b, rfl⟩ | hnothing | ⟨g, other, hg, hother⟩
    · have hmore : ∀ e ∈ s.entered, e.1 < s.flights.length + 1 :=
        fun e he => Nat.lt_succ_of_lt (ih e he)
      simp only [step, start]
      split
      · simpa [or_imp, forall_and] using hmore
      · split <;> simpa using hmore
    · simp only [step]
      split <;> exact ih
    · rwa [hnothing]
    · have hlt : g < s.flights.length := (List.getElem?_eq_some_iff.mp hother).1
      have hset : ∀ stage, ∀ e ∈ s.entered, e.1 < (s.setStage g other stage).flights.length :=
        fun stage e he => by simpa [setStage] using ih e he
      have hmove := move_step hother hg
      generalize s.step a = s' at hmove
      cases hmove with
      | rests _ => exact ih
      | entered hs ht =>
        intro e he
        rcases List.mem_append.mp he with he | he
        · exact hset _ e he
        · simpa [List.mem_singleton.mp he, setStage] using hlt
      | _ => exact hset _

namespace Sound

/-- What an action comes to in the registry. A task that belongs to a flight is finished and given
up only by actions of the flight. -/
theorem registry_step (h : s.Sound) (a : TrafficAction) :
    (s.step a).registry = s.registry ∨
      ∃ b, (s.step a).registry = s.registry.step b ∧
        ∀ {f : FlightId} {flight : Flight} {t : TaskId}, s.flights[f]? = some flight →
          flight.task? = some t → b = .finish t ∨ b = .abandon t → a.IsOf f := by
  rcases s.step_cases a with ⟨call, rfl⟩ | ⟨b, rfl⟩ | hnothing | ⟨g, other, hg, hother⟩
  · simp only [Traffic.step, Traffic.start]
    split
    · exact .inl rfl
    · split
      · exact .inl rfl
      · exact .inr ⟨.begin _ _, rfl, by simp⟩
  · simp only [Traffic.step]
    split
    · rename_i hpermits
      refine .inr ⟨b, rfl, fun {f flight t} hf ht hb => ?_⟩
      have howned : s.isOwned t = true :=
        List.any_eq_true.mpr ⟨flight, List.mem_of_getElem? hf, by simp [ht]⟩
      rcases hb with rfl | rfl <;> simp [permits, howned] at hpermits
    · exact .inl rfl
  · exact .inl (by rw [hnothing])
  · have hown : ∀ {t : TaskId}, other.task? = some t → ∀ {f : FlightId} {flight : Flight},
        s.flights[f]? = some flight → flight.task? = some t → a.IsOf f := by
      intro t htask f flight hf ht
      rwa [h.apart hf hother ht htask]
    have hmove := move_step hother hg
    generalize s.step a = s' at hmove hown ⊢
    cases hmove with
    | answered hs =>
      rename_i t result
      refine .inr ⟨.finish t, rfl, fun {f flight u} hf hu hb => ?_⟩
      obtain rfl : t = u := by simpa using hb
      exact hown (by simp [Flight.task?, hs]) hf hu
    | left hs =>
      rename_i t
      refine .inr ⟨.abandon t, rfl, fun {f flight u} hf hu hb => ?_⟩
      obtain rfl : t = u := by simpa using hb
      exact hown (by rcases hs with hs | hs <;> simp [Flight.task?, hs]) hf hu
    | _ => exact .inl rfl

/-- **The task of a flight.** As long as others act it only takes steps of its own. -/
theorem task_step (h : s.Sound) (hf : s.flights[f]? = some flight) {t : TaskId}
    (ht : flight.task? = some t) {task : Task} (htask : s.registry.tasks[t]? = some task)
    {a : TrafficAction} (ha : ¬ a.IsOf f) :
    (s.step a).registry.tasks[t]? = some task ∨
      ∃ task', (s.step a).registry.tasks[t]? = some task' ∧
        task.Move s.registry.fired t (.advance t) task' := by
  rcases h.registry_step a with hsame | ⟨b, hb, hown⟩
  · exact .inl (hsame ▸ htask)
  · rw [hb]
    refine (Registry.move_step htask b).imp_right fun ⟨task', htask', hmove⟩ => ⟨task', htask', ?_⟩
    rcases hmove.isOf with rfl | hb
    · exact hmove
    · exact absurd (hown hf ht hb) ha

/-- A task that is over stays as it is, whatever happens. -/
theorem over_step (h : s.Sound) {t : TaskId} {task : Task}
    (htask : s.registry.tasks[t]? = some task) {ending : Ending} (hs : task.stage = .over ending)
    (a : TrafficAction) : (s.step a).registry.tasks[t]? = some task := by
  rcases h.registry_step a with hsame | ⟨b, hb, -⟩
  · exact hsame ▸ htask
  · rw [hb]
    rcases Registry.move_step htask b with hstill | ⟨task', -, hmove⟩
    · exact hstill
    · exact absurd hs (hmove.not_over ending)

end Sound

/-- What the registry does by itself for a task changes nothing but the registry. -/
theorem run_replicate_advance (s : Traffic) (t : TaskId) (n : Nat) :
    s.run (List.replicate n (.registry (.advance t))) =
      { s with registry := s.registry.run (List.replicate n (.advance t)) } := by
  induction n generalizing s with
  | zero => rfl
  | succ n ih =>
    rw [List.replicate_succ, List.replicate_succ, run_cons, ih]
    rfl

end Traffic

end LvmControl.Lock
