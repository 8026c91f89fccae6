import LvmControl.Proofs.Lock.Acquisition
import LvmControl.Proofs.Lock.Protocol

/-!
# Locks and the tokens that have fired

A call can be cancelled while its locks are acquired. This module says that this happens only if its
token has fired, and that it happens to every call whose token had fired before the call was made:
its task never has all its keys, so the client never gets the call, and if nobody gives the call up
it returns that it was cancelled.

## Main definitions

* `Course.byItself`: the course of a task that takes its steps while nothing else happens.
* `Task.IsTurnedAway`: a task is on its way to being cancelled at its first key, or was given up.

## Main statements

* `Registry.Reachable.isCancelled_of_ending`: the token of a cancelled task has fired.
* `Registry.acquire_run`: what an acquisition comes to is what its course comes to.
* `Registry.acquire_of_fired`: an acquisition whose token has fired is cancelled.
* `Journey.result_cases`: a result is the client's answer, a refusal, or that the token has fired.
* `Journey.entries_of_fired`: the client never gets a call whose token had fired.
* `Journey.withdraws_of_fired`: such a call returns that it was cancelled unless it is given up.
-/

namespace LvmControl

/-- A token that is among some is among more. -/
theorem any_contains_mono {token : Option Token} {fired fired' : List Token} (hsub : fired ⊆ fired')
    (h : token.any fired.contains = true) : token.any fired'.contains = true := by
  cases token with
  | none => cases h
  | some t => exact List.contains_iff_mem.mpr (hsub (List.contains_iff_mem.mp h))

namespace Lock

/-! ## Cancelled tasks -/

/-- A task that comes to be cancelled has a token that has fired. -/
theorem Task.Move.of_ending {fired : List Token} {t : TaskId} {a : RegistryAction} {old new : Task}
    (h : Move fired t a old new) {key : Key} (he : new.ending? = some (.cancelled key)) :
    old.ending? = some (.cancelled key) ∨ old.isCancelled fired = true := by
  cases h with
  | cancelled _ hc => exact .inr hc
  | returned hs _ | pruned hs _ | ended hs _ => exact .inl (by simpa [ending?, hs] using he)
  | _ => simp [ending?] at he

/-- The course of a task that is added after some actions and takes as many steps as it may need
while nothing else happens. -/
def Course.byItself (before : List RegistryAction) (keys : List Key) (token : Option Token) :
    Course where
  before := before
  keys := keys
  token := token
  since := List.replicate (4 * (distinctKeys keys).length + 4)
    (.advance (Registry.run {} before).tasks.length)

namespace Registry

variable {r : Registry}

/-- A task that is new in a registry has not come to an end. -/
theorem ending?_of_new {a : RegistryAction} {t : TaskId} (hnew : r.tasks[t]? = none) {task : Task}
    (ht : (r.step a).tasks[t]? = some task) : task.ending? = none := by
  rcases (r.step_change a).tasks with htasks | ⟨keys, token, -, htasks⟩ |
    ⟨u, old, new, hu, htasks, -⟩
  · rw [htasks, hnew] at ht
    cases ht
  · rw [htasks] at ht
    rcases getElem?_begin ht with hold | ⟨-, rfl⟩
    · cases hnew.symm.trans hold
    · rfl
  · have hlt : t < (r.tasks.set u new).length := (List.getElem?_eq_some_iff.mp (htasks ▸ ht)).1
    rw [List.length_set] at hlt
    exact absurd (List.getElem?_eq_none_iff.mp hnew) (Nat.not_le.mpr hlt)

/-- **Only by its token.** Whatever happens in a registry, the token of a task that is cancelled has
fired. -/
theorem Reachable.isCancelled_of_ending (h : r.Reachable) {t : TaskId} {task : Task}
    (ht : r.tasks[t]? = some task) {key : Key} (he : task.ending? = some (.cancelled key)) :
    task.isCancelled r.fired = true := by
  obtain ⟨actions, rfl⟩ := h
  induction actions using List.reverseRecOn generalizing t task key with
  | nil => cases ht
  | append_singleton actions a ih =>
    rw [run_append, run_cons, run_nil] at ht ⊢
    have hsub := (run {} actions).fired_subset_step a
    cases hold : (run {} actions).tasks[t]? with
    | none => cases (ending?_of_new hold ht).symm.trans he
    | some old =>
      rcases move_step hold a with hsame | ⟨new, hnew, hmove⟩
      · obtain rfl : old = task := Option.some.inj (hsame.symm.trans ht)
        exact any_contains_mono hsub (ih he hold)
      · obtain rfl : new = task := Option.some.inj (hnew.symm.trans ht)
        have hold' : old.isCancelled (run {} actions).fired = true :=
          (hmove.of_ending he).elim (fun he => ih he hold) id
        rw [Task.isCancelled, hmove.token]
        exact any_contains_mono hsub hold'

/-- A new task that acquires keys while nothing else happens takes as many steps as it may need. -/
theorem settle_begin (r : Registry) (keys : List Key) (token : Option Token) :
    (r.begin keys token).settle r.tasks.length = (r.begin keys token).run
      (List.replicate (4 * (distinctKeys keys).length + 4) (.advance r.tasks.length)) := by
  simp [settle, begin, stepBound, run]

/-- What an acquisition comes to while nothing else happens is what its course comes to. -/
theorem acquire_run (actions : List RegistryAction) (keys : List Key) (token : Option Token) :
    (run {} actions).acquire keys token =
      ((Course.byItself actions keys token).registry,
        ((Course.byItself actions keys token).task?.map Task.acquisition).getD
          (.unfinished none)) := by
  have hregistry : (Course.byItself actions keys token).registry =
      ((run {} actions).begin keys token).settle (run {} actions).tasks.length := by
    rw [Course.registry, run_append, run_cons]
    exact (settle_begin _ _ _).symm
  rw [Course.task?, hregistry]
  rfl

/-- An acquisition whose token has fired is cancelled, however many others there are. -/
theorem acquire_of_fired (h : r.Reachable) {keys : List Key} (hkeys : keys ≠ [])
    {token : Option Token} (hfired : token.any r.fired.contains = true) :
    ∃ key, (r.acquire keys token).2 = .cancelled key := by
  obtain ⟨actions, rfl⟩ := h
  obtain ⟨name, rfl⟩ : ∃ name, token = some name := by
    cases token with
    | none => cases hfired
    | some name => exact ⟨name, rfl⟩
  have hmem : name ∈ (run {} actions).fired := List.contains_iff_mem.mp hfired
  let c := Course.byItself actions keys (some name)
  have hkept : .abandon c.id ∉ c.since := by simp [c, Course.byItself]
  have hcount : 4 ≤ c.since.count (.advance c.id) := by
    have hsame : c.since.count (.advance c.id) = 4 * (distinctKeys keys).length + 4 :=
      List.count_replicate_self
    omega
  obtain ⟨key, -, -, task, ht, -, -, hover⟩ := c.refused_of_fired rfl hmem hkeys hkept
  have hcancelled : task.acquisition = .cancelled key := by rw [Task.acquisition, hover hcount]
  exact ⟨key, by rw [acquire_run, ht]; exact hcancelled⟩

end Registry

/-! ## Tasks that are turned away -/

/-- The task is on its way to being cancelled at the key, which is its first one, or was given
up. -/
def Task.IsTurnedAway (task : Task) (key : Key) : Prop :=
  (task.guards = [] ∧ ∃ n, Course.Refused key n task.stage) ∨ task.ending? = some .abandoned

namespace Task

variable {fired : List Token} {t : TaskId} {a : RegistryAction} {task old new : Task} {key : Key}

/-- A refused task that takes a step goes on to the next stage, whatever the step finds. -/
theorem Move.refused (h : Move fired t (.advance t) old new) (hg : old.guards = [])
    (hc : old.isCancelled fired = true) {n : Nat} (hold : Course.Refused key n old.stage) :
    new.guards = [] ∧ Course.Refused key (n + 1) new.stage := by
  cases h with
  | completed hs =>
    rw [hs] at hold
    cases hold
  | turned _ hs =>
    rw [hs] at hold
    cases hold
    exact ⟨hg, .arrived _ _⟩
  | lined _ hnot | granted _ hnot => exact absurd hc (by simp [hnot])
  | cancelled hs _ =>
    rcases hs with hs | hs <;> rw [hs] at hold <;> cases hold
    refine ⟨hg, ?_⟩
    rw [heldKeys, hg]
    exact .leaving
  | returned _ hguards => cases hg.symm.trans hguards
  | pruned hs _ =>
    rw [hs] at hold
    cases hold
    exact ⟨hg, .pruned⟩
  | ended hs _ =>
    rw [hs] at hold
    cases hold
    exact ⟨hg, .over 0⟩

/-- A task that is turned away stays so, whatever moves it. -/
theorem Move.turnedAway (h : Move fired t a old new) (hc : old.isCancelled fired = true)
    (hold : old.IsTurnedAway key) : new.IsTurnedAway key := by
  rcases hold with ⟨hg, n, hrefused⟩ | habandoned
  · rcases h.isOf with rfl | rfl | rfl
    · obtain ⟨hg', hrefused'⟩ := h.refused hg hc hrefused
      exact .inl ⟨hg', n + 1, hrefused'⟩
    · cases h with
      | finished hs => exact absurd hs hrefused.ne_complete
    · cases h with
      | abandoned hs => exact .inr rfl
  · exact .inr (h.ending habandoned).1

/-- A task that is turned away never has all its keys. -/
theorem IsTurnedAway.ne_complete (h : task.IsTurnedAway key) : task.stage ≠ .complete := by
  rcases h with ⟨-, n, hrefused⟩ | habandoned
  · exact hrefused.ne_complete
  · intro hs
    simp [ending?, hs] at habandoned

end Task

/-- A refused task that takes steps by itself is cancelled after four of them. -/
theorem Registry.exists_over_of_refused {r : Registry} {t : TaskId} {task : Task} {key : Key}
    {n : Nat} (ht : r.tasks[t]? = some task) (hg : task.guards = [])
    (hc : task.isCancelled r.fired = true) (h : Course.Refused key n task.stage) (m : Nat) :
    ∃ task', (r.run (List.replicate m (.advance t))).tasks[t]? = some task' ∧
      Course.Refused key (n + m) task'.stage := by
  induction m generalizing r task n with
  | zero => exact ⟨task, ht, h⟩
  | succ m ih =>
    obtain ⟨next, hnext, hg', htoken, h'⟩ := h.step ht hg hc
    have hc' : next.isCancelled (r.step (.advance t)).fired = true := by
      rw [Task.isCancelled, htoken]
      exact any_contains_mono (r.fired_subset_step _) hc
    obtain ⟨last, hlast, hrefused⟩ := ih hnext hg' hc' h'
    refine ⟨last, hlast, ?_⟩
    rwa [Nat.add_right_comm, Nat.add_assoc] at hrefused

namespace Journey

variable {j : Journey} {keys : List Key}

/-! ## The token of a call -/

/-- What has fired before a call was made has fired. -/
theorem fired_subset (j : Journey) :
    (Traffic.run {} j.before).registry.fired ⊆ j.traffic.registry.fired := by
  induction j using inductionOn with
  | opening =>
    rw [traffic_opening]
    unfold Traffic.start
    split
    · exact List.Subset.refl _
    · split <;> exact List.Subset.refl _
  | next d a ih =>
    rw [traffic_next]
    refine List.Subset.trans ih ?_
    rcases d.sound.registry_step a with hsame | ⟨b, hb, -⟩
    · rw [hsame]
      exact List.Subset.refl _
    · rw [hb]
      exact d.traffic.registry.fired_subset_step b

/-- What the task of a call begins as. -/
theorem task?_opening (hkeys : j.call.keys? = some keys) (hfault : j.call.fault? = none) :
    (j.upTo []).task? =
      some ⟨distinctKeys keys, j.call.context.token, [], .choosing (distinctKeys keys)⟩ := by
  have htraffic := j.traffic_opening
  simp only [Traffic.start, hkeys, hfault] at htraffic
  rw [task?, htraffic]
  exact List.getElem?_concat_length

/-- What the next action does to the task of a call. -/
theorem task?_next {task : Task} (ht : j.task? = some task) (a : TrafficAction) :
    (j.next a).task? = some task ∨ ∃ task' b, (j.next a).task? = some task' ∧
      task.Move j.traffic.registry.fired j.task b task' := by
  have hnext : (j.next a).task? = (j.traffic.step a).registry.tasks[j.task]? := by
    rw [task?, traffic_next]
    rfl
  rw [hnext]
  rcases j.sound.registry_step a with hsame | ⟨b, hb, -⟩
  · rw [hsame]
    exact .inl ht
  · rw [hb]
    rcases Registry.move_step ht b with hstill | ⟨task', ht', hmove⟩
    · exact .inl hstill
    · exact .inr ⟨task', b, ht', hmove⟩

/-- The task of a call has the token of the call. -/
theorem exists_task (hkeys : j.call.keys? = some keys) (hfault : j.call.fault? = none) :
    ∃ task, j.task? = some task ∧ task.token = j.call.context.token := by
  induction j using inductionOn with
  | opening => exact ⟨_, task?_opening (j := _) hkeys hfault, rfl⟩
  | next d a ih =>
    obtain ⟨task, ht, htoken⟩ := ih hkeys hfault
    rcases task?_next ht a with hsame | ⟨task', b, ht', hmove⟩
    · exact ⟨task, hsame, htoken⟩
    · exact ⟨task', ht', hmove.token.trans htoken⟩

/-- **Where a result comes from.** It is what the client answered, or the call was refused, or it
was cancelled and its token has fired. -/
theorem result_cases {result : Result} (hat : j.At (.returned (some result))) :
    (j.entries = [j.call] ∧ j.Answered result) ∨ (∃ e, result = .error (.validation e)) ∨
      ∃ key, result = .error (.lockCancelled key) ∧
        j.call.context.isCancelled j.traffic.registry.fired = true := by
  cases hkeys : j.call.keys? with
  | none =>
    obtain ⟨-, hentries, -, hanswered⟩ := lookup_of_keys?_eq_none hkeys
    exact .inl ⟨hentries, hanswered result hat⟩
  | some keys =>
    cases hfault : j.call.fault? with
    | some e =>
      obtain ⟨hat', -⟩ := at_refused hkeys hfault
      have hstage := hat.unique hat'
      cases hstage
      exact .inr (.inl ⟨e, rfl⟩)
    | none =>
      have hlocked := (inPhase hkeys hfault).isLocked hkeys
      rcases hlocked.result result hat with hanswered | ⟨task, key, ht, hcancelled⟩
      · exact .inl hanswered
      · refine .inr (.inr ⟨key, (hlocked.cancelled task key ht hcancelled).2 result hat, ?_⟩)
        obtain ⟨task', ht', htoken⟩ := exists_task hkeys hfault
        obtain rfl : task' = task := Option.some.inj (ht'.symm.trans ht)
        rw [Context.isCancelled, ← htoken]
        exact j.sound.registry.isCancelled_of_ending ht
          (Task.acquisition_eq_cancelled_iff.mp hcancelled)

/-! ## A token that had fired -/

/-- Keys that are acquired have a first one. -/
theorem exists_first (hne : keys ≠ []) : ∃ key remaining, distinctKeys keys = key :: remaining := by
  obtain ⟨k, hk⟩ := List.exists_mem_of_ne_nil keys hne
  exact List.exists_cons_of_ne_nil (List.ne_nil_of_mem (mem_distinctKeys.mpr hk))

/-- The task of a call whose token had fired is turned away at its first key. -/
theorem turnedAway_of_fired (hkeys : j.call.keys? = some keys) (hfault : j.call.fault? = none)
    {key : Key} {remaining : List Key} (hfirst : distinctKeys keys = key :: remaining)
    (hfired : j.call.context.isCancelled (Traffic.run {} j.before).registry.fired = true) :
    ∃ task, j.task? = some task ∧ task.token = j.call.context.token ∧ task.IsTurnedAway key := by
  induction j using inductionOn with
  | opening =>
    refine ⟨_, task?_opening (j := _) hkeys hfault, rfl, .inl ⟨rfl, 0, ?_⟩⟩
    show Course.Refused key 0 (.choosing (distinctKeys keys))
    rw [hfirst]
    exact .choosing remaining
  | next d a ih =>
    obtain ⟨task, ht, htoken, haway⟩ := ih hkeys hfault hfired
    rcases task?_next ht a with hsame | ⟨task', b, ht', hmove⟩
    · exact ⟨task, hsame, htoken, haway⟩
    · have hc : task.isCancelled d.traffic.registry.fired = true := by
        rw [Task.isCancelled, htoken]
        exact any_contains_mono d.fired_subset hfired
      exact ⟨task', ht', hmove.token.trans htoken, hmove.turnedAway hc haway⟩

/-- Only a call whose task has all its keys can go to the client. -/
theorem At.entries_own {stage : FlightStage} (hat : j.At stage) {a : TrafficAction}
    (ha : a.IsOf j.id)
    (hnever : ∀ t, stage = .locking t → j.traffic.taskStage? t ≠ some .complete) :
    (j.next a).entries = j.entries := by
  have hmove := Traffic.move_step hat ha
  rw [← traffic_next] at hmove
  rw [entries]
  generalize (j.next a).traffic = s' at hmove ⊢
  cases hmove with
  | entered hs hcomplete => exact absurd hcomplete (hnever _ hs)
  | _ => rfl

/-- **The client never gets it.** A call that is locked and whose token had fired does not reach the
client, whatever happens. -/
theorem entries_of_fired (hkeys : j.call.keys? = some keys) (hfault : j.call.fault? = none)
    (hne : keys ≠ [])
    (hfired : j.call.context.isCancelled (Traffic.run {} j.before).registry.fired = true) :
    j.entries = [] := by
  obtain ⟨key, remaining, hfirst⟩ := exists_first hne
  induction j using inductionOn with
  | opening => exact entries_opening (j := j) hkeys hfault
  | next d a ih =>
    have hnone := ih hkeys hfault hfired
    obtain ⟨task, stage, hat, ht, hphase⟩ := inPhase (j := d) hkeys hfault
    by_cases ha : a.IsOf d.id
    · refine (hat.entries_own ha fun t hs hcomplete => ?_).trans hnone
      obtain ⟨task', ht', -, haway⟩ := turnedAway_of_fired (j := d) hkeys hfault hfirst hfired
      subst hs
      generalize d.entries = calls at hphase
      cases hphase with
      | locking _ =>
        have ht' : d.traffic.registry.tasks[d.task]? = some task' := ht'
        exact haway.ne_complete (by simpa [Traffic.taskStage?, ht'] using hcomplete)
    · exact (hat.elsewhere ha).2.trans hnone

/-- The caller of the call has given it up. -/
def IsGivenUp (j : Journey) : Prop := j.At (.returning j.task none) ∨ j.At (.returned none)

/-- A call that has returned does not go on. -/
theorem At.afterSteps {result : Option Result} (h : j.At (.returned result)) (n : Nat) :
    (j.afterSteps n).At (.returned result) := by
  have hf : j.traffic.flights[j.id]? = some ⟨j.call, .returned result⟩ := h
  show (j.afterSteps n).traffic.flights[j.id]? = _
  rw [traffic_afterSteps]
  simp only [Traffic.step, Traffic.proceed, hf]
  rfl

/-- **It returns by itself.** A call that is locked and whose token had fired returns that it was
cancelled after steps of its own, at any moment at which it has not been given up. -/
theorem withdraws_of_fired (hkeys : j.call.keys? = some keys) (hfault : j.call.fault? = none)
    (hne : keys ≠ [])
    (hfired : j.call.context.isCancelled (Traffic.run {} j.before).registry.fired = true)
    (hkept : ¬ j.IsGivenUp) :
    ∃ n key, (j.afterSteps n).At (.returned (some (.error (.lockCancelled key)))) := by
  obtain ⟨key, remaining, hfirst⟩ := exists_first hne
  have hnone := entries_of_fired hkeys hfault hne hfired
  obtain ⟨task, stage, hat, ht, hphase⟩ := inPhase hkeys hfault
  rw [hnone] at hphase
  cases hphase with
  | locking h =>
    obtain ⟨task', ht', htoken, haway⟩ := turnedAway_of_fired hkeys hfault hfirst hfired
    obtain rfl : task' = task := Option.some.inj (ht'.symm.trans ht)
    rcases haway with ⟨hg, m, hrefused⟩ | habandoned
    · have hc : task'.isCancelled j.traffic.registry.fired = true := by
        rw [Task.isCancelled, htoken]
        exact any_contains_mono j.fired_subset hfired
      obtain ⟨last, hlast, hover⟩ := Registry.exists_over_of_refused ht hg hc hrefused 4
      have hstage : last.stage = .over (.cancelled key) := by
        generalize last.stage = s at hover
        cases hover
        rfl
      refine ⟨4, key, ?_⟩
      have hf : j.traffic.flights[j.id]? = some ⟨j.call, .locking j.task⟩ := hat
      show (j.afterSteps 4).traffic.flights[j.id]? = _
      rw [traffic_afterSteps]
      simp only [Traffic.step, Traffic.proceed, hf, Traffic.taskStage?, hlast, Option.map_some,
        hstage]
      exact Traffic.getElem?_setStage_self hf _
    · obtain ⟨key', hcancelled⟩ := h _ habandoned
      cases hcancelled
  | cancelled _ => exact ⟨0, _, hat.afterSteps 0⟩
  | dropped _ _ => exact absurd (.inl hat) hkept
  | gone _ _ => exact absurd (.inr hat) hkept

end Journey

end Lock

end LvmControl
