import LvmControl.Proofs.Lock.Acquisition

/-!
# Tasks with keys of their own

All tasks share the entries of one registry: they make locks for each other, stand in the same lines
and prune each other's keys. A task whose keys nobody else is after must notice nothing of that. It
gets each key as soon as it asks for it, and what becomes of it is what would become of it if there
were no other task.

## Main definitions

* `Task.wanted`: the keys that a task requests or has.
* `Course.Apart`: while the task acquires its keys no other task wants any of them.
* `Course.alone`: the same course without the other tasks.
* `Task.unnumbered`: a task without the numbers of its locks, which depend on what others do.
* `Task.onward`: what a task does when nobody is in its way.
* `Course.Undisturbed`: what a task with keys of its own can rely on.

## Main statements

* `Registry.WellFormed.line_eq_nil`: the line for a key that nobody else wants is empty.
* `Registry.exists_onward`: one action, as a function of the task alone.
* `Course.apart_of_disjoint`: keys that are disjoint from those that others ask for are apart.
* `Course.undisturbed`: a task with keys of its own is undisturbed.

## Design notes

**Two courses step by step.** The course and the course without the others go through their actions
side by side. An action of the task is taken in both and does the same in both by
`Registry.exists_onward`; an action of another task is taken in one of them only and leaves the task
there as it is.

**Numbers of locks.** Where a task is alone its locks have other numbers than where others have made
locks before it. No task can tell, so the two are compared without the numbers.
-/

namespace LvmControl.Lock

/-! ## A task by itself -/

/-- The stage without the number of a lock. -/
def Stage.unnumbered : Stage → Stage
  | .arrived key _ remaining => .arrived key 0 remaining
  | .queued key _ remaining => .queued key 0 remaining
  | stage => stage

namespace Task

/-- The task without the numbers of its locks. -/
def unnumbered (task : Task) : Task :=
  { task with guards := task.guards.map fun g => (g.1, 0), stage := task.stage.unnumbered }

/-- The keys that a task requests or has. A task that gives everything back requests nothing. -/
def wanted (task : Task) : List Key :=
  match task.ending? with
  | none => task.keys
  | some _ => task.heldKeys

/-- A task acquires its keys until it has all of them or gives them back. -/
def Acquires (task : Task) : Prop := task.stage ≠ .complete ∧ task.ending? = none

/-- What an action of a task makes of it if nobody is in its way, apart from the numbers of
locks. -/
def onward (task : Task) (cancelled : Bool) : RegistryAction → Task
  | .advance _ =>
    match task.stage with
    | .choosing [] => { task with stage := .complete }
    | .choosing (key :: remaining) => { task with stage := .arrived key 0 remaining }
    | .arrived key _ remaining =>
      if cancelled then task.leave (.cancelled key) (task.heldKeys ++ [key])
      else task.grant key 0 remaining
    | .leaving ending stale =>
      match task.guards, stale with
      | _ :: guards, _ => { task with guards := guards }
      | [], _ :: rest => task.leave ending rest
      | [], [] => { task with stage := .over ending }
    | .queued _ _ _ | .complete | .over _ => task
  | .finish _ => if task.stage = .complete then task.leave .released task.heldKeys else task
  | .abandon _ => if task.ending? = none then task.leave .abandoned task.heldKeys else task
  | .begin _ _ | .fire _ => task

/-- How far a task is after so many steps of its own: two for every key that it has. -/
def Paced (task : Task) (steps : Nat) : Prop :=
  match task.stage with
  | .choosing _ => steps = 2 * task.guards.length
  | .arrived _ _ _ => steps = 2 * task.guards.length + 1
  | .queued _ _ _ => False
  | .complete => 2 * task.guards.length < steps
  | .leaving _ _ | .over _ => True

variable {task twin : Task}

@[simp] theorem heldKeys_unnumbered (task : Task) : task.unnumbered.heldKeys = task.heldKeys := by
  simp [unnumbered, heldKeys]

@[simp] theorem unnumbered_leave (task : Task) (ending : Ending) (stale : List Key) :
    (task.leave ending stale).unnumbered = task.unnumbered.leave ending stale := rfl

@[simp] theorem ending?_unnumbered (task : Task) : task.unnumbered.ending? = task.ending? := by
  cases hs : task.stage <;> simp [ending?, unnumbered, hs, Stage.unnumbered]

@[simp] theorem complete_unnumbered_iff :
    task.unnumbered.stage = .complete ↔ task.stage = .complete := by
  cases hs : task.stage <;> simp [unnumbered, hs, Stage.unnumbered]

@[simp] theorem acquisition_unnumbered (task : Task) :
    task.unnumbered.acquisition = task.acquisition := by
  have hheld := task.heldKeys_unnumbered
  cases hs : task.stage with
  | leaving ending stale => cases ending <;> simp [acquisition, unnumbered, hs, Stage.unnumbered]
  | «over» ending => cases ending <;> simp [acquisition, unnumbered, hs, Stage.unnumbered]
  | complete => simpa [acquisition, unnumbered, hs, Stage.unnumbered] using hheld
  | _ => simp [acquisition, unnumbered, hs, Stage.unnumbered]

@[simp] theorem paced_unnumbered {steps : Nat} :
    task.unnumbered.Paced steps ↔ task.Paced steps := by
  cases hs : task.stage <;> simp [Paced, unnumbered, hs, Stage.unnumbered]

/-- A task that keeps pace stands in no line without having the lock. -/
theorem Paced.awaited? {steps : Nat} (h : task.Paced steps) : task.awaited? = none := by
  cases hs : task.stage with
  | queued key lock remaining => simp [Paced, hs] at h
  | _ => simp [Task.awaited?, hs]

/-- A task that nobody is in the way of keeps pace. -/
theorem Paced.onward {steps : Nat} (h : task.Paced steps) (cancelled : Bool) {t : TaskId}
    {a : RegistryAction} (ha : a.IsOf t) :
    (task.onward cancelled a).Paced (steps + [a].count (.advance t)) := by
  rcases ha with rfl | rfl | rfl
  · rw [List.count_singleton_self]
    cases hs : task.stage with
    | choosing remaining =>
      have hsteps : steps = 2 * task.guards.length := by simpa [Paced, hs] using h
      cases remaining <;> simp [Task.onward, hs, Paced, hsteps]
    | arrived key lock remaining =>
      have hsteps : steps = 2 * task.guards.length + 1 := by simpa [Paced, hs] using h
      cases cancelled
      · simp [Task.onward, hs, Paced, hsteps, Nat.mul_add]
      · simp [Task.onward, hs, Paced]
    | queued key lock remaining => simp [Paced, hs] at h
    | complete =>
      have hsteps : 2 * task.guards.length < steps := by simpa [Paced, hs] using h
      simpa [Task.onward, hs, Paced] using Nat.lt_succ_of_lt hsteps
    | leaving ending stale =>
      cases hg : task.guards <;> cases stale <;> simp [Task.onward, hs, hg, Paced]
    | «over» ending => simp [Task.onward, hs, Paced]
  · have hcount : [RegistryAction.finish t].count (.advance t) = 0 := by simp
    rw [hcount, Nat.add_zero, Task.onward]
    split
    · simp [Paced]
    · exact h
  · have hcount : [RegistryAction.abandon t].count (.advance t) = 0 := by simp
    rw [hcount, Nat.add_zero, Task.onward]
    split
    · simp [Paced]
    · exact h

/-- A task that keeps pace and gives nothing back has a key for every two steps of its own. -/
theorem Paced.heldKeys_eq {steps : Nat} (h : task.Paced steps) (ho : task.Orderly)
    (hending : task.ending? = none) :
    task.heldKeys = task.keys.take (steps / 2) ∧
      (task.stage = .complete ↔ 2 * task.keys.length < steps) := by
  have hprogress := ho.progress
  have hlength : task.heldKeys.length = task.guards.length := by simp [heldKeys]
  cases hs : task.stage with
  | choosing remaining =>
    rw [Progress, hs] at hprogress
    have hsteps : steps = 2 * task.heldKeys.length := by simpa [Paced, hs, hlength] using h
    have hhalf : steps / 2 = task.heldKeys.length := by omega
    refine ⟨by rw [← hprogress, hhalf, List.take_left], iff_of_false (by simp) ?_⟩
    rw [← hprogress, List.length_append]
    omega
  | arrived key lock remaining =>
    rw [Progress, hs] at hprogress
    have hsteps : steps = 2 * task.heldKeys.length + 1 := by simpa [Paced, hs, hlength] using h
    have hhalf : steps / 2 = task.heldKeys.length := by omega
    refine ⟨by rw [← hprogress, hhalf, List.take_left], iff_of_false (by simp) ?_⟩
    rw [← hprogress, List.length_append, List.length_cons]
    omega
  | queued key lock remaining => simp [Paced, hs] at h
  | complete =>
    rw [Progress, hs] at hprogress
    have hsteps : 2 * task.heldKeys.length < steps := by simpa [Paced, hs, hlength] using h
    have hhalf : task.heldKeys.length ≤ steps / 2 := by omega
    rw [← hprogress]
    exact ⟨(List.take_of_length_le hhalf).symm, iff_of_true rfl hsteps⟩
  | leaving ending stale | «over» ending => simp [ending?, hs] at hending

/-- A task that is after a key acquires. -/
theorem acquires_of_pursuit {e : Key × LockId} (h : task.pursuit? = some e) : task.Acquires := by
  cases hs : task.stage with
  | arrived key lock remaining | queued key lock remaining => simp [Acquires, ending?, hs]
  | _ => simp [pursuit?, hs] at h

/-- What a task uses it wants. -/
theorem UsesFor.mem_wanted {e : Key × LockId} (h : task.UsesFor e) (ho : task.Orderly) :
    e.1 ∈ task.wanted := by
  unfold wanted
  rcases h with hguard | hpursuit
  · have hheld : e.1 ∈ task.heldKeys := List.mem_map_of_mem (f := Prod.fst) hguard
    split
    · exact ho.heldKeys_sublist.subset hheld
    · exact hheld
  · obtain ⟨rest, hkeys⟩ := ho.exists_keys_of_nextKey (nextKey?_of_pursuit hpursuit)
    rw [(acquires_of_pursuit hpursuit).2]
    exact hkeys ▸ by simp

/-- A task wants only keys that it was asked for. -/
theorem wanted_subset (ho : task.Orderly) : task.wanted ⊆ task.keys := by
  unfold wanted
  split
  · exact List.Subset.refl _
  · exact ho.heldKeys_sublist.subset

end Task

/-! ## A task among others -/

namespace Registry

variable {r : Registry} {t : TaskId} {task : Task}

/-- A task that has not asked for the key that it is after does not stand in the line for it. -/
theorem WellFormed.not_mem_line_of_pursuit (h : r.WellFormed) (ht : r.tasks[t]? = some task)
    (hawaited : task.awaited? = none) {e : Key × LockId} (he : task.pursuit? = some e) :
    t ∉ r.line e.2 := by
  rw [h.mem_line_iff ht]
  rintro (hguard | hwaits)
  · exact h.not_mem_guards_of_pursuit ht he hguard
  · cases hawaited.symm.trans hwaits

/-- The line for a key that nobody else wants is empty before the task stands in it. -/
theorem WellFormed.line_eq_nil (h : r.WellFormed) (ht : r.tasks[t]? = some task)
    (hawaited : task.awaited? = none)
    (hothers : ∀ u other, u ≠ t → r.tasks[u]? = some other → other.wanted.Disjoint task.keys)
    {e : Key × LockId} (he : task.pursuit? = some e) : r.line e.2 = [] := by
  refine List.eq_nil_iff_forall_not_mem.mpr fun u hu => ?_
  obtain ⟨other, hother, hstands⟩ := (h.mem_line e.2 u).mp hu
  by_cases hut : u = t
  · exact h.not_mem_line_of_pursuit ht hawaited he (hut ▸ hu)
  · -- Who stands in the line uses the lock for the same key.
    obtain ⟨key, huses⟩ := hstands.exists_usesFor
    have hkey : key = e.1 :=
      h.key_unique (h.registered hother _ huses) (h.registered ht e (.inr he))
    obtain ⟨rest, hkeys⟩ :=
      (h.orderly ht).exists_keys_of_nextKey (Task.nextKey?_of_pursuit he)
    have hmem : e.1 ∈ task.keys := hkeys ▸ by simp
    exact hothers u other hut hother (huses.mem_wanted (h.orderly hother)) (hkey ▸ hmem)

/-- A step of a task in whose way there is nobody is a function of the task alone. -/
theorem exists_onward_advance (ht : r.tasks[t]? = some task) (hawaited : task.awaited? = none)
    (hline : ∀ e, task.pursuit? = some e → r.line e.2 = []) :
    ∃ new, (r.step (.advance t)).tasks[t]? = some new ∧
      new.unnumbered = task.unnumbered.onward (task.isCancelled r.fired) (.advance t) := by
  -- The task as the registry has it after a step that replaces it.
  have hset : ∀ new, (r.tasks.set t new)[t]? = some new := fun new => by
    simp [getElem?_set_of_some ht]
  cases hs : task.stage with
  | choosing remaining =>
    cases remaining with
    | nil =>
      refine ⟨{ task with stage := .complete }, by simp [step, advance, ht, hs, hset], ?_⟩
      simp [Task.unnumbered, Task.onward, hs, Stage.unnumbered]
    | cons key remaining =>
      cases hl : r.lockOf? key with
      | some lock =>
        refine ⟨{ task with stage := .arrived key lock remaining },
          by simp [step, advance, ht, hs, approach, hl, hset], ?_⟩
        simp [Task.unnumbered, Task.onward, hs, Stage.unnumbered]
      | none =>
        refine ⟨{ task with stage := .arrived key r.lines.length remaining },
          by simp [step, advance, ht, hs, approach, hl, hset], ?_⟩
        simp [Task.unnumbered, Task.onward, hs, Stage.unnumbered]
  | arrived key lock remaining =>
    cases hc : task.isCancelled r.fired with
    | true =>
      refine ⟨task.leave (.cancelled key) (task.heldKeys ++ [key]),
        by simp [step, advance, ht, hs, hc, hset], ?_⟩
      simp [Task.unnumbered, Task.onward, hs, Stage.unnumbered, Task.leave, Task.heldKeys]
    | false =>
      have hempty : r.line lock = [] := hline _ (Task.pursuit?_of_arrived hs)
      refine ⟨task.grant key lock remaining,
        by simp [step, advance, ht, hs, hc, request, hempty, hset], ?_⟩
      simp [Task.unnumbered, Task.onward, hs, Stage.unnumbered, Task.grant]
  | queued key lock remaining => simp [Task.awaited?, hs] at hawaited
  | leaving ending stale =>
    cases hg : task.guards with
    | cons guard guards =>
      refine ⟨{ task with guards := guards }, by simp [step, advance, ht, hs, hg, hset], ?_⟩
      simp [Task.unnumbered, Task.onward, hs, hg, Stage.unnumbered]
    | nil =>
      cases stale with
      | cons key rest =>
        refine ⟨task.leave ending rest, by simp [step, advance, ht, hs, hg, hset], ?_⟩
        simp [Task.unnumbered, Task.onward, hs, hg, Stage.unnumbered, Task.leave]
      | nil =>
        refine ⟨{ task with stage := .over ending }, by simp [step, advance, ht, hs, hg, hset], ?_⟩
        simp [Task.unnumbered, Task.onward, hs, hg, Stage.unnumbered]
  | complete | «over» ending =>
    refine ⟨task, by simp [step, advance, ht, hs], ?_⟩
    simp [Task.unnumbered, Task.onward, hs, Stage.unnumbered]

/-- **One action.** What an action of a task makes of it is a function of the task alone if there is
nobody in its way. -/
theorem exists_onward (ht : r.tasks[t]? = some task) (hawaited : task.awaited? = none)
    (hline : ∀ e, task.pursuit? = some e → r.line e.2 = []) {a : RegistryAction} (ha : a.IsOf t) :
    ∃ new, (r.step a).tasks[t]? = some new ∧
      new.unnumbered = task.unnumbered.onward (task.isCancelled r.fired) a := by
  rcases ha with rfl | rfl | rfl
  · exact exists_onward_advance ht hawaited hline
  · by_cases hs : task.stage = .complete
    · refine ⟨task.leave .released task.heldKeys,
        by simp [step, finish, ht, hs, getElem?_set_of_some ht], ?_⟩
      simp [Task.onward, hs]
    · exact ⟨task, by simp [step, finish, ht, hs], by simp [Task.onward, hs]⟩
  · cases hs : task.stage with
    | queued key lock remaining => simp [Task.awaited?, hs] at hawaited
    | leaving ending stale | «over» ending =>
      have hending : task.ending? = some ending := by simp [Task.ending?, hs]
      exact ⟨task, by simp [step, abandon, ht, hs], by simp [Task.onward, hending]⟩
    | choosing remaining | arrived key lock remaining | complete =>
      have hending : task.ending? = none := by simp [Task.ending?, hs]
      refine ⟨task.leave .abandoned task.heldKeys,
        by simp [step, abandon, ht, hs, getElem?_set_of_some ht], ?_⟩
      simp [Task.onward, hending]

end Registry

/-! ## Who asks for what -/

/-- The keys that an action asks for. -/
def RegistryAction.begun? : RegistryAction → Option (List Key)
  | .begin keys _ => some keys
  | _ => none

namespace Registry

/-- A task is added only by an action that begins one, and stays the task for the same keys. -/
theorem map_keys_step (r : Registry) (a : RegistryAction) :
    (r.step a).tasks.map Task.keys =
      r.tasks.map Task.keys ++ (a.begun?.map distinctKeys).toList := by
  cases a with
  | begin keys token => simp [step, Registry.begin, RegistryAction.begun?]
  | _ =>
    simp only [RegistryAction.begun?, Option.map_none, Option.toList_none, List.append_nil]
    rcases (r.step_change _).tasks with htasks | ⟨keys, token, ha, -⟩ |
      ⟨u, old, new, hu, htasks, hkeys, -⟩
    · rw [htasks]
    · cases ha
    · refine List.ext_getElem? fun i => ?_
      rw [htasks, List.getElem?_map, List.getElem?_map, getElem?_set_of_some hu]
      split
      · simp [*]
      · rfl

/-- The tasks are those that have been begun, in the same order. -/
theorem map_keys_run (r : Registry) (actions : List RegistryAction) :
    (r.run actions).tasks.map Task.keys =
      r.tasks.map Task.keys ++ (actions.filterMap RegistryAction.begun?).map distinctKeys := by
  induction actions generalizing r with
  | nil => simp
  | cons a actions ih =>
    rw [run_cons, ih, map_keys_step, List.append_assoc]
    cases ha : a.begun? <;> simp [ha]

end Registry

namespace Course

variable {c d : Course} {a : RegistryAction} {task twin : Task}

/-- At no moment at which the task acquires its keys does another one want any of them. -/
def Apart (c : Course) : Prop :=
  ∀ mid, mid <+: c.since → ∀ task, (c.upTo mid).task? = some task → task.Acquires →
    ∀ u other, u ≠ c.id → (c.upTo mid).registry.tasks[u]? = some other →
      other.wanted.Disjoint c.keys

theorem Apart.of_next (h : (d.next a).Apart) : d.Apart :=
  fun mid hmid => h mid (hmid.trans (List.prefix_append _ _))

/-- **Disjoint keys.** Keys that nobody else asks for, before or after, are apart. -/
theorem apart_of_disjoint
    (h : ∀ keys token, .begin keys token ∈ c.before ++ c.since → keys.Disjoint c.keys) :
    c.Apart := by
  intro mid hmid _ _ _ u other hu hother k hk hmine
  -- The tasks are those that were begun, and this one was begun at its own place.
  let begun := List.filterMap RegistryAction.begun?
  have hkeys : ((begun c.before ++ c.keys :: begun mid).map distinctKeys)[u]? =
      some other.keys := by
    have hrun := Registry.map_keys_run {} (c.before ++ .begin c.keys c.token :: mid)
    have hu' := congrArg (·[u]?) hrun
    have hother' : (Registry.run {} (c.before ++ .begin c.keys c.token :: mid)).tasks[u]? =
        some other := hother
    simpa [hother', begun, RegistryAction.begun?, eq_comm] using hu'
  have hid : c.id = (begun c.before).length := by
    simpa [id] using congrArg List.length (Registry.map_keys_run {} c.before)
  rw [List.getElem?_map, Option.map_eq_some_iff] at hkeys
  obtain ⟨keys, hbegun, hsame⟩ := hkeys
  have hmem : keys ∈ begun (c.before ++ c.since) := by
    have hmem := mem_of_getElem?_of_ne hbegun (hid ▸ hu)
    rw [← List.filterMap_append] at hmem
    refine List.Sublist.subset (List.Sublist.filterMap _ ?_) hmem
    exact (List.Sublist.refl _).append hmid.sublist
  obtain ⟨b, hb, hasked⟩ := List.mem_filterMap.mp hmem
  have horderly : other.Orderly := (c.upTo mid).wellFormed.orderly hother
  have hin : k ∈ keys := mem_distinctKeys.mp (hsame ▸ Task.wanted_subset horderly hk)
  cases b with
  | begin keys' token =>
    obtain rfl : keys' = keys := Option.some.inj hasked
    exact h keys' token hb hin hmine
  | _ => cases hasked

/-- Nobody is in the line for a key that the task is after. -/
theorem Apart.line_eq_nil (h : c.Apart) (ht : c.task? = some task)
    (hawaited : task.awaited? = none) {e : Key × LockId} (he : task.pursuit? = some e) :
    c.registry.line e.2 = [] := by
  refine c.wellFormed.line_eq_nil ht hawaited (fun u other hu hother => ?_) he
  have hdisjoint :=
    h c.since (List.prefix_refl _) task ht (Task.acquires_of_pursuit he) u other hu hother
  exact fun k hk hmine => hdisjoint hk (mem_distinctKeys.mp (keys_eq ht ▸ hmine))

/-- What an action of the task makes of it, if it has keys of its own. -/
theorem Apart.exists_onward (h : c.Apart) (ht : c.task? = some task)
    (hawaited : task.awaited? = none) (ha : a.IsOf c.id) :
    ∃ new, (c.next a).task? = some new ∧
      new.unnumbered = task.unnumbered.onward (task.isCancelled c.registry.fired) a := by
  rw [task?_next_eq]
  exact Registry.exists_onward ht hawaited (fun _ => h.line_eq_nil ht hawaited) ha

/-- What others do leaves the task as it is. -/
theorem task?_next_of_not (ht : c.task? = some task) (ha : ¬ a.IsOf c.id) :
    (c.next a).task? = some task :=
  (task?_next ht a).resolve_right fun ⟨_, _, hmove⟩ => ha hmove.isOf

/-! ## Pace -/

/-- How often it was the task's turn. -/
def turns (c : Course) : Nat := c.since.count (.advance c.id)

theorem turns_next (d : Course) (a : RegistryAction) :
    (d.next a).turns = d.turns + [a].count (.advance d.id) :=
  List.count_append

/-- A task with keys of its own keeps pace. -/
theorem Apart.paced (h : c.Apart) : ∃ task, c.task? = some task ∧ task.Paced c.turns := by
  induction c using inductionOn with
  | opening => exact ⟨_, c.task?_opening, by simp [Task.Paced, turns, upTo]⟩
  | next d a ih =>
    obtain ⟨task, ht, hpaced⟩ := ih h.of_next
    by_cases ha : a.IsOf d.id
    · obtain ⟨new, hnew, honward⟩ := h.of_next.exists_onward ht hpaced.awaited? ha
      refine ⟨new, hnew, Task.paced_unnumbered.mp ?_⟩
      rw [honward, turns_next]
      exact (Task.paced_unnumbered.mpr hpaced).onward _ ha
    · have hcount : [a].count (.advance d.id) = 0 :=
        List.count_eq_zero.mpr fun hmem => ha (.inl (List.mem_singleton.mp hmem).symm)
      exact ⟨task, task?_next_of_not ht ha, by rwa [turns_next, hcount, Nat.add_zero]⟩

end Course

/-! ## The task alone -/

/-- An action as it concerns the task, under the number that the task has where there is no
other. -/
def RegistryAction.alone? (t : TaskId) (token : Option Token) :
    RegistryAction → Option RegistryAction
  | .advance u => if u = t then some (.advance 0) else none
  | .finish u => if u = t then some (.finish 0) else none
  | .abandon u => if u = t then some (.abandon 0) else none
  | .fire fired => if token = some fired then some (.fire fired) else none
  | .begin _ _ => none

namespace RegistryAction

variable {t : TaskId} {token : Option Token} {a b : RegistryAction}

theorem begun?_of_alone? (h : a.alone? t token = some b) : b.begun? = none := by
  cases a <;> simp only [alone?, Option.ite_none_right_eq_some, reduceCtorEq] at h
  all_goals
    obtain ⟨-, hb⟩ := h
    cases hb
    rfl

/-- Alone, too, the firing of its token is one of the actions that concern a task. -/
theorem alone?_eq_fire_iff {fired : Token} :
    a.alone? t (some fired) = some (.fire fired) ↔ a = .fire fired := by
  cases a <;> simp [alone?, eq_comm]

/-- An action of the task is one of the task alone, and makes the same of it. -/
theorem IsOf.alone? (h : a.IsOf t) (token : Option Token) :
    ∃ b, a.alone? t token = some b ∧ b.IsOf 0 ∧
      ∀ (task : Task) cancelled, task.onward cancelled b = task.onward cancelled a := by
  rcases h with rfl | rfl | rfl
  · exact ⟨.advance 0, by simp [RegistryAction.alone?], .inl rfl, fun _ _ => rfl⟩
  · exact ⟨.finish 0, by simp [RegistryAction.alone?], .inr (.inl rfl), fun _ _ => rfl⟩
  · exact ⟨.abandon 0, by simp [RegistryAction.alone?], .inr (.inr rfl), fun _ _ => rfl⟩

/-- An action that is none of the task's is none of the task's alone. -/
theorem not_isOf_alone? (h : ¬ a.IsOf t) (hb : a.alone? t token = some b) (u : TaskId) :
    ¬ b.IsOf u := by
  cases a with
  | fire fired =>
    obtain ⟨-, rfl⟩ : token = some fired ∧ RegistryAction.fire fired = b := by
      simpa [alone?] using hb
    simp [IsOf]
  | begin keys token => simp [alone?] at hb
  | advance v | finish v | abandon v =>
    have hv : v ≠ t := by
      rintro rfl
      exact h (by simp [IsOf])
    simp [alone?, hv] at hb

end RegistryAction

namespace Course

variable {c d : Course} {a : RegistryAction} {task twin : Task}

/-- The same course without the other tasks, and without the tokens that are not the task's. -/
def alone (c : Course) : Course where
  before := c.before.filterMap (RegistryAction.alone? c.id c.token)
  keys := c.keys
  token := c.token
  since := c.since.filterMap (RegistryAction.alone? c.id c.token)

theorem alone_next_of_some {b : RegistryAction} (hb : a.alone? d.id d.token = some b) :
    (d.next a).alone = d.alone.next b := by
  have hsince : (d.since ++ [a]).filterMap (RegistryAction.alone? d.id d.token) =
      d.alone.since ++ [b] := by simp [alone, hb]
  exact congrArg d.alone.upTo hsince

theorem alone_next_of_none (hb : a.alone? d.id d.token = none) : (d.next a).alone = d.alone := by
  have hsince : (d.since ++ [a]).filterMap (RegistryAction.alone? d.id d.token) =
      d.alone.since := by simp [alone, hb]
  exact congrArg d.alone.upTo hsince

/-- Alone, nobody is added besides the task. -/
theorem begun?_alone (c : Course) {b : RegistryAction} (hb : b ∈ c.alone.before ++ c.alone.since) :
    b.begun? = none := by
  rw [alone, ← List.filterMap_append] at hb
  obtain ⟨a, -, ha⟩ := List.mem_filterMap.mp hb
  exact RegistryAction.begun?_of_alone? ha

@[simp] theorem id_alone (c : Course) : c.alone.id = 0 := by
  have hnone : c.alone.before.filterMap RegistryAction.begun? = [] :=
    List.filterMap_eq_nil_iff.mpr fun b hb => c.begun?_alone (List.mem_append_left _ hb)
  simpa [id, hnone] using congrArg List.length (Registry.map_keys_run {} c.alone.before)

/-- A task that is alone has keys of its own. -/
theorem apart_alone (c : Course) : c.alone.Apart :=
  apart_of_disjoint fun _ _ hbegin => by cases c.begun?_alone hbegin

theorem mem_fired_iff {token : Token} :
    token ∈ c.registry.fired ↔ .fire token ∈ c.before ++ c.since := by
  simp [registry, Registry.mem_fired_run]

/-- The token of the task has fired if and only if it has fired where the task is alone. -/
theorem isCancelled_alone (ht : c.task? = some task) (htwin : c.alone.task? = some twin) :
    task.isCancelled c.registry.fired = twin.isCancelled c.alone.registry.fired := by
  have htoken : twin.token = c.token := token_eq (c := c.alone) htwin
  rw [Task.isCancelled, Task.isCancelled, token_eq ht, htoken]
  cases hc : c.token with
  | none => rfl
  | some token =>
    have hfired : token ∈ c.alone.registry.fired ↔ token ∈ c.registry.fired := by
      rw [mem_fired_iff, mem_fired_iff, alone, ← List.filterMap_append, hc, List.mem_filterMap]
      simp [RegistryAction.alone?_eq_fire_iff]
    simp [hfired]

/-- **Two courses.** A task with keys of its own is what it would be alone. -/
theorem Apart.exists_twin (h : c.Apart) : ∃ task twin, c.task? = some task ∧
    c.alone.task? = some twin ∧ task.unnumbered = twin.unnumbered := by
  induction c using inductionOn with
  | opening => exact ⟨_, _, task?_opening _, c.alone.task?_opening, rfl⟩
  | next d a ih =>
    obtain ⟨task, twin, ht, htwin, halike⟩ := ih h.of_next
    by_cases ha : a.IsOf d.id
    · obtain ⟨b, hb, hbof, hsame⟩ := ha.alone? d.token
      obtain ⟨task', ht', hpaced⟩ := h.of_next.paced
      obtain ⟨twin', htwin', hpaced'⟩ := d.apart_alone.paced
      obtain rfl := Option.some.inj (ht'.symm.trans ht)
      obtain rfl := Option.some.inj (htwin'.symm.trans htwin)
      obtain ⟨new, hnew, honward⟩ := h.of_next.exists_onward ht hpaced.awaited? ha
      obtain ⟨new', hnew', honward'⟩ :=
        d.apart_alone.exists_onward htwin hpaced'.awaited? (by rwa [id_alone])
      refine ⟨new, new', hnew, (alone_next_of_some hb).symm ▸ hnew', ?_⟩
      rw [honward, honward', hsame, halike, isCancelled_alone ht htwin]
    · refine ⟨task, twin, task?_next_of_not ht ha, ?_, halike⟩
      cases hb : a.alone? d.id d.token with
      | none => rwa [alone_next_of_none hb]
      | some b =>
        rw [alone_next_of_some hb]
        exact task?_next_of_not htwin (RegistryAction.not_isOf_alone? ha hb _)

/-! ## Undisturbed tasks -/

/-- What a task with keys of its own can rely on, whatever the others do. -/
structure Undisturbed (c : Course) : Prop where
  /-- It never waits in a line. -/
  unqueued : ∀ task, c.task? = some task → task.awaited? = none
  /-- It gets a key as soon as it asks for it. -/
  granted : ∀ task key lock remaining, c.task? = some task →
    task.stage = .arrived key lock remaining → task.isCancelled c.registry.fired = false →
      (c.next (.advance c.id)).task? = some (task.grant key lock remaining)
  /-- Until it gives everything back, every second turn of its own has brought it the next key, and
  it is complete at its first turn after the last key. -/
  pace : ∀ task, c.task? = some task → task.ending? = none →
    task.heldKeys = (distinctKeys c.keys).take (c.turns / 2) ∧
      (task.stage = .complete ↔ 2 * (distinctKeys c.keys).length < c.turns)
  /-- It is where it would be if there were no other task. -/
  alike : c.task?.map Task.unnumbered = c.alone.task?.map Task.unnumbered
  /-- It is as successful and fails for the same reason. -/
  acquisition : c.task?.map Task.acquisition = c.alone.task?.map Task.acquisition
  /-- It has the same keys. -/
  heldKeys : c.task?.map Task.heldKeys = c.alone.task?.map Task.heldKeys

/-- **A task with keys of its own** is undisturbed, whatever has happened before it was added and
whatever happens then. -/
theorem undisturbed (h : c.Apart) : c.Undisturbed := by
  obtain ⟨task, ht, hpaced⟩ := h.paced
  obtain ⟨task', twin, ht', htwin, halike⟩ := h.exists_twin
  obtain rfl := Option.some.inj (ht'.symm.trans ht)
  have hunique : ∀ {other}, c.task? = some other → other = task' :=
    fun hother => Option.some.inj (hother.symm.trans ht)
  refine ⟨?_, ?_, ?_, ?_, ?_, ?_⟩
  · intro other hother
    exact hunique hother ▸ hpaced.awaited?
  · intro other key lock remaining hother hs hc
    obtain rfl := hunique hother
    have hline := h.line_eq_nil ht hpaced.awaited? (Task.pursuit?_of_arrived hs)
    have ht' : c.registry.tasks[c.id]? = some other := ht
    rw [task?_next_eq]
    simp [Registry.step, Registry.advance, Registry.request, ht', hs, hc, hline,
      getElem?_set_of_some ht']
  · intro other hother hending
    obtain rfl := hunique hother
    rw [← keys_eq ht]
    exact hpaced.heldKeys_eq (orderly ht) hending
  · rw [ht, htwin, Option.map_some, Option.map_some, halike]
  · rw [ht, htwin, Option.map_some, Option.map_some, ← Task.acquisition_unnumbered, halike,
      Task.acquisition_unnumbered]
  · rw [ht, htwin, Option.map_some, Option.map_some, ← Task.heldKeys_unnumbered, halike,
      Task.heldKeys_unnumbered]

/-- One task has a key and another one waits for it while a third one acquires two others. -/
def crowded : Course where
  before := [.begin ["vg1"] none, .advance 0, .advance 0, .advance 0]
  keys := ["vg2", "vg0"]
  token := none
  since := [.advance 1, .begin ["vg1"] none, .advance 1, .advance 2, .advance 2, .advance 1,
    .advance 1, .advance 1]

theorem crowded_apart : crowded.Apart :=
  apart_of_disjoint fun keys token hbegin => by
    obtain ⟨rfl, -⟩ : keys = ["vg1"] ∧ token = none := by simpa [crowded] using hbegin
    simp [crowded]

theorem crowded_undisturbed : crowded.Apart ∧ crowded.Undisturbed ∧
    crowded.task?.map Task.acquisition = some (.acquired ["vg0", "vg2"]) ∧
      crowded.registry.isStuck 2 = true :=
  ⟨crowded_apart, undisturbed crowded_apart, by decide, by decide⟩

end Course

end LvmControl.Lock
