import LvmControl.Lock.Registry

/-!
# What an action does to a registry

`Registry.step` is a nest of look-ups: the task, its stage, its token, the line of its lock. Every
statement about all that can happen would have to go through that nest again, so it is gone through
once, here. `Registry.Change` lists what an action can do, each case with all that is known when it
happens, and `Registry.step_change` says that there is nothing else.

## Main definitions

* `Task.pursuit?`, `Task.awaited?`: the key and lock that a task is after, and the lock in whose
  line it stands without having it.
* `Task.nextKey?`: the key that a task has still to get before any other.
* `Task.UsesFor`, `Task.Stands`: the two ways in which a task is bound to a lock.
* `Registry.Change`: what an action does.

## Main statements

* `Registry.step_change`: every action makes one of the changes.
* `Registry.Change.tasks`: it adds a task or moves one of them.

## Design notes

**Two ways to be bound to a lock.** A task *uses* a lock from the moment it has found it, which is
what keeps the lock in the registry; it *stands* in the line only once it has asked for it, which is
what keeps others waiting. In between it uses a lock without standing in its line.
-/

namespace LvmControl.Lock

/-! ## Numbered lists

Tasks and flights are known by their place in a list, in which they are replaced and to which they
are added but never removed.
-/

section Numbered

variable {α : Type} {l : List α}

/-- A list in which one element has been replaced. -/
theorem getElem?_set_of_some {i : Nat} {old : α} (h : l[i]? = some old) (new : α) (j : Nat) :
    (l.set i new)[j]? = if j = i then some new else l[j]? := by
  have hlt : i < l.length := (List.getElem?_eq_some_iff.mp h).1
  by_cases hj : j = i
  · simp [hj, hlt]
  · simp [hj, List.getElem?_set_ne (Ne.symm hj)]

/-- What was in a list is at the same place when something has been added. -/
theorem getElem?_concat_of_some {i : Nat} {x : α} (h : l[i]? = some x) (y : α) :
    (l ++ [y])[i]? = some x := by
  rw [List.getElem?_append_left (List.getElem?_eq_some_iff.mp h).1, h]

/-- A list to which one element has been added. -/
theorem getElem?_concat_cases {i : Nat} {x y : α} (h : (l ++ [y])[i]? = some x) :
    l[i]? = some x ∨ i = l.length ∧ x = y := by
  rw [List.getElem?_append] at h
  split at h
  · exact .inl h
  · rename_i hlt
    obtain ⟨hlen, hx⟩ := List.getElem?_eq_some_iff.mp h
    have hi : i - l.length = 0 := by simpa using hlen
    refine .inr ⟨Nat.le_antisymm (Nat.le_of_sub_eq_zero hi) (Nat.le_of_not_lt hlt), ?_⟩
    simpa [hi] using hx.symm

/-- What is in a list at another place than the given element is among the others. -/
theorem mem_of_getElem?_of_ne {l₁ l₂ : List α} {x y : α} {i : Nat}
    (h : (l₁ ++ x :: l₂)[i]? = some y) (hi : i ≠ l₁.length) : y ∈ l₁ ++ l₂ := by
  rcases Nat.lt_or_gt_of_ne hi with hlt | hgt
  · rw [List.getElem?_append_left hlt] at h
    exact List.mem_append_left _ (List.mem_of_getElem? h)
  · obtain ⟨n, rfl⟩ := Nat.exists_eq_add_of_lt hgt
    have hsub : l₁.length + n + 1 - l₁.length = n + 1 := by omega
    rw [List.getElem?_append_right (Nat.le_of_lt hgt), hsub, List.getElem?_cons_succ] at h
    exact List.mem_append_right _ (List.mem_of_getElem? h)

end Numbered

/-! ## What a task is bound to -/

namespace Task

/-- The key that a task is about to get or waits for, with the lock that it has found for it. -/
def pursuit? (task : Task) : Option (Key × LockId) :=
  match task.stage with
  | .arrived key lock _ => some (key, lock)
  | .queued key lock _ => some (key, lock)
  | _ => none

/-- The key that a task has still to get before any other. -/
def nextKey? (task : Task) : Option Key :=
  match task.stage with
  | .choosing remaining => remaining.head?
  | .arrived key _ _ => some key
  | .queued key _ _ => some key
  | _ => none

/-- The lock in whose line a task waits. -/
def awaited? (task : Task) : Option LockId :=
  match task.stage with
  | .queued _ lock _ => some lock
  | _ => none

/-- The task has the lock of the key, waits for it or is about to ask for it. -/
def UsesFor (task : Task) (e : Key × LockId) : Prop :=
  e ∈ task.guards ∨ task.pursuit? = some e

/-- The task is in the line of the lock, at its head or behind it. -/
def Stands (task : Task) (lock : LockId) : Prop :=
  lock ∈ task.guards.map Prod.snd ∨ task.awaited? = some lock

theorem pursuit?_of_arrived {task : Task} {key : Key} {lock : LockId} {remaining : List Key}
    (h : task.stage = .arrived key lock remaining) : task.pursuit? = some (key, lock) := by
  simp [pursuit?, h]

theorem pursuit?_of_queued {task : Task} {key : Key} {lock : LockId} {remaining : List Key}
    (h : task.stage = .queued key lock remaining) : task.pursuit? = some (key, lock) := by
  simp [pursuit?, h]

theorem nextKey?_of_pursuit {task : Task} {e : Key × LockId} (h : task.pursuit? = some e) :
    task.nextKey? = some e.1 := by
  cases hs : task.stage <;> simp_all [pursuit?, nextKey?, Prod.ext_iff]

@[simp] theorem leave_guards (task : Task) (ending : Ending) (stale : List Key) :
    (task.leave ending stale).guards = task.guards := rfl

@[simp] theorem leave_keys (task : Task) (ending : Ending) (stale : List Key) :
    (task.leave ending stale).keys = task.keys := rfl

@[simp] theorem leave_stage (task : Task) (ending : Ending) (stale : List Key) :
    (task.leave ending stale).stage = .leaving ending stale := rfl

@[simp] theorem leave_heldKeys (task : Task) (ending : Ending) (stale : List Key) :
    (task.leave ending stale).heldKeys = task.heldKeys := rfl

@[simp] theorem grant_guards (task : Task) (key : Key) (lock : LockId) (remaining : List Key) :
    (task.grant key lock remaining).guards = task.guards ++ [(key, lock)] := rfl

@[simp] theorem grant_keys (task : Task) (key : Key) (lock : LockId) (remaining : List Key) :
    (task.grant key lock remaining).keys = task.keys := rfl

@[simp] theorem grant_heldKeys (task : Task) (key : Key) (lock : LockId) (remaining : List Key) :
    (task.grant key lock remaining).heldKeys = task.heldKeys ++ [key] := by
  simp [heldKeys]

@[simp] theorem grant_stage (task : Task) (key : Key) (lock : LockId) (remaining : List Key) :
    (task.grant key lock remaining).stage = .choosing remaining := rfl

/-- A task that stands in a line uses the lock, for some key. -/
theorem Stands.exists_usesFor {task : Task} {lock : LockId} (h : task.Stands lock) :
    ∃ key, task.UsesFor (key, lock) := by
  rcases h with h | h
  · obtain ⟨⟨key, l⟩, hmem, rfl⟩ := List.mem_map.mp h
    exact ⟨key, .inl hmem⟩
  · cases hs : task.stage with
    | queued key l remaining =>
      have hl : l = lock := by simpa [awaited?, hs] using h
      exact ⟨key, .inr (by simp [pursuit?, hs, hl])⟩
    | _ => simp [awaited?, hs] at h

/-- The test for a use is the use for some key. -/
theorem uses_iff {task : Task} {lock : LockId} :
    task.uses lock = true ↔ ∃ key, task.UsesFor (key, lock) := by
  have hpursued : task.pursued? = task.pursuit?.map Prod.snd := by
    cases hs : task.stage <;> simp [pursued?, pursuit?, hs]
  simp only [uses, hpursued, Bool.or_eq_true, List.any_eq_true, decide_eq_true_eq,
    Option.map_eq_some_iff, UsesFor]
  constructor
  · rintro (⟨⟨key, l⟩, hmem, rfl⟩ | ⟨⟨key, l⟩, hmem, rfl⟩)
    · exact ⟨key, .inl hmem⟩
    · exact ⟨key, .inr hmem⟩
  · rintro ⟨key, hmem | hmem⟩
    · exact .inl ⟨(key, lock), hmem, rfl⟩
    · exact .inr ⟨(key, lock), hmem, rfl⟩

end Task

/-! ## Lines and entries after the small operations -/

namespace Registry

variable (r : Registry)

@[simp] theorem line_setTask (t : TaskId) (task : Task) (l : LockId) :
    (r.setTask t task).line l = r.line l := rfl

@[simp] theorem entries_setTask (t : TaskId) (task : Task) :
    (r.setTask t task).entries = r.entries := rfl

@[simp] theorem lines_setTask (t : TaskId) (task : Task) :
    (r.setTask t task).lines = r.lines := rfl

@[simp] theorem tasks_setTask (t : TaskId) (task : Task) :
    (r.setTask t task).tasks = r.tasks.set t task := rfl

@[simp] theorem fired_setTask (t : TaskId) (task : Task) :
    (r.setTask t task).fired = r.fired := rfl

@[simp] theorem entries_joinLine (t : TaskId) (lock : LockId) :
    (r.joinLine t lock).entries = r.entries := rfl

@[simp] theorem tasks_joinLine (t : TaskId) (lock : LockId) :
    (r.joinLine t lock).tasks = r.tasks := rfl

@[simp] theorem fired_joinLine (t : TaskId) (lock : LockId) :
    (r.joinLine t lock).fired = r.fired := rfl

@[simp] theorem length_lines_joinLine (t : TaskId) (lock : LockId) :
    (r.joinLine t lock).lines.length = r.lines.length := by
  simp [joinLine]

@[simp] theorem entries_leaveLine (t : TaskId) (lock : LockId) :
    (r.leaveLine t lock).entries = r.entries := rfl

@[simp] theorem tasks_leaveLine (t : TaskId) (lock : LockId) :
    (r.leaveLine t lock).tasks = r.tasks := rfl

@[simp] theorem fired_leaveLine (t : TaskId) (lock : LockId) :
    (r.leaveLine t lock).fired = r.fired := rfl

@[simp] theorem length_lines_leaveLine (t : TaskId) (lock : LockId) :
    (r.leaveLine t lock).lines.length = r.lines.length := by
  simp [leaveLine]

@[simp] theorem tasks_addLock (key : Key) : (r.addLock key).tasks = r.tasks := rfl

@[simp] theorem fired_addLock (key : Key) : (r.addLock key).fired = r.fired := rfl

@[simp] theorem entries_addLock (key : Key) :
    (r.addLock key).entries = r.entries ++ [(key, r.lines.length)] := rfl

@[simp] theorem length_lines_addLock (key : Key) :
    (r.addLock key).lines.length = r.lines.length + 1 := by
  simp [addLock]

/-- Joining a line puts the task at its end and leaves the other lines alone. -/
theorem line_joinLine {t : TaskId} {lock : LockId} (h : lock < r.lines.length) (l : LockId) :
    (r.joinLine t lock).line l = if l = lock then r.line l ++ [t] else r.line l := by
  by_cases hl : l = lock
  · subst hl
    simp [line, joinLine, h]
  · simp [line, joinLine, hl, Ne.symm hl]

/-- Leaving a line takes the task out of it and leaves the other lines alone. -/
theorem line_leaveLine (t : TaskId) (lock l : LockId) :
    (r.leaveLine t lock).line l = if l = lock then (r.line l).erase t else r.line l := by
  by_cases hl : l = lock
  · subst hl
    cases hline : r.lines[l]? <;> simp [line, leaveLine, hline]
  · simp [line, leaveLine, hl, Ne.symm hl]

/-- Making a lock changes no line: the line of the new one is empty, as is that of a lock which does
not exist. -/
@[simp] theorem line_addLock (key : Key) (l : LockId) :
    (r.addLock key).line l = r.line l := by
  rcases Nat.lt_trichotomy l r.lines.length with h | h | h
  · simp [line, addLock, List.getElem?_append_left h]
  · simp [line, addLock, h]
  · have h₁ : r.lines.length ≤ l := Nat.le_of_lt h
    have h₂ : ([[]] : List (List TaskId))[l - r.lines.length]? = none :=
      List.getElem?_eq_none (by simp; omega)
    simp [line, addLock, List.getElem?_append_right h₁, h₂, List.getElem?_eq_none h₁]

@[simp] theorem tasks_prune (key : Key) : (r.prune key).tasks = r.tasks := by
  unfold prune
  split
  · rfl
  · split <;> rfl

@[simp] theorem lines_prune (key : Key) : (r.prune key).lines = r.lines := by
  unfold prune
  split
  · rfl
  · split <;> rfl

@[simp] theorem fired_prune (key : Key) : (r.prune key).fired = r.fired := by
  unfold prune
  split
  · rfl
  · split <;> rfl

@[simp] theorem line_prune (key : Key) (l : LockId) : (r.prune key).line l = r.line l := by
  simp [line]

/-! ## Changes -/

/-- What an action does to a registry. A case holds what is known of the task when it happens. -/
inductive Change (r : Registry) : RegistryAction → Registry → Prop
  /-- There is nothing to do. -/
  | nothing (a : RegistryAction) : Change r a r
  | begun (keys : List Key) (token : Option Token) :
      Change r (.begin keys token) (r.begin keys token)
  | fired (token : Token) : Change r (.fire token) { r with fired := token :: r.fired }
  /-- A task with no key left to get has all of them. -/
  | completed {t : TaskId} {task : Task} (ht : r.tasks[t]? = some task)
      (hs : task.stage = .choosing []) :
      Change r (.advance t) (r.setTask t { task with stage := .complete })
  /-- A task finds the lock of its next key. -/
  | found {t : TaskId} {task : Task} {key : Key} {lock : LockId} {remaining : List Key}
      (ht : r.tasks[t]? = some task) (hs : task.stage = .choosing (key :: remaining))
      (hl : r.lockOf? key = some lock) :
      Change r (.advance t) (r.setTask t { task with stage := .arrived key lock remaining })
  /-- A task makes the lock of its next key. -/
  | made {t : TaskId} {task : Task} {key : Key} {remaining : List Key}
      (ht : r.tasks[t]? = some task) (hs : task.stage = .choosing (key :: remaining))
      (hl : r.lockOf? key = none) :
      Change r (.advance t)
        ((r.addLock key).setTask t
          { task with stage := .arrived key r.lines.length remaining })
  /-- A task is cancelled before it has asked for the lock. -/
  | refused {t : TaskId} {task : Task} {key : Key} {lock : LockId} {remaining : List Key}
      (ht : r.tasks[t]? = some task) (hs : task.stage = .arrived key lock remaining)
      (hc : task.isCancelled r.fired = true) :
      Change r (.advance t)
        (r.setTask t (task.leave (.cancelled key) (task.heldKeys ++ [key])))
  /-- A task asks for a lock that is free, and has it. -/
  | taken {t : TaskId} {task : Task} {key : Key} {lock : LockId} {remaining : List Key}
      (ht : r.tasks[t]? = some task) (hs : task.stage = .arrived key lock remaining)
      (hc : task.isCancelled r.fired = false) (hl : r.line lock = []) :
      Change r (.advance t) ((r.joinLine t lock).setTask t (task.grant key lock remaining))
  /-- A task asks for a lock that is not free, and waits. -/
  | lined {t : TaskId} {task : Task} {key : Key} {lock : LockId} {remaining : List Key}
      (ht : r.tasks[t]? = some task) (hs : task.stage = .arrived key lock remaining)
      (hc : task.isCancelled r.fired = false) (hl : r.line lock ≠ []) :
      Change r (.advance t)
        ((r.joinLine t lock).setTask t { task with stage := .queued key lock remaining })
  /-- A task is cancelled while it waits. -/
  | withdrawn {t : TaskId} {task : Task} {key : Key} {lock : LockId} {remaining : List Key}
      (ht : r.tasks[t]? = some task) (hs : task.stage = .queued key lock remaining)
      (hc : task.isCancelled r.fired = true) :
      Change r (.advance t)
        ((r.leaveLine t lock).setTask t
          (task.leave (.cancelled key) (task.heldKeys ++ [key])))
  /-- A task notices that it has become the head of the line. -/
  | noticed {t : TaskId} {task : Task} {key : Key} {lock : LockId} {remaining : List Key}
      (ht : r.tasks[t]? = some task) (hs : task.stage = .queued key lock remaining)
      (hc : task.isCancelled r.fired = false) (hl : (r.line lock).head? = some t) :
      Change r (.advance t) (r.setTask t (task.grant key lock remaining))
  /-- A task gives one of its locks back. -/
  | returned {t : TaskId} {task : Task} {ending : Ending} {stale : List Key} {key : Key}
      {lock : LockId} {guards : List (Key × LockId)}
      (ht : r.tasks[t]? = some task) (hs : task.stage = .leaving ending stale)
      (hg : task.guards = (key, lock) :: guards) :
      Change r (.advance t)
        ((r.leaveLine t lock).setTask t { task with guards := guards })
  /-- A task that has given its locks back prunes a key. -/
  | pruned {t : TaskId} {task : Task} {ending : Ending} {key : Key} {rest : List Key}
      (ht : r.tasks[t]? = some task) (hs : task.stage = .leaving ending (key :: rest))
      (hg : task.guards = []) :
      Change r (.advance t) ((r.prune key).setTask t (task.leave ending rest))
  /-- A task that has pruned its keys is over. -/
  | ended {t : TaskId} {task : Task} {ending : Ending}
      (ht : r.tasks[t]? = some task) (hs : task.stage = .leaving ending [])
      (hg : task.guards = []) :
      Change r (.advance t) (r.setTask t { task with stage := .over ending })
  | finished {t : TaskId} {task : Task} (ht : r.tasks[t]? = some task)
      (hs : task.stage = .complete) :
      Change r (.finish t) (r.setTask t (task.leave .released task.heldKeys))
  /-- A task is given up that stands in no line without having the lock. -/
  | abandoned {t : TaskId} {task : Task} (ht : r.tasks[t]? = some task)
      (hs : task.stage = .complete ∨ (∃ remaining, task.stage = .choosing remaining) ∨
        ∃ key lock remaining, task.stage = .arrived key lock remaining) :
      Change r (.abandon t) (r.setTask t (task.leave .abandoned task.heldKeys))
  /-- A task is given up while it waits. -/
  | deserted {t : TaskId} {task : Task} {key : Key} {lock : LockId} {remaining : List Key}
      (ht : r.tasks[t]? = some task) (hs : task.stage = .queued key lock remaining) :
      Change r (.abandon t)
        ((r.leaveLine t lock).setTask t (task.leave .abandoned task.heldKeys))

/-- The next step of a task makes one of the changes. -/
theorem advance_change (t : TaskId) : r.Change (.advance t) (r.advance t) := by
  -- The cases are those of `advance`: the task, its stage, and what it looks up there.
  unfold advance
  cases ht : r.tasks[t]? with
  | none => exact .nothing _
  | some task =>
    cases hs : task.stage with
    | choosing remaining =>
      cases remaining with
      | nil => simpa [hs] using Change.completed ht hs
      | cons key remaining =>
        cases hl : r.lockOf? key with
        | none => simpa [hs, approach, hl] using Change.made ht hs hl
        | some lock => simpa [hs, approach, hl] using Change.found ht hs hl
    | arrived key lock remaining =>
      by_cases hc : task.isCancelled r.fired = true
      · simpa [hs, hc] using Change.refused ht hs hc
      · have hc' : task.isCancelled r.fired = false := by simpa using hc
        by_cases hl : r.line lock = []
        · simpa [hs, hc', request, hl] using Change.taken ht hs hc' hl
        · simpa [hs, hc', request, hl] using Change.lined ht hs hc' hl
    | queued key lock remaining =>
      by_cases hc : task.isCancelled r.fired = true
      · simpa [hs, hc] using Change.withdrawn ht hs hc
      · have hc' : task.isCancelled r.fired = false := by simpa using hc
        by_cases hl : (r.line lock).head? = some t
        · simpa [hs, hc', hl] using Change.noticed ht hs hc' hl
        · simpa [hs, hc', hl] using Change.nothing (r := r) (.advance t)
    | complete => simpa [hs] using Change.nothing (r := r) (.advance t)
    | leaving ending stale =>
      cases hg : task.guards with
      | cons guard guards =>
        obtain ⟨key, lock⟩ := guard
        simpa [hs, hg] using Change.returned ht hs hg
      | nil =>
        cases stale with
        | nil => simpa [hs, hg] using Change.ended ht hs hg
        | cons key rest => simpa [hs, hg] using Change.pruned ht hs hg
    | «over» ending => simpa [hs] using Change.nothing (r := r) (.advance t)

/-- Every action makes one of the changes. -/
theorem step_change (a : RegistryAction) : r.Change a (r.step a) := by
  cases a with
  | begin keys token => exact .begun keys token
  | advance t => exact advance_change r t
  | fire token => exact .fired token
  | finish t =>
    simp only [step, finish]
    cases ht : r.tasks[t]? with
    | none => exact .nothing _
    | some task =>
      by_cases hs : task.stage = .complete
      · simpa [hs] using Change.finished ht hs
      · simpa [hs] using Change.nothing (r := r) (.finish t)
  | abandon t =>
    simp only [step, abandon]
    cases ht : r.tasks[t]? with
    | none => exact .nothing _
    | some task =>
      cases hs : task.stage with
      | choosing remaining =>
        simpa [hs] using Change.abandoned ht (.inr (.inl ⟨remaining, hs⟩))
      | arrived key lock remaining =>
        simpa [hs] using Change.abandoned ht (.inr (.inr ⟨key, lock, remaining, hs⟩))
      | queued key lock remaining => simpa [hs] using Change.deserted ht hs
      | complete => simpa [hs] using Change.abandoned ht (.inl hs)
      | leaving ending stale => simpa [hs] using Change.nothing (r := r) (.abandon t)
      | «over» ending => simpa [hs] using Change.nothing (r := r) (.abandon t)

/-! ## Whose state changes -/

/-- The tasks after one has been added. -/
theorem getElem?_begin {r : Registry} {keys : List Key} {token : Option Token} {u : TaskId}
    {task : Task} (hu : (r.begin keys token).tasks[u]? = some task) :
    r.tasks[u]? = some task ∨
      u = r.tasks.length ∧
        task = ⟨distinctKeys keys, token, [], .choosing (distinctKeys keys)⟩ :=
  getElem?_concat_cases hu

/-- What an action does to the tasks: it adds one, or it moves at most one, which stays the task for
the keys that it was asked for. A task on its own moves only before it has all its keys and while it
gives them back. -/
theorem Change.tasks {r r' : Registry} {a : RegistryAction} (h : r.Change a r') :
    r'.tasks = r.tasks ∨
      (∃ keys token, a = .begin keys token ∧ r'.tasks = (r.begin keys token).tasks) ∨
      ∃ (t : TaskId) (old new : Task), r.tasks[t]? = some old ∧ r'.tasks = r.tasks.set t new ∧
        new.keys = old.keys ∧ new.token = old.token ∧
        (a = .advance t ∧ old.stage ≠ .complete ∨ a = .finish t ∨ a = .abandon t) := by
  cases h with
  | nothing a => exact .inl rfl
  | begun keys token => exact .inr (.inl ⟨keys, token, rfl, rfl⟩)
  | fired token => exact .inl rfl
  | finished ht hs => exact .inr (.inr ⟨_, _, _, ht, rfl, rfl, rfl, .inr (.inl rfl)⟩)
  | abandoned ht hs => exact .inr (.inr ⟨_, _, _, ht, rfl, rfl, rfl, .inr (.inr rfl)⟩)
  | deserted ht hs => exact .inr (.inr ⟨_, _, _, ht, rfl, rfl, rfl, .inr (.inr rfl)⟩)
  | pruned ht hs hg =>
    rename_i t task ending key rest
    exact .inr (.inr ⟨t, task, task.leave ending rest, ht, by simp, rfl, rfl,
      .inl ⟨rfl, by simp [hs]⟩⟩)
  | completed ht hs | found ht hs hl | made ht hs hl | refused ht hs hc | taken ht hs hc hl
  | lined ht hs hc hl | withdrawn ht hs hc | noticed ht hs hc hl | returned ht hs hg
  | ended ht hs hg =>
    exact .inr (.inr ⟨_, _, _, ht, rfl, rfl, rfl, .inl ⟨rfl, by simp [hs]⟩⟩)

/-- A task stays a task for the keys that it was asked for. -/
theorem exists_task_step {t : TaskId} {task : Task} (ht : r.tasks[t]? = some task)
    (a : RegistryAction) : ∃ task', (r.step a).tasks[t]? = some task' ∧
      task'.keys = task.keys ∧ task'.token = task.token := by
  rcases (r.step_change a).tasks with htasks | ⟨keys, token, rfl, -⟩ |
    ⟨u, old, new, hu, htasks, hkeys, htoken, -⟩
  · exact ⟨task, by rw [htasks, ht], rfl, rfl⟩
  · exact ⟨task, getElem?_concat_of_some ht _, rfl, rfl⟩
  · rw [htasks, getElem?_set_of_some hu]
    by_cases htu : t = u
    · subst htu
      obtain rfl : old = task := Option.some.inj (hu.symm.trans ht)
      exact ⟨new, by simp, hkeys, htoken⟩
    · exact ⟨task, by simp [htu, ht], rfl, rfl⟩

/-- A task that has all its keys keeps them until it is finished or given up. -/
theorem complete_step {t : TaskId} {task : Task} (ht : r.tasks[t]? = some task)
    (hs : task.stage = .complete) {a : RegistryAction} (hfinish : a ≠ .finish t)
    (habandon : a ≠ .abandon t) : (r.step a).tasks[t]? = some task := by
  rcases (r.step_change a).tasks with htasks | ⟨keys, token, rfl, -⟩ |
    ⟨u, old, new, hu, htasks, -, -, hwhy⟩
  · rw [htasks, ht]
  · exact getElem?_concat_of_some ht _
  · have htu : t ≠ u := by
      rintro rfl
      obtain rfl : old = task := Option.some.inj (hu.symm.trans ht)
      rcases hwhy with ⟨-, hold⟩ | rfl | rfl
      · exact hold hs
      · exact hfinish rfl
      · exact habandon rfl
    rw [htasks, getElem?_set_of_some hu, if_neg htu, ht]

end Registry

end LvmControl.Lock
