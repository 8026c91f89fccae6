import LvmControl.Proofs.Lock.WellFormed
import Mathlib.Data.Fintype.EquivFin
import Mathlib.Logic.Relation
import Mathlib.Order.WellFounded

/-!
# No deadlock

Tasks take several keys one after another and keep those that they have while they wait for the next
one. They take them in ascending order, so whoever waits has only keys below the one that it waits
for, and along a chain of tasks that wait for each other the keys that they wait for ascend. A chain
therefore never comes back to where it began, and at its end is a task that nobody keeps waiting.

## Main definitions

* `Registry.owner?`: the task that has the lock of a key, or has been handed it.
* `Registry.WaitsFor`: a task needs a key that another one has.
* `Registry.CanTake`: nobody keeps a task from its next key.
* `Registry.IsReturning`: a task is giving back locks that it has.

## Main statements

* `Registry.WellFormed.not_transGen_waitsFor`: no task waits for itself, however long the chain.
* `Registry.Reachable.no_deadlock`: while no task has all its keys, a task can take its next key as
  soon as those that give their locks back have done so.
* `Registry.Reachable.exists_canTake`: a task can take its next key at once while no task has all
  its keys and none is giving locks back.

## Design notes

**Who has been handed a lock owns it.** The head of a line may not have noticed yet that it has
become the head. Nobody else can get the lock, so others wait for it, but it waits for nobody.

**Giving back is not waiting.** A task that gives its locks back takes one step for each of them,
and nothing can hold it up. The statement about progress lets it take these steps and no others.
-/

namespace LvmControl.Lock

/-- A task that has got locks, and all those that it was to get. -/
def Task.IsLock (task : Task) : Prop :=
  task.guards ≠ [] ∧ (task.stage = .complete ∨ task.stage = .choosing [])

instance (task : Task) : Decidable task.IsLock :=
  inferInstanceAs (Decidable (_ ∧ _))

namespace Registry

/-- The task that has the lock of a key, or has been handed it. -/
def owner? (r : Registry) (key : Key) : Option TaskId :=
  (r.lockOf? key).bind fun lock => (r.line lock).head?

/-- A task has still to get a key that another one has. -/
def WaitsFor (r : Registry) (t u : TaskId) : Prop :=
  u ≠ t ∧ ∃ task key, r.tasks[t]? = some task ∧ task.nextKey? = some key ∧ r.owner? key = some u

/-- A task is giving back locks that it has. -/
def IsReturning (r : Registry) (t : TaskId) : Prop :=
  ∃ task ending stale, r.tasks[t]? = some task ∧ task.stage = .leaving ending stale ∧
    task.guards ≠ []

/-- A task has still a key to get. -/
def IsPending (r : Registry) : Prop :=
  ∃ (t : TaskId) (task : Task) (key : Key), r.tasks[t]? = some task ∧ task.nextKey? = some key

/-- Nobody keeps a task from its next key: the key has no other owner, and unless the token of the
task has fired, the task has the key after at most two steps of its own. -/
def CanTake (r : Registry) (t : TaskId) : Prop :=
  ∃ task key, r.tasks[t]? = some task ∧ task.nextKey? = some key ∧
    (∀ u, r.owner? key = some u → u = t) ∧
    (task.isCancelled r.fired = false → ∃ n ≤ 2, ∃ task',
      (r.run (List.replicate n (.advance t))).tasks[t]? = some task' ∧ key ∈ task'.heldKeys)

variable {r r' : Registry}

/-- A task that has nothing left to get is not the one that others pend on. -/
theorem IsPending.of_set (h : r.IsPending) {t : TaskId} {old new : Task}
    (ht : r.tasks[t]? = some old) (hnone : old.nextKey? = none)
    (htasks : r'.tasks = r.tasks.set t new) : r'.IsPending := by
  obtain ⟨u, other, key, hu, hkey⟩ := h
  have hut : u ≠ t := by
    rintro rfl
    obtain rfl : other = old := Option.some.inj (hu.symm.trans ht)
    cases hnone.symm.trans hkey
  exact ⟨u, other, key, by rw [htasks, getElem?_set_of_some ht, if_neg hut, hu], hkey⟩

/-- When a task that is giving locks back moves, nobody else starts to. -/
theorem IsReturning.of_set {t u : TaskId} {new : Task} (ht : r.IsReturning t)
    (htasks : r'.tasks = r.tasks.set t new) (hu : r'.IsReturning u) : r.IsReturning u := by
  by_cases hut : u = t
  · exact hut ▸ ht
  · obtain ⟨task, ending, stale, ht, -⟩ := ht
    obtain ⟨other, ending', stale', hu, hs, hguards⟩ := hu
    rw [htasks, getElem?_set_of_some ht, if_neg hut] at hu
    exact ⟨other, ending', stale', hu, hs, hguards⟩

theorem length_flatMap_set_lt {α β : Type} {l : List α} {i : Nat} {old new : α} {f : α → List β}
    (h : l[i]? = some old) (hlt : (f new).length < (f old).length) :
    ((l.set i new).flatMap f).length < (l.flatMap f).length := by
  induction l generalizing i with
  | nil => simp at h
  | cons x xs ih =>
    cases i with
    | zero =>
      obtain rfl : x = old := by simpa using h
      simpa using hlt
    | succ i => simpa using ih (by simpa using h)

namespace WellFormed

/-- The lock of a key is that of whoever is after the key. -/
theorem owner?_of_usesFor (h : r.WellFormed) {t : TaskId} {task : Task}
    (ht : r.tasks[t]? = some task) {key : Key} {lock : LockId} (huses : task.UsesFor (key, lock)) :
    r.owner? key = (r.line lock).head? := by
  rw [owner?, h.lockOf?_eq_some_iff.mpr (h.registered ht _ huses), Option.bind_some]

/-- Whoever owns a key has it, or has been handed its lock and has not noticed. -/
theorem owner_cases (h : r.WellFormed) {key : Key} {u : TaskId} (howner : r.owner? key = some u) :
    ∃ task, r.tasks[u]? = some task ∧ (key ∈ task.heldKeys ∨ task.nextKey? = some key) := by
  obtain ⟨lock, hlock, hhead⟩ := Option.bind_eq_some_iff.mp howner
  have hentry := mem_entries_of_lockOf? hlock
  obtain ⟨task, hu, hstands⟩ := (h.mem_line lock u).mp (List.mem_of_head? hhead)
  obtain ⟨key', huses⟩ := hstands.exists_usesFor
  obtain rfl : key' = key := h.key_unique (h.registered hu _ huses) hentry
  refine ⟨task, hu, ?_⟩
  rcases huses with hguard | hpursuit
  · exact .inl (List.mem_map_of_mem (f := Prod.fst) hguard)
  · exact .inr (Task.nextKey?_of_pursuit hpursuit)

/-- Who waits for a task that waits itself needs a smaller key than that task does. -/
theorem nextKey_lt_of_waitsFor (h : r.WellFormed) {t u v : TaskId} (htu : r.WaitsFor t u)
    (huv : r.WaitsFor u v) {task other : Task} {key key' : Key} (ht : r.tasks[t]? = some task)
    (hkey : task.nextKey? = some key) (hu : r.tasks[u]? = some other)
    (hkey' : other.nextKey? = some key') : key < key' := by
  obtain ⟨-, task', k, ht', hk, howner⟩ := htu
  obtain rfl : task' = task := Option.some.inj (ht'.symm.trans ht)
  obtain rfl : k = key := Option.some.inj (hk.symm.trans hkey)
  obtain ⟨other', hu', hhas⟩ := h.owner_cases howner
  obtain rfl : other' = other := Option.some.inj (hu'.symm.trans hu)
  rcases hhas with hheld | hhanded
  · exact (h.orderly hu).lt_of_nextKey hkey' k hheld
  · -- Who has been handed the lock owns its next key itself and waits for nobody.
    obtain ⟨hne, other'', k', hu'', hk', howner'⟩ := huv
    obtain rfl : other'' = other' := Option.some.inj (hu''.symm.trans hu)
    obtain rfl : k' = k := Option.some.inj (hk'.symm.trans hhanded)
    exact absurd (Option.some.inj (howner'.symm.trans howner)) hne

/-- Along a chain of tasks that wait for each other the keys ascend. -/
theorem nextKey_lt_of_transGen (h : r.WellFormed) {t u v : TaskId}
    (hchain : Relation.TransGen r.WaitsFor t u) (huv : r.WaitsFor u v) {task other : Task}
    {key key' : Key} (ht : r.tasks[t]? = some task) (hkey : task.nextKey? = some key)
    (hu : r.tasks[u]? = some other) (hkey' : other.nextKey? = some key') : key < key' := by
  induction hchain generalizing v other key' with
  | single htu => exact h.nextKey_lt_of_waitsFor htu huv ht hkey hu hkey'
  | tail _ hlast ih =>
    obtain ⟨hne, middle, k, hm, hk, howner⟩ := hlast
    have hwaits : r.WaitsFor _ _ := ⟨hne, middle, k, hm, hk, howner⟩
    exact String.lt_trans (ih hwaits hm hk) (h.nextKey_lt_of_waitsFor hwaits huv hm hk hu hkey')

/-- **No cycle.** No task waits for itself, however long the chain. -/
theorem not_transGen_waitsFor (h : r.WellFormed) (t : TaskId) :
    ¬ Relation.TransGen r.WaitsFor t t := by
  intro hcycle
  obtain ⟨u, ⟨hne, task, key, ht, hkey, howner⟩, -⟩ := Relation.TransGen.head'_iff.mp hcycle
  exact String.lt_irrefl key
    (h.nextKey_lt_of_transGen hcycle ⟨hne, task, key, ht, hkey, howner⟩ ht hkey ht hkey)

/-- Among the tasks that have still a key to get there is one that waits for none of the others. -/
theorem exists_pending_not_waiting (h : r.WellFormed) {t : TaskId} {task : Task} {key : Key}
    (ht : r.tasks[t]? = some task) (hkey : task.nextKey? = some key) :
    ∃ u other key', r.tasks[u]? = some other ∧ other.nextKey? = some key' ∧
      ∀ v third, r.WaitsFor u v → r.tasks[v]? = some third → third.nextKey? = none := by
  -- The tasks are finitely many, and chains between them do not come back.
  let Behind (a b : Fin r.tasks.length) : Prop := Relation.TransGen r.WaitsFor b a
  have : IsTrans (Fin r.tasks.length) Behind := ⟨fun _ _ _ hab hbc => hbc.trans hab⟩
  have : Std.Irrefl Behind := ⟨fun a => h.not_transGen_waitsFor a⟩
  have hwf : WellFounded Behind := Finite.wellFounded_of_trans_of_irrefl Behind
  have hlt : t < r.tasks.length := (List.getElem?_eq_some_iff.mp ht).1
  obtain ⟨u, ⟨other, key', hu, hkey'⟩, hlast⟩ :=
    hwf.has_min {a | ∃ other key', r.tasks[(a : Nat)]? = some other ∧ other.nextKey? = some key'}
      ⟨⟨t, hlt⟩, task, key, ht, hkey⟩
  refine ⟨u, other, key', hu, hkey', fun v third hwaits hv => ?_⟩
  have hvlt : v < r.tasks.length := (List.getElem?_eq_some_iff.mp hv).1
  cases hthird : third.nextKey? with
  | none => rfl
  | some k => exact absurd (.single hwaits) (hlast ⟨v, hvlt⟩ ⟨third, k, hv, hthird⟩)

/-- A task that has found the lock of its next key, and whom nobody keeps from it, gets it in one
step. -/
theorem takes_pursued (h : r.WellFormed) {t : TaskId} {task : Task} {key : Key} {lock : LockId}
    (ht : r.tasks[t]? = some task) (hpursuit : task.pursuit? = some (key, lock))
    (hfree : ∀ u, (r.line lock).head? = some u → u = t) (hc : task.isCancelled r.fired = false) :
    ∃ task', (r.advance t).tasks[t]? = some task' ∧ key ∈ task'.heldKeys := by
  have hnot := h.not_mem_guards_of_pursuit ht hpursuit
  have hhead : ∀ {u : TaskId}, u ∈ r.line lock → (r.line lock).head? = some t := by
    intro u hu
    cases hline : r.line lock with
    | nil => simp [hline] at hu
    | cons x rest =>
      have hx : x = t := hfree x (by simp [hline])
      simp [hx]
  cases hs : task.stage with
  | arrived key' lock' remaining =>
    obtain ⟨rfl, rfl⟩ : key' = key ∧ lock' = lock := by simpa [Task.pursuit?, hs] using hpursuit
    have hempty : r.line lock' = [] := by
      refine List.eq_nil_iff_forall_not_mem.mpr fun u hu => ?_
      rcases (h.mem_line_iff ht lock').mp (List.mem_of_head? (hhead hu)) with hin | hin
      · exact hnot hin
      · simp [Task.awaited?, hs] at hin
    have hadvance : r.advance t =
        (r.joinLine t lock').setTask t (task.grant key' lock' remaining) := by
      simp [advance, ht, hs, hc, request, hempty]
    refine ⟨task.grant key' lock' remaining, ?_, by simp⟩
    rw [hadvance, tasks_setTask, tasks_joinLine, getElem?_set_of_some ht, if_pos rfl]
  | queued key' lock' remaining =>
    obtain ⟨rfl, rfl⟩ : key' = key ∧ lock' = lock := by simpa [Task.pursuit?, hs] using hpursuit
    have hin : t ∈ r.line lock' :=
      (h.mem_line_iff ht lock').mpr (.inr (by simp [Task.awaited?, hs]))
    have hadvance : r.advance t = r.setTask t (task.grant key' lock' remaining) := by
      simp [advance, ht, hs, hc, hhead hin]
    refine ⟨task.grant key' lock' remaining, ?_, by simp⟩
    rw [hadvance, tasks_setTask, getElem?_set_of_some ht, if_pos rfl]
  | _ => simp [Task.pursuit?, hs] at hpursuit

/-- A task whose next key nobody else owns can take it. -/
theorem canTake (h : r.WellFormed) {t : TaskId} {task : Task} {key : Key}
    (ht : r.tasks[t]? = some task) (hkey : task.nextKey? = some key)
    (hfree : ∀ u, r.owner? key = some u → u = t) : r.CanTake t := by
  refine ⟨task, key, ht, hkey, hfree, fun hc => ?_⟩
  cases hs : task.stage with
  | choosing remaining =>
    obtain ⟨rest, rfl⟩ : ∃ rest, remaining = key :: rest := by
      simpa [Task.nextKey?, hs, List.head?_eq_some_iff] using hkey
    -- The first step finds or makes the lock, the second one takes it.
    have hsecond : ∀ lock, (r.advance t).tasks[t]? =
        some { task with stage := .arrived key lock rest } → (r.advance t).fired = r.fired →
        (∀ u, ((r.advance t).line lock).head? = some u → u = t) →
        ∃ n ≤ 2, ∃ task', (r.run (List.replicate n (.advance t))).tasks[t]? = some task' ∧
          key ∈ task'.heldKeys := by
      intro lock ht' hfired hfree'
      exact ⟨2, Nat.le_refl 2, (h.step (.advance t)).takes_pursued ht' rfl hfree'
        (by rw [show r.step (.advance t) = r.advance t from rfl, hfired]; exact hc)⟩
    cases hl : r.lockOf? key with
    | some lock =>
      have hadvance : r.advance t =
          r.setTask t { task with stage := .arrived key lock rest } := by
        simp [advance, ht, hs, approach, hl]
      refine hsecond lock ?_ (by rw [hadvance, fired_setTask]) fun u hu => hfree u ?_
      · rw [hadvance, tasks_setTask, getElem?_set_of_some ht, if_pos rfl]
      · rw [owner?, hl, Option.bind_some, ← hu, hadvance, line_setTask]
    | none =>
      have hadvance : r.advance t = (r.addLock key).setTask t
          { task with stage := .arrived key r.lines.length rest } := by
        simp [advance, ht, hs, approach, hl]
      refine hsecond r.lines.length ?_ (by rw [hadvance, fired_setTask, fired_addLock])
        fun u hu => ?_
      · rw [hadvance, tasks_setTask, tasks_addLock, getElem?_set_of_some ht, if_pos rfl]
      · rw [hadvance, line_setTask, line_addLock] at hu
        simp [line] at hu
  | arrived key' lock remaining =>
    have hpursuit : task.pursuit? = some (key, lock) := by simp_all [Task.nextKey?, Task.pursuit?]
    have howner := h.owner?_of_usesFor ht (.inr hpursuit)
    exact ⟨1, by decide, h.takes_pursued ht hpursuit (howner ▸ hfree) hc⟩
  | queued key' lock remaining =>
    have hpursuit : task.pursuit? = some (key, lock) := by simp_all [Task.nextKey?, Task.pursuit?]
    have howner := h.owner?_of_usesFor ht (.inr hpursuit)
    exact ⟨1, by decide, h.takes_pursued ht hpursuit (howner ▸ hfree) hc⟩
  | _ => simp [Task.nextKey?, hs] at hkey

/-- While a task has still a key to get, some task can take its next one, unless a task with nothing
left to get has locks. -/
theorem exists_canTake_or_holder (h : r.WellFormed) (hpending : r.IsPending) :
    (∃ t, r.CanTake t) ∨
      ∃ (t : TaskId) (task : Task),
        r.tasks[t]? = some task ∧ task.nextKey? = none ∧ task.guards ≠ [] := by
  obtain ⟨t, task, key, ht, hkey⟩ := hpending
  obtain ⟨u, other, key', hu, hkey', hlast⟩ := h.exists_pending_not_waiting ht hkey
  by_cases hfree : ∀ v, r.owner? key' = some v → v = u
  · exact .inl ⟨u, h.canTake hu hkey' hfree⟩
  · obtain ⟨v, howner, hne⟩ : ∃ v, r.owner? key' = some v ∧ v ≠ u := by simpa using hfree
    obtain ⟨third, hv, hhas⟩ := h.owner_cases howner
    have hnone := hlast v third ⟨hne, other, key', hu, hkey', howner⟩ hv
    rcases hhas with hheld | hnext
    · refine .inr ⟨v, third, hv, hnone, fun hempty => ?_⟩
      simp [Task.heldKeys, hempty] at hheld
    · cases hnone.symm.trans hnext

/-- Who has locks and nothing left to get either has all its keys or is giving its locks back. -/
theorem isReturning_of_nextKey (h : r.WellFormed) {t : TaskId} {task : Task}
    (ht : r.tasks[t]? = some task) (hnone : task.nextKey? = none) (hguards : task.guards ≠ [])
    (hlock : ¬ task.IsLock) : r.IsReturning t := by
  have hprogress := (h.orderly ht).progress
  unfold Task.Progress at hprogress
  cases hs : task.stage with
  | choosing remaining =>
    have hempty : remaining = [] := by simpa [Task.nextKey?, hs] using hnone
    exact absurd ⟨hguards, .inr (hempty ▸ hs)⟩ hlock
  | complete => exact absurd ⟨hguards, .inl hs⟩ hlock
  | leaving ending stale => exact ⟨task, ending, stale, ht, hs, hguards⟩
  | «over» ending =>
    simp only [hs] at hprogress
    exact absurd hprogress hguards
  | _ => simp [Task.nextKey?, hs] at hnone

/-- While nobody is giving locks back, some task can take its next key at once. -/
theorem exists_canTake_at_once (h : r.WellFormed) (hpending : r.IsPending)
    (hlocks : ∀ task ∈ r.tasks, ¬ task.IsLock) (hreturning : ∀ t, ¬ r.IsReturning t) :
    ∃ t, r.CanTake t := by
  rcases h.exists_canTake_or_holder hpending with hcan | ⟨u, task, hu, hnone, hguards⟩
  · exact hcan
  · have hlock := hlocks task (List.mem_of_getElem? hu)
    exact absurd (h.isReturning_of_nextKey hu hnone hguards hlock) (hreturning u)

/-- **Progress.** The tasks that give locks back need only their own steps for it, and after enough
of them some task can take its next key. -/
theorem exists_canTake (h : r.WellFormed) (hpending : r.IsPending)
    (hlocks : ∀ task ∈ r.tasks, ¬ task.IsLock) :
    ∃ returns : List TaskId, (∀ u ∈ returns, r.IsReturning u) ∧
      ∃ t, (r.run (returns.map .advance)).CanTake t := by
  -- The induction is on the number of locks that the tasks have.
  induction hsize : (r.tasks.flatMap Task.guards).length using Nat.strong_induction_on
    generalizing r with
  | _ size ih =>
    rcases h.exists_canTake_or_holder hpending with hcan | ⟨u, task, hu, hnone, hguards⟩
    · exact ⟨[], by simp, hcan⟩
    · have hreturning := h.isReturning_of_nextKey hu hnone hguards
        (hlocks task (List.mem_of_getElem? hu))
      have ⟨task', ending, stale, hu', hs, _⟩ := hreturning
      obtain rfl : task' = task := Option.some.inj (hu'.symm.trans hu)
      obtain ⟨⟨key, lock⟩, rest, hrest⟩ := List.exists_cons_of_ne_nil hguards
      have htasks : (r.step (.advance u)).tasks =
          r.tasks.set u { task' with guards := rest } := by
        simp [Registry.step, advance, hu, hs, hrest]
      have hless : ((r.step (.advance u)).tasks.flatMap Task.guards).length < size := by
        rw [htasks, ← hsize]
        exact length_flatMap_set_lt hu (by simp [hrest])
      have hlocks' : ∀ task ∈ (r.step (.advance u)).tasks, ¬ task.IsLock := by
        intro other hother
        rw [htasks] at hother
        rcases List.mem_or_eq_of_mem_set hother with hother | rfl
        · exact hlocks other hother
        · simp [Task.IsLock, hs]
      obtain ⟨returns, hreturns, hcan⟩ :=
        ih _ hless (h.step _) (hpending.of_set hu hnone htasks) hlocks' rfl
      refine ⟨u :: returns, fun v hv => ?_, by simpa using hcan⟩
      rcases List.mem_cons.mp hv with rfl | hv
      · exact hreturning
      · exact hreturning.of_set htasks (hreturns v hv)

end WellFormed

/-- **No deadlock.** Whatever tasks have been added for whatever keys, and whatever has happened
since, no task waits for itself along any chain. Hence, if a task has still a key to get and no task
that has all its keys keeps them, some task can take its next key, once those that are giving locks
back have taken the steps for that. -/
theorem Reachable.no_deadlock {r : Registry} (h : r.Reachable) :
    (∀ t, ¬ Relation.TransGen r.WaitsFor t t) ∧
      (r.IsPending → (∀ task ∈ r.tasks, ¬ task.IsLock) →
        ∃ returns : List TaskId, (∀ u ∈ returns, r.IsReturning u) ∧
          ∃ t, (r.run (returns.map .advance)).CanTake t) :=
  ⟨h.wellFormed.not_transGen_waitsFor, h.wellFormed.exists_canTake⟩

/-- In particular, where no task is giving locks back either, some task can take its next key as
things stand. -/
theorem Reachable.exists_canTake {r : Registry} (h : r.Reachable) (hpending : r.IsPending)
    (hlocks : ∀ task ∈ r.tasks, ¬ task.IsLock) (hreturning : ∀ t, ¬ r.IsReturning t) :
    ∃ t, r.CanTake t :=
  h.wellFormed.exists_canTake_at_once hpending hlocks hreturning

/-- Two tasks are after the same two keys. The first one has one of them, for which the second one
waits. -/
def contested : Registry :=
  Registry.run {} [.begin ["b", "a"] none, .begin ["a", "b", "a"] none, .advance 0, .advance 0,
    .advance 1, .advance 1]

/-- The task that has the first key can take the second one. -/
theorem contested_goes_on :
    contested.WaitsFor 1 0 ∧ ∃ returns : List TaskId, (∀ u ∈ returns, contested.IsReturning u) ∧
      ∃ t, (contested.run (returns.map .advance)).CanTake t := by
  have hwaits : contested.WaitsFor 1 0 := ⟨by decide, _, "a", rfl, rfl, rfl⟩
  have hreachable : contested.Reachable := ⟨_, rfl⟩
  exact ⟨hwaits, (Reachable.no_deadlock hreachable).2 ⟨0, _, "b", rfl, rfl⟩ (by decide)⟩

end Registry

end LvmControl.Lock
