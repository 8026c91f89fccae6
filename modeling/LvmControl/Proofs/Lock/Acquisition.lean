import LvmControl.Proofs.Lock.Moves
import LvmControl.Proofs.Lock.Retention

/-!
# All or nothing

A task is added for some keys, and from then on anything can happen: other tasks acquire and give
back the same keys, its token fires, it is handed a lock and cancelled before it has noticed. If it
comes to have what it asked for, it has all of it; if it is cancelled, it has nothing, and nobody
else is the worse for it.

## Main definitions

* `Course`: a task that was added for some keys, and what has happened before and since.
* `Course.Ever`: something held of the task at some moment.
* `Course.Cleared`: the task has pruned a key and has used nothing since.
* `Course.AllOrNothing`: how an acquisition can come out.

## Main statements

* `Course.obtained_iff`: what a task has had, up to now, can be read off its state.
* `Course.minded_or_cleared`: a key that a task has used is one that it minds or has pruned.
* `Course.allOrNothing`: every acquisition is all or nothing.

## Design notes

**The smallest key not obtained.** By the time a cancelled task is over it has given back what it
had, and nothing in its state shows what that was. What it *obtained* is therefore a property of the
course and not of the state.

**The moment of pruning.** Others go on while a cancelled task prunes its keys, so that a key which
it has pruned can come back before it is over, and be left behind by a task that was given up. What
the task itself leaves behind is decided at the moment when it prunes the key: the key stays if
another task uses its lock at that moment.
-/

namespace LvmControl.Lock

/-- A task that is added for some keys after some actions, and the actions that have followed. -/
structure Course where
  before : List RegistryAction
  keys : List Key
  token : Option Token
  since : List RegistryAction := []

namespace Task

/-- A task that has nothing, is after nothing and will not be. -/
def IsRid (task : Task) : Prop := task.guards = [] ∧ ∃ ending, task.ending? = some ending

/-- What a task has had up to now, unless it was finished or given up. A task that was cancelled at
a key has had the ones below it. -/
def obtained (task : Task) : List Key :=
  match task.ending? with
  | some (.cancelled key) => task.keys.filter (· < key)
  | _ => task.heldKeys

/-- A task that gives everything back is after nothing. -/
theorem pursuit?_of_ending {task : Task} {ending : Ending} (h : task.ending? = some ending) :
    task.pursuit? = none := by
  cases hs : task.stage <;> simp_all [ending?, pursuit?]

theorem IsRid.claimed {task : Task} (h : task.IsRid) : task.claimed = [] := by
  obtain ⟨hguards, ending, hending⟩ := h
  simp [Task.claimed, heldKeys, hguards, pursuit?_of_ending hending]

/-- A task that is over has nothing to prune. -/
theorem minded_of_over {task : Task} (h : task.Orderly) {ending : Ending}
    (hs : task.stage = .over ending) : task.minded = [] := by
  have hguards : task.guards = [] := by
    have hprogress := h.progress
    rwa [Progress, hs] at hprogress
  simp [minded, Task.claimed, heldKeys, hguards, pursuit?, Task.stale, hs]

namespace Move

variable {fired : List Token} {t : TaskId} {a : RegistryAction} {old new : Task}

/-- A task stays rid of everything. -/
theorem isRid (h : Move fired t a old new) (hold : old.IsRid) : new.IsRid := by
  obtain ⟨hguards, ending, hending⟩ := hold
  obtain ⟨hnew, hsub, -⟩ := h.ending hending
  exact ⟨List.subset_nil.mp (hguards ▸ hsub), ending, hnew⟩

/-- A task that is cancelled at a key has all the keys below it, and the key is the next one. -/
theorem of_cancelled (h : Move fired t a old new) {key : Key}
    (he : new.ending? = some (.cancelled key)) :
    old.ending? = some (.cancelled key) ∨
      old.ending? = none ∧ old.nextKey? = some key ∧ new.heldKeys = old.heldKeys := by
  cases h with
  | cancelled hs hc =>
    obtain rfl := Ending.cancelled.inj (Option.some.inj he)
    rcases hs with hs | hs <;> simp [ending?, nextKey?, hs]
  | returned hs hg => exact .inl (by simpa [ending?, hs] using he)
  | pruned hs hg | ended hs hg => exact .inl (by simpa [ending?, hs] using he)
  | granted hs hc => simp [ending?] at he
  | completed hs | turned lock hs | lined hs hc | finished hs | abandoned hs => simp [ending?] at he

/-- What a task comes to have had by a move: what it had had already, and what it has now. -/
theorem mem_obtained_iff (h : Move fired t a old new) (ho : old.Orderly)
    (hheld : old.heldKeys ⊆ old.obtained)
    (hnew : ∀ e, new.ending? = some e → ∃ key, e = .cancelled key) (k : Key) :
    k ∈ new.obtained ↔ k ∈ old.obtained ∨ k ∈ new.heldKeys := by
  have hkeys := h.keys
  cases hending : new.ending? with
  | none =>
    -- A task that gives nothing back has kept what it had.
    have hold : old.ending? = none := by
      cases hold : old.ending? with
      | none => rfl
      | some e => cases (h.ending hold).1.symm.trans hending
    have hsub : old.heldKeys ⊆ new.heldKeys := by
      cases h with
      | granted hs hc => simp
      | completed hs | turned lock hs | lined hs hc => exact List.Subset.refl _
      | returned hs hg | pruned hs hg | ended hs hg => simp [ending?, hs] at hold
      | cancelled hs hc | finished hs | abandoned hs => simp [ending?] at hending
    simpa [obtained, hending, hold] using fun hk => hsub hk
  | some e =>
    obtain ⟨key, rfl⟩ := hnew e hending
    have hobtained : new.obtained = old.keys.filter (· < key) := by
      simp [obtained, hending, hkeys]
    rcases h.of_cancelled hending with hold | ⟨hold, hnext, hsame⟩
    · have hold' : old.obtained = old.keys.filter (· < key) := by simp [obtained, hold]
      rw [hobtained, ← hold']
      refine (or_iff_left_of_imp fun hk => hheld ?_).symm
      obtain ⟨e, he, rfl⟩ := List.mem_map.mp hk
      exact List.mem_map_of_mem (f := Prod.fst) ((h.ending hold).2.1 he)
    · -- The keys in front of the next one are those below it.
      have hold' : old.obtained = old.heldKeys := by simp [obtained, hold]
      rw [hobtained, hold', hsame, or_self_iff, List.mem_filter, decide_eq_true_eq]
      obtain ⟨rest, hsplit⟩ := ho.exists_keys_of_nextKey hnext
      have hascending := ho.ascending
      rw [← hsplit, List.pairwise_append, List.pairwise_cons] at hascending
      obtain ⟨-, ⟨habove, -⟩, hbelow⟩ := hascending
      rw [← hsplit, List.mem_append, List.mem_cons]
      constructor
      · rintro ⟨hk | rfl | hk, hlt⟩
        · exact hk
        · exact absurd hlt (String.lt_irrefl _)
        · exact absurd (String.lt_trans hlt (habove k hk)) (String.lt_irrefl _)
      · exact fun hk => ⟨.inl hk, hbelow k hk key List.mem_cons_self⟩

/-- A move leaves a task minding what it minded, unless it prunes the key or is given up. -/
theorem minded (h : Move fired t a old new) (ho : old.Orderly) {k : Key} (hk : k ∈ old.minded) :
    k ∈ new.minded ∨ new.ending? = some .abandoned ∨
      a = .advance t ∧ old.guards = [] ∧
        ∃ ending rest, old.stage = .leaving ending (k :: rest) := by
  cases h with
  | completed hs =>
    rw [minded_of_choosing hs] at hk
    have hs' : ({ old with stage := .complete } : Task).stage = .complete := rfl
    exact .inl ((minded_of_complete hs').symm ▸ hk)
  | turned lock hs =>
    rw [minded_of_choosing hs] at hk
    exact .inl ((mem_minded_of_pursuit rfl).mpr (.inl hk))
  | lined hs hc =>
    exact .inl ((mem_minded_of_pursuit rfl).mpr
      ((mem_minded_of_pursuit (pursuit?_of_arrived hs)).mp hk))
  | granted hs hc =>
    rcases hs with hs | hs
    · exact .inl ((mem_minded_grant (pursuit?_of_arrived hs) _).mpr hk)
    · exact .inl ((mem_minded_grant (pursuit?_of_queued hs) _).mpr hk)
  | cancelled hs hc =>
    rcases hs with hs | hs
    · exact .inl ((mem_minded_leave_cancelled (pursuit?_of_arrived hs) _).mpr hk)
    · exact .inl ((mem_minded_leave_cancelled (pursuit?_of_queued hs) _).mpr hk)
  | returned hs hg =>
    rename_i ending stale guard guards
    have hprogress := ho.progress
    rw [Progress, hs] at hprogress
    have hs' : ({ old with guards := guards } : Task).stage = .leaving ending stale := hs
    rcases (mem_minded_of_leaving hs).mp hk with hheld | hstale
    · exact .inl ((mem_minded_of_leaving hs').mpr (.inr (hprogress.2 hheld)))
    · exact .inl ((mem_minded_of_leaving hs').mpr (.inr hstale))
  | pruned hs hg =>
    rename_i ending key rest
    rcases (mem_minded_of_leaving hs).mp hk with hheld | hstale
    · simp [heldKeys, hg] at hheld
    · rcases List.mem_cons.mp hstale with rfl | hrest
      · exact .inr (.inr ⟨rfl, hg, ending, rest, hs⟩)
      · exact .inl ((mem_minded_of_leaving rfl).mpr (.inr hrest))
  | ended hs hg =>
    rcases (mem_minded_of_leaving hs).mp hk with hheld | hstale
    · simp [heldKeys, hg] at hheld
    · simp at hstale
  | finished hs =>
    rw [minded_of_complete hs] at hk
    exact .inl ((mem_minded_leave _).mpr hk)
  | abandoned hs => exact .inr (.inl rfl)

end Move

end Task

namespace Course

/-- The number of the task. -/
def id (c : Course) : TaskId := (Registry.run {} c.before).tasks.length

/-- The registry as it is now. -/
def registry (c : Course) : Registry :=
  Registry.run {} (c.before ++ .begin c.keys c.token :: c.since)

/-- The task as it is now. -/
def task? (c : Course) : Option Task := c.registry.tasks[c.id]?

/-- The same task when the given actions had followed. -/
def upTo (c : Course) (since : List RegistryAction) : Course := { c with since := since }

/-- One more action follows. -/
def next (c : Course) (a : RegistryAction) : Course := c.upTo (c.since ++ [a])

/-- At some moment up to now the task had the property. -/
def Ever (c : Course) (p : Task → Prop) : Prop :=
  ∃ mid, mid <+: c.since ∧ ∃ task, (c.upTo mid).task? = some task ∧ p task

/-- The task has pruned the key when it had nothing any more, and another task used the lock of the
key if the key stayed. Since then the task has had nothing and been after nothing. -/
def Cleared (c : Course) (key : Key) : Prop :=
  ∃ mid rest, c.since = mid ++ .advance c.id :: rest ∧
    ((c.upTo (mid ++ [.advance c.id])).registry.HasEntry key →
      (c.upTo (mid ++ [.advance c.id])).registry.UsedByOthers c.id key) ∧
    ∀ later, later <+: rest →
      ∃ task, (c.upTo (mid ++ .advance c.id :: later)).task? = some task ∧ task.IsRid

/-- What happens to a task is looked at from its end. -/
@[elab_as_elim]
theorem inductionOn {p : Course → Prop} (c : Course) (opening : p (c.upTo []))
    (next : ∀ d a, p d → p (d.next a)) : p c := by
  obtain ⟨before, keys, token, since⟩ := c
  induction since using List.reverseRecOn with
  | nil => exact opening
  | append_singleton since a ih =>
    exact next ⟨before, keys, token, since⟩ a (ih opening)

variable {c : Course}

@[simp] theorem registry_next (c : Course) (a : RegistryAction) :
    (c.next a).registry = c.registry.step a := by
  simp [registry, next, upTo, Registry.run_append]

theorem wellFormed (c : Course) : c.registry.WellFormed :=
  Registry.wellFormed_empty.run _

/-- Where the registry begins. -/
theorem registry_opening (c : Course) :
    (c.upTo []).registry = (Registry.run {} c.before).begin c.keys c.token := by
  simp [registry, upTo, Registry.run_append, Registry.step]

/-- Where the task begins. -/
theorem task?_opening (c : Course) :
    (c.upTo []).task? =
      some ⟨distinctKeys c.keys, c.token, [], .choosing (distinctKeys c.keys)⟩ := by
  rw [task?, registry_opening]
  simp [upTo, id, Registry.begin]

theorem task?_next_eq (c : Course) (a : RegistryAction) :
    (c.next a).task? = (c.registry.step a).tasks[c.id]? := by
  rw [task?, registry_next]
  rfl

/-- What the next action does to the task. -/
theorem task?_next {task : Task} (ht : c.task? = some task) (a : RegistryAction) :
    (c.next a).task? = some task ∨
      ∃ task', (c.next a).task? = some task' ∧ task.Move c.registry.fired c.id a task' := by
  rw [task?_next_eq]
  exact Registry.move_step ht a

/-- The task is there at every moment, with the distinct keys. -/
theorem exists_task (c : Course) :
    ∃ task, c.task? = some task ∧ task.keys = distinctKeys c.keys := by
  induction c using inductionOn with
  | opening => exact ⟨_, c.task?_opening, rfl⟩
  | next d a ih =>
    obtain ⟨task, ht, hkeys⟩ := ih
    rcases task?_next ht a with hsame | ⟨task', hnew, hmove⟩
    · exact ⟨task, hsame, hkeys⟩
    · exact ⟨task', hnew, hmove.keys.trans hkeys⟩

theorem keys_eq {task : Task} (ht : c.task? = some task) : task.keys = distinctKeys c.keys := by
  obtain ⟨task', ht', hkeys⟩ := c.exists_task
  rwa [Option.some.inj (ht'.symm.trans ht)] at hkeys

theorem token_eq {task : Task} (ht : c.task? = some task) : task.token = c.token := by
  induction c using inductionOn generalizing task with
  | opening => exact Option.some.inj (c.task?_opening.symm.trans ht) ▸ rfl
  | next d a ih =>
    obtain ⟨old, hold, -⟩ := d.exists_task
    rcases task?_next hold a with hsame | ⟨new, hnew, hmove⟩
    · exact Option.some.inj (hsame.symm.trans ht) ▸ ih hold
    · exact Option.some.inj (hnew.symm.trans ht) ▸ hmove.token.trans (ih hold)

theorem orderly {task : Task} (ht : c.task? = some task) : task.Orderly := c.wellFormed.orderly ht

/-- At the beginning only the beginning has been. -/
theorem ever_opening_iff {p : Task → Prop} :
    (c.upTo []).Ever p ↔
      p ⟨distinctKeys c.keys, c.token, [], .choosing (distinctKeys c.keys)⟩ := by
  constructor
  · rintro ⟨mid, hmid, task, ht, hp⟩
    obtain rfl : mid = [] := List.prefix_nil.mp hmid
    exact Option.some.inj (c.task?_opening.symm.trans ht) ▸ hp
  · exact fun hp => ⟨[], List.prefix_refl _, _, c.task?_opening, hp⟩

/-- What has been after one more action: what had been already, and what is now. -/
theorem ever_next_iff {p : Task → Prop} {a : RegistryAction} {task : Task}
    (ht : (c.next a).task? = some task) : (c.next a).Ever p ↔ c.Ever p ∨ p task := by
  constructor
  · rintro ⟨mid, hmid, task', ht', hp⟩
    rcases List.prefix_concat_iff.mp hmid with rfl | hmid
    · exact .inr (Option.some.inj (ht'.symm.trans ht) ▸ hp)
    · exact .inl ⟨mid, hmid, task', ht', hp⟩
  · rintro (⟨mid, hmid, task', ht', hp⟩ | hp)
    · exact ⟨mid, hmid.trans (List.prefix_append _ _), task', ht', hp⟩
    · exact ⟨c.since ++ [a], List.prefix_refl _, task, ht, hp⟩

/-- What is now has been. -/
theorem ever_of_task {p : Task → Prop} {task : Task} (ht : c.task? = some task) (hp : p task) :
    c.Ever p :=
  ⟨c.since, List.prefix_refl _, task, ht, hp⟩

/-! ## What it has had -/

/-- **What a task has had.** Unless it was finished or given up, its state shows which keys it has
had at any moment: those that it has, or those below the key that it was cancelled at. -/
theorem obtained_iff {task : Task} (ht : c.task? = some task)
    (hending : ∀ e, task.ending? = some e → ∃ key, e = .cancelled key) (k : Key) :
    c.Ever (k ∈ ·.heldKeys) ↔ k ∈ task.obtained := by
  induction c using inductionOn generalizing task k with
  | opening =>
    obtain rfl := Option.some.inj (c.task?_opening.symm.trans ht)
    rw [ever_opening_iff]
    rfl
  | next d a ih =>
    obtain ⟨old, hold, -⟩ := d.exists_task
    rw [ever_next_iff ht]
    rcases task?_next hold a with hsame | ⟨new, hnew, hmove⟩
    · obtain rfl : old = task := Option.some.inj (hsame.symm.trans ht)
      rw [← ih hold hending]
      exact or_iff_left_of_imp fun hk => ever_of_task hold hk
    · obtain rfl : new = task := Option.some.inj (hnew.symm.trans ht)
      have hbefore : ∀ e, old.ending? = some e → ∃ key, e = .cancelled key :=
        fun e he => hending e (hmove.ending he).1
      have hheld : old.heldKeys ⊆ old.obtained :=
        fun k hk => (ih hold hbefore k).mp (ever_of_task hold hk)
      rw [ih hold hbefore, hmove.mem_obtained_iff (orderly hold) hheld hending]

/-- The key that a task was cancelled at is one of its own. -/
theorem mem_keys_of_cancelled {task : Task} (ht : c.task? = some task) {key : Key}
    (he : task.ending? = some (.cancelled key)) : key ∈ task.keys := by
  induction c using inductionOn generalizing task with
  | opening =>
    obtain rfl := Option.some.inj (c.task?_opening.symm.trans ht)
    simp [Task.ending?] at he
  | next d a ih =>
    obtain ⟨old, hold, -⟩ := d.exists_task
    rcases task?_next hold a with hsame | ⟨new, hnew, hmove⟩
    · obtain rfl : old = task := Option.some.inj (hsame.symm.trans ht)
      exact ih hold he
    · obtain rfl : new = task := Option.some.inj (hnew.symm.trans ht)
      rw [hmove.keys]
      rcases hmove.of_cancelled he with hbefore | ⟨-, hnext, -⟩
      · exact ih hold hbefore
      · obtain ⟨rest, hsplit⟩ := (orderly hold).exists_keys_of_nextKey hnext
        exact hsplit ▸ by simp

/-! ## What it leaves behind -/

/-- A key that is cleared stays so. -/
theorem Cleared.next {key : Key} (h : c.Cleared key) (a : RegistryAction) :
    (c.next a).Cleared key := by
  obtain ⟨mid, rest, hsplit, hkept, hrid⟩ := h
  have hsplit' : c.since ++ [a] = mid ++ .advance c.id :: (rest ++ [a]) := by
    rw [hsplit, List.append_assoc, List.cons_append]
  refine ⟨mid, rest ++ [a], hsplit', hkept, fun later hlater => ?_⟩
  rcases List.prefix_concat_iff.mp hlater with rfl | hlater
  · obtain ⟨task, ht, htask⟩ := hrid rest (List.prefix_refl _)
    have hlast : c.upTo (mid ++ .advance c.id :: rest) = c := hsplit ▸ rfl
    rw [hlast] at ht
    change ∃ task, (c.upTo (mid ++ .advance c.id :: (rest ++ [a]))).task? = some task ∧ task.IsRid
    rw [← hsplit']
    rcases task?_next ht a with hsame | ⟨new, hnew, hmove⟩
    · exact ⟨task, hsame, htask⟩
    · exact ⟨new, hnew, hmove.isRid htask⟩
  · exact hrid later hlater

/-- A task that prunes a key clears it. -/
theorem cleared_of_pruned {task : Task} {ending : Ending} {key : Key} {rest : List Key}
    (ht : c.task? = some task) (hs : task.stage = .leaving ending (key :: rest))
    (hg : task.guards = []) : (c.next (.advance c.id)).Cleared key := by
  have hstep : c.registry.step (.advance c.id) =
      (c.registry.prune key).setTask c.id (task.leave ending rest) := by
    have ht' : c.registry.tasks[c.id]? = some task := ht
    simp [Registry.step, Registry.advance, ht', hs, hg]
  have hnew : (c.next (.advance c.id)).task? = some (task.leave ending rest) := by
    have ht' : (c.registry.prune key).tasks[c.id]? = some task := by rwa [Registry.tasks_prune]
    show (c.next (.advance c.id)).registry.tasks[c.id]? = _
    rw [registry_next, hstep, Registry.tasks_setTask, getElem?_set_of_some ht', if_pos rfl]
  refine ⟨c.since, [], rfl, fun hentry => ?_, fun later hlater => ?_⟩
  · have hclaimed : task.claimed = [] :=
      Task.IsRid.claimed ⟨hg, ending, by simp [Task.ending?, hs]⟩
    change (c.next (.advance c.id)).registry.HasEntry key at hentry
    change (c.next (.advance c.id)).registry.UsedByOthers c.id key
    rw [registry_next, hstep] at hentry
    obtain ⟨u, other, hut, hu, hkey⟩ :=
      c.wellFormed.usedByOthers_of_hasEntry_prune ht hclaimed hentry
    refine ⟨u, other, hut, ?_, hkey⟩
    rw [registry_next]
    exact ((c.wellFormed.spares_step (.inl rfl)).tasks u hut).trans hu
  · obtain rfl : later = [] := List.prefix_nil.mp hlater
    exact ⟨_, hnew, hg, ending, by simp [Task.ending?]⟩

/-- **What a task leaves behind.** A key that a task has used at any moment is one that it is going
to prune or has pruned, unless it was given up. -/
theorem minded_or_cleared {task : Task} (ht : c.task? = some task)
    (hending : task.ending? ≠ some .abandoned) {k : Key} (hk : c.Ever (k ∈ ·.claimed)) :
    k ∈ task.minded ∨ c.Cleared k := by
  induction c using inductionOn generalizing task with
  | opening =>
    rw [ever_opening_iff] at hk
    simp [Task.claimed, Task.heldKeys, Task.pursuit?] at hk
  | next d a ih =>
    obtain ⟨old, hold, -⟩ := d.exists_task
    rcases (ever_next_iff ht).mp hk with hbefore | hnow
    · rcases task?_next hold a with hsame | ⟨new, hnew, hmove⟩
      · obtain rfl : old = task := Option.some.inj (hsame.symm.trans ht)
        exact (ih hold hending hbefore).imp_right fun hcleared => hcleared.next a
      · obtain rfl : new = task := Option.some.inj (hnew.symm.trans ht)
        have hold' : old.ending? ≠ some .abandoned := fun he => hending (hmove.ending he).1
        rcases ih hold hold' hbefore with hminded | hcleared
        · rcases hmove.minded (orderly hold) hminded with
            hkept | habandoned | ⟨rfl, hg, e, rest, hs⟩
          · exact .inl hkept
          · exact absurd habandoned hending
          · exact .inr (cleared_of_pruned hold hs hg)
        · exact .inr (hcleared.next a)
    · exact .inl (List.mem_append_left _ hnow)

/-! ## When the token had fired before -/

/-- The stage of a task after its steps, when the key is the first one and the task is cancelled at
it. -/
inductive Refused (key : Key) : Nat → Stage → Prop
  | choosing (remaining : List Key) : Refused key 0 (.choosing (key :: remaining))
  | arrived (lock : LockId) (remaining : List Key) : Refused key 1 (.arrived key lock remaining)
  | leaving : Refused key 2 (.leaving (.cancelled key) [key])
  | pruned : Refused key 3 (.leaving (.cancelled key) [])
  | «over» (n : Nat) : Refused key (n + 4) (.over (.cancelled key))

/-- What has fired before the task was added has fired. -/
theorem fired_subset (c : Course) : (Registry.run {} c.before).fired ⊆ c.registry.fired := by
  intro token hfired
  rw [registry, Registry.run_append]
  exact Registry.mem_fired_run.mpr (.inl hfired)

/-- A refused task that takes a step goes on to the next stage. -/
theorem Refused.step {key : Key} {n : Nat} {task : Task} (h : Refused key n task.stage)
    {r : Registry} {t : TaskId} (ht : r.tasks[t]? = some task) (hg : task.guards = [])
    (hc : task.isCancelled r.fired = true) :
    ∃ task', (r.step (.advance t)).tasks[t]? = some task' ∧ task'.guards = [] ∧
      task'.token = task.token ∧ Refused key (n + 1) task'.stage := by
  generalize hs : task.stage = stage at h
  cases h with
  | choosing remaining =>
    cases hl : r.lockOf? key with
    | some lock =>
      refine ⟨{ task with stage := .arrived key lock remaining }, ?_, hg, rfl, .arrived _ _⟩
      simp [Registry.step, Registry.advance, ht, hs, Registry.approach, hl,
        getElem?_set_of_some ht]
    | none =>
      refine ⟨{ task with stage := .arrived key r.lines.length remaining }, ?_, hg, rfl,
        .arrived _ _⟩
      simp [Registry.step, Registry.advance, ht, hs, Registry.approach, hl,
        getElem?_set_of_some ht]
  | arrived lock remaining =>
    refine ⟨task.leave (.cancelled key) [key], ?_, hg, rfl, .leaving⟩
    simp [Registry.step, Registry.advance, ht, hs, hc, getElem?_set_of_some ht, Task.heldKeys, hg]
  | leaving =>
    refine ⟨task.leave (.cancelled key) [], ?_, hg, rfl, .pruned⟩
    simp [Registry.step, Registry.advance, ht, hs, hg, getElem?_set_of_some ht]
  | pruned =>
    refine ⟨{ task with stage := .over (.cancelled key) }, ?_, hg, rfl, .over 0⟩
    simp [Registry.step, Registry.advance, ht, hs, hg, getElem?_set_of_some ht]
  | «over» n =>
    refine ⟨task, ?_, hg, rfl, hs ▸ .over (n + 1)⟩
    simp [Registry.step, Registry.advance, ht, hs]

/-- A task that is refused is not done with acquiring. -/
theorem Refused.ne_complete {key : Key} {n : Nat} {stage : Stage} (h : Refused key n stage) :
    stage ≠ .complete := by
  cases h <;> simp

/-- **A token that had fired.** Whatever else happens, a task that is not given up is cancelled at
its first key, and its own steps alone take it there. -/
theorem exists_refused {token : Token} (htoken : c.token = some token)
    (hfired : token ∈ (Registry.run {} c.before).fired) {key : Key} {remaining : List Key}
    (hkeys : distinctKeys c.keys = key :: remaining) (hkept : .abandon c.id ∉ c.since) :
    ∃ task, c.task? = some task ∧ task.guards = [] ∧ task.token = c.token ∧
      Refused key (c.since.count (.advance c.id)) task.stage := by
  induction c using inductionOn with
  | opening =>
    have hkeys : distinctKeys c.keys = key :: remaining := hkeys
    refine ⟨_, c.task?_opening, rfl, rfl, ?_⟩
    show Refused key 0 (.choosing (distinctKeys c.keys))
    exact hkeys ▸ .choosing remaining
  | next d a ih =>
    have hkept' : .abandon d.id ∉ d.since ∧ a ≠ .abandon d.id := by
      constructor
      · exact fun hmem => hkept (List.mem_append_left _ hmem)
      · rintro rfl
        exact hkept (List.mem_append_right _ List.mem_cons_self)
    obtain ⟨task, ht, hg, hsame, hrefused⟩ := ih htoken hfired hkeys hkept'.1
    have hcount : (d.next a).since.count (.advance d.id) =
        d.since.count (.advance d.id) + [a].count (.advance d.id) := List.count_append
    by_cases ha : a = .advance d.id
    · subst ha
      have htoken : d.token = some token := htoken
      have hc : task.isCancelled d.registry.fired = true := by
        simpa [Task.isCancelled, hsame, htoken] using d.fired_subset hfired
      obtain ⟨task', ht', hg', hsame', hrefused'⟩ := hrefused.step ht hg hc
      refine ⟨task', by rw [task?, registry_next]; exact ht', hg', hsame'.trans hsame, ?_⟩
      change Refused key ((d.next _).since.count (.advance d.id)) task'.stage
      rwa [hcount, List.count_singleton_self]
    · -- Nothing else moves the task: it is not complete and so cannot be finished.
      have hzero : [a].count (.advance d.id) = 0 := by simp [ha]
      change ∃ task', (d.next a).task? = some task' ∧ task'.guards = [] ∧ task'.token = d.token ∧
        Refused key ((d.next a).since.count (.advance d.id)) task'.stage
      rw [hcount, hzero]
      rcases task?_next ht a with hstill | ⟨task', -, hmove⟩
      · exact ⟨task, hstill, hg, hsame, hrefused⟩
      · rcases hmove.isOf with rfl | rfl | rfl
        · exact absurd rfl ha
        · cases hmove with
          | finished hs => exact absurd hs hrefused.ne_complete
        · exact absurd rfl hkept'.2

/-! ## How an acquisition comes out -/

/-- How an acquisition comes out, whatever else happens. -/
structure AllOrNothing (c : Course) : Prop where
  /-- A task that has acquired its keys has the locks of exactly the distinct ones, and reports them
  in ascending order. -/
  acquired : ∀ {task : Task} {held : List Key}, c.task? = some task →
    task.acquisition = .acquired held →
      held.Pairwise (· < ·) ∧ (∀ k, k ∈ held ↔ k ∈ c.keys) ∧
        ∀ k ∈ held, ∃ lock, c.registry.lockOf? k = some lock ∧
          (c.registry.line lock).head? = some c.id
  /-- The key that a task is cancelled at is the smallest one that it has not had. -/
  cancelled : ∀ {task : Task} {key : Key}, c.task? = some task →
    task.acquisition = .cancelled key →
      key ∈ c.keys ∧ ∀ k ∈ c.keys, c.Ever (k ∈ ·.heldKeys) ↔ k < key
  /-- Once it is over it has nothing, is after nothing and stands in no line. -/
  emptied : ∀ {task : Task} {key : Key}, c.task? = some task →
    task.stage = .over (.cancelled key) →
      task.guards = [] ∧ task.pursuit? = none ∧ ∀ lock, c.id ∉ c.registry.line lock
  /-- Whatever the task has done, the others have kept what they had and their places. -/
  spared : ∀ mid a, mid ++ [a] <+: c.since → a.IsOf c.id →
    Registry.Spares c.id (c.upTo mid).registry (c.upTo (mid ++ [a])).registry
  /-- Every key that it has had or been after, it has pruned, and the key stayed only if another
  task used its lock. -/
  cleared : ∀ {task : Task} {key : Key}, c.task? = some task →
    task.stage = .over (.cancelled key) → ∀ k, c.Ever (k ∈ ·.claimed) → c.Cleared k
  /-- If the token had fired before, the task never has anything, and unless it is given up, four
  steps of its own are enough for it to be over, cancelled at the smallest of its keys. -/
  refused : ∀ {token : Token}, c.token = some token →
    token ∈ (Registry.run {} c.before).fired → c.keys ≠ [] → .abandon c.id ∉ c.since →
      ∃ key ∈ c.keys, (∀ k ∈ c.keys, key ≤ k) ∧
        ∃ task, c.task? = some task ∧ task.guards = [] ∧ task.stage ≠ .complete ∧
          (4 ≤ c.since.count (.advance c.id) → task.stage = .over (.cancelled key))

/-- The keys of a task whose token had fired have a smallest one, which is where it is cancelled. -/
theorem refused_of_fired {token : Token} (htoken : c.token = some token)
    (hfired : token ∈ (Registry.run {} c.before).fired) (hne : c.keys ≠ [])
    (hkept : .abandon c.id ∉ c.since) :
    ∃ key ∈ c.keys, (∀ k ∈ c.keys, key ≤ k) ∧
      ∃ task, c.task? = some task ∧ task.guards = [] ∧ task.stage ≠ .complete ∧
        (4 ≤ c.since.count (.advance c.id) → task.stage = .over (.cancelled key)) := by
  cases hkeys : distinctKeys c.keys with
  | nil =>
    obtain ⟨k, hk⟩ := List.exists_mem_of_ne_nil c.keys hne
    rw [← mem_distinctKeys, hkeys] at hk
    exact absurd hk List.not_mem_nil
  | cons key remaining =>
    have hleast : ∀ k ∈ c.keys, key ≤ k := by
      intro k hk
      have hascending := pairwise_distinctKeys c.keys
      rw [← mem_distinctKeys, hkeys] at hk
      rw [hkeys] at hascending
      rcases List.mem_cons.mp hk with rfl | hk
      · exact String.le_refl _
      · exact String.not_lt.mp (String.lt_asymm (List.rel_of_pairwise_cons hascending hk))
    obtain ⟨task, ht, hg, -, hrefused⟩ := exists_refused htoken hfired hkeys hkept
    refine ⟨key, mem_distinctKeys.mp (hkeys ▸ List.mem_cons_self), hleast, task, ht, hg,
      hrefused.ne_complete, fun hcount => ?_⟩
    obtain ⟨n, hn⟩ := Nat.exists_eq_add_of_le' hcount
    rw [hn] at hrefused
    generalize task.stage = stage at hrefused
    cases hrefused
    rfl

/-- **All or nothing.** Whatever has happened before a task is added and whatever happens then, it
comes to have all its keys, or is cancelled and has none and leaves nothing behind. -/
theorem allOrNothing (c : Course) : c.AllOrNothing where
  acquired := by
    intro task held ht hacquired
    obtain ⟨hs, rfl⟩ := Task.acquisition_eq_acquired_iff.mp hacquired
    have ho := orderly ht
    have hheld : task.heldKeys = task.keys := by
      have hprogress := ho.progress
      rwa [Task.Progress, hs] at hprogress
    refine ⟨hheld ▸ ho.ascending, fun k => ?_, fun k hk => ?_⟩
    · rw [hheld, keys_eq ht, mem_distinctKeys]
    · obtain ⟨⟨k, lock⟩, hguard, rfl⟩ := List.mem_map.mp hk
      have hentry := c.wellFormed.registered ht _ (.inl hguard)
      exact ⟨lock, c.wellFormed.lockOf?_eq_some_iff.mpr hentry,
        c.wellFormed.head_of_guard ht _ hguard⟩
  cancelled := by
    intro task key ht hcancelled
    have he := Task.acquisition_eq_cancelled_iff.mp hcancelled
    have hkeys := keys_eq ht
    refine ⟨mem_distinctKeys.mp (hkeys ▸ mem_keys_of_cancelled ht he), fun k hk => ?_⟩
    have hending : ∀ e, task.ending? = some e → ∃ key, e = .cancelled key :=
      fun e he' => ⟨key, Option.some.inj (he'.symm.trans he)⟩
    rw [obtained_iff ht hending]
    simp [Task.obtained, he, hkeys, hk]
  emptied := by
    intro task key ht hs
    exact c.wellFormed.free_of_over ht hs
  spared := by
    intro mid a _ ha
    have hnext : (c.upTo (mid ++ [a])).registry = (c.upTo mid).registry.step a :=
      registry_next (c.upTo mid) a
    rw [hnext]
    exact (c.upTo mid).wellFormed.spares_step ha
  cleared := by
    intro task key ht hs k hk
    have hending : task.ending? ≠ some .abandoned := by simp [Task.ending?, hs]
    refine (minded_or_cleared ht hending hk).resolve_left ?_
    simp [Task.minded_of_over (orderly ht) hs]
  refused := refused_of_fired

/-- A task that has the first of its two keys waits for the other one when its token fires. It is
over then, and the registry has the one lock that is held. -/
example :
    let c : Course := ⟨[.begin ["vg1"] none, .advance 0, .advance 0, .advance 0],
      ["vg1", "vg0", "vg1"], some ⟨"stop"⟩, List.replicate 4 (.advance 1) ++ .fire ⟨"stop"⟩ ::
        List.replicate 5 (.advance 1)⟩
    c.task?.map Task.stage = some (.over (.cancelled "vg1")) ∧ c.registry.size = 1 ∧
      (c.upTo (List.replicate 4 (.advance 1))).task?.map Task.heldKeys = some ["vg0"] := by
  decide

end Course

end LvmControl.Lock
