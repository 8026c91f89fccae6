import LvmControl.Proofs.Lock.Exclusion
import LvmControl.Proofs.Lock.FiredTokens
import LvmControl.Proofs.Lock.Undisturbed

/-!
# Acquisitions while nothing else happens

A registry in which every task has all its keys does nothing by itself. A task that is added to it
acquires its keys one after another. It gets all of them, unless another task has one of them; that
task will not give it back, so the new one waits for it for ever.

## Main definitions

* `Course.Solitary`: only the task itself takes steps.
* `Course.Blocked`: the task waits in a line of which another one is the head.
* `Registry.Idle`: every task has all its keys, and together they have the given ones.

## Main statements

* `Course.Solitary.paced_or_blocked`: a solitary task keeps pace until it is blocked.
* `Registry.Idle.acquire_cases`: an acquisition gets all its keys or waits for one that is held.
-/

namespace LvmControl.Lock

namespace Course

variable {c d : Course} {a : RegistryAction} {task : Task}

/-- Since the task was added only the task itself has taken steps. -/
def Solitary (c : Course) : Prop := ∀ a ∈ c.since, a = .advance c.id

theorem Solitary.of_next (h : (d.next a).Solitary) : d.Solitary ∧ a = .advance d.id :=
  ⟨fun b hb => h b (List.mem_append_left _ hb), h a (List.mem_append_right _ List.mem_cons_self)⟩

/-- The others are as they were. -/
theorem Solitary.others (h : c.Solitary) {u : TaskId} (hu : u ≠ c.id) :
    c.registry.tasks[u]? = (Registry.run {} c.before).tasks[u]? := by
  induction c using inductionOn with
  | opening =>
    rw [registry_opening]
    rcases Nat.lt_or_gt_of_ne hu with hlt | hgt
    · exact List.getElem?_append_left hlt
    · have hlast : (Registry.run {} c.before).tasks.length + 1 ≤ u := hgt
      exact (List.getElem?_eq_none (by simpa [Registry.begin] using hlast)).trans
        (List.getElem?_eq_none (Nat.le_of_lt hgt)).symm
  | next d a ih =>
    obtain ⟨hsolitary, rfl⟩ := h.of_next
    rw [registry_next]
    exact ((d.registry.step_change _).getElem?_of_ne (.inl rfl) hu).trans (ih hsolitary hu)

/-- No token fires. -/
theorem Solitary.fired (h : c.Solitary) : c.registry.fired = (Registry.run {} c.before).fired := by
  induction c using inductionOn with
  | opening => rw [registry_opening]; rfl
  | next d a ih =>
    obtain ⟨hsolitary, rfl⟩ := h.of_next
    rw [registry_next]
    exact ((d.registry.step_change _).fired_eq (.inl rfl)).trans (ih hsolitary)

/-- A solitary task whose token has not fired is not cancelled. -/
theorem Solitary.isCancelled (h : c.Solitary)
    (hunfired : c.token.any (Registry.run {} c.before).fired.contains = false)
    (ht : c.task? = some task) : task.isCancelled c.registry.fired = false := by
  rw [Task.isCancelled, token_eq ht, h.fired, hunfired]

/-- A solitary task whose token has not fired gives nothing back. -/
theorem Solitary.ending? (h : c.Solitary)
    (hunfired : c.token.any (Registry.run {} c.before).fired.contains = false)
    (ht : c.task? = some task) : task.ending? = none := by
  induction c using inductionOn generalizing task with
  | opening => exact Option.some.inj (c.task?_opening.symm.trans ht) ▸ rfl
  | next d a ih =>
    obtain ⟨hsolitary, rfl⟩ := h.of_next
    obtain ⟨old, hold, -⟩ := d.exists_task
    rcases task?_next hold (.advance d.id) with hsame | ⟨new, hnew, hmove⟩
    · exact Option.some.inj (hsame.symm.trans ht) ▸ ih hsolitary hunfired hold
    · obtain rfl := Option.some.inj (hnew.symm.trans ht)
      have hnone := ih hsolitary hunfired hold
      rcases hmove.ending_of_advance with hsame | ⟨key, hcancelled⟩
      · exact hsame.trans hnone
      · rcases hmove.of_ending hcancelled with hbefore | hfired
        · cases hnone.symm.trans hbefore
        · rw [hsolitary.isCancelled hunfired hold] at hfired
          cases hfired

/-- The task waits in a line of which another one is the head. -/
def Blocked (c : Course) (task : Task) : Prop :=
  ∃ key lock remaining u, task.stage = .queued key lock remaining ∧ u ≠ c.id ∧
    (c.registry.line lock).head? = some u

/-- **One turn.** A task that keeps pace goes on keeping pace, or comes to stand behind another
one. -/
theorem paced_or_blocked_next (ht : d.task? = some task) (hpaced : task.Paced d.turns)
    (hc : task.isCancelled d.registry.fired = false) :
    ∃ new, (d.next (.advance d.id)).task? = some new ∧
      (new.Paced (d.turns + 1) ∨ (d.next (.advance d.id)).Blocked new) := by
  have hawaited := hpaced.awaited?
  by_cases hfree : ∀ e, task.pursuit? = some e → d.registry.line e.2 = []
  · obtain ⟨new, hnew, honward⟩ := Registry.exists_onward ht hawaited hfree (.inl rfl)
    refine ⟨new, (d.task?_next_eq _).trans hnew, .inl (Task.paced_unnumbered.mp ?_)⟩
    rw [honward]
    have hnext := (Task.paced_unnumbered.mpr hpaced).onward (task.isCancelled d.registry.fired)
      (.inl rfl : RegistryAction.IsOf d.id (.advance d.id))
    rwa [List.count_singleton_self] at hnext
  · -- Somebody is in the line for the key that the task is about to ask for.
    simp only [not_forall] at hfree
    obtain ⟨⟨key, lock⟩, hpursuit, hline⟩ := hfree
    obtain ⟨remaining, hs⟩ : ∃ remaining, task.stage = .arrived key lock remaining := by
      cases hs : task.stage with
      | arrived k l remaining => simpa [Task.pursuit?, hs] using hpursuit
      | queued k l remaining => simp [Task.awaited?, hs] at hawaited
      | _ => simp [Task.pursuit?, hs] at hpursuit
    have hout := d.wellFormed.not_mem_line_of_pursuit ht hawaited hpursuit
    have hlock := d.wellFormed.lock_lt ht (.inr hpursuit)
    have ht' : d.registry.tasks[d.id]? = some task := ht
    have hstep : d.registry.step (.advance d.id) = (d.registry.joinLine d.id lock).setTask d.id
        { task with stage := .queued key lock remaining } := by
      simp [Registry.step, Registry.advance, Registry.request, ht', hs, hc, hline]
    refine ⟨{ task with stage := .queued key lock remaining }, ?_, .inr ?_⟩
    · rw [task?_next_eq, hstep]
      simp [getElem?_set_of_some ht']
    · cases hhead : d.registry.line lock with
      | nil => exact absurd hhead hline
      | cons u others =>
        refine ⟨key, lock, remaining, u, rfl, fun hu => hout (hhead ▸ hu ▸ List.mem_cons_self), ?_⟩
        rw [registry_next, hstep, Registry.line_setTask, d.registry.line_joinLine hlock, hhead]
        simp

/-- Behind another task a task stays. -/
theorem Blocked.next (h : d.Blocked task) (ht : d.task? = some task)
    (hc : task.isCancelled d.registry.fired = false) :
    (d.next (.advance d.id)).task? = some task ∧ (d.next (.advance d.id)).Blocked task := by
  obtain ⟨key, lock, remaining, u, hs, hu, hhead⟩ := h
  have ht' : d.registry.tasks[d.id]? = some task := ht
  have hbehind : ¬ u = d.id := hu
  have hsame : (d.next (.advance d.id)).registry = d.registry := by
    rw [registry_next]
    simp [Registry.step, Registry.advance, ht', hs, hc, hhead, hbehind]
  refine ⟨?_, key, lock, remaining, u, hs, hu, hsame ▸ hhead⟩
  exact (congrArg (fun r : Registry => r.tasks[d.id]?) hsame).trans ht

/-- **By itself.** A solitary task whose token has not fired keeps pace until it stands behind
another one. -/
theorem Solitary.paced_or_blocked (h : c.Solitary)
    (hunfired : c.token.any (Registry.run {} c.before).fired.contains = false) :
    ∃ task, c.task? = some task ∧ (task.Paced c.turns ∨ c.Blocked task) := by
  induction c using inductionOn with
  | opening => exact ⟨_, c.task?_opening, .inl (by simp [Task.Paced, turns, upTo])⟩
  | next d a ih =>
    obtain ⟨hsolitary, rfl⟩ := h.of_next
    obtain ⟨task, ht, hpaced | hblocked⟩ := ih hsolitary hunfired
    · rw [turns_next, List.count_singleton_self]
      exact paced_or_blocked_next ht hpaced (hsolitary.isCancelled hunfired ht)
    · obtain ⟨hsame, hstays⟩ := hblocked.next ht (hsolitary.isCancelled hunfired ht)
      exact ⟨task, hsame, .inr hstays⟩

end Course

namespace Registry

/-- Every task has all its keys, and together they have the given ones. -/
structure Idle (r : Registry) (fired : List Token) (held : List Key) : Prop where
  reachable : r.Reachable
  fired : r.fired = fired
  complete : ∀ task ∈ r.tasks, task.stage = .complete
  mem_held : ∀ key, key ∈ held ↔ ∃ task ∈ r.tasks, key ∈ task.heldKeys

end Registry

namespace Course.Solitary

variable {c : Course} {task other : Task} {u : TaskId} {fired : List Token} {held : List Key}

theorem mem_of_ne (h : c.Solitary) (hu : u ≠ c.id) (ho : c.registry.tasks[u]? = some other) :
    other ∈ (Registry.run {} c.before).tasks :=
  List.mem_of_getElem? ((h.others hu).symm.trans ho)

theorem exists_ne (h : c.Solitary) (hmem : other ∈ (Registry.run {} c.before).tasks) :
    ∃ u, u ≠ c.id ∧ c.registry.tasks[u]? = some other := by
  obtain ⟨u, hu⟩ := List.mem_iff_getElem?.mp hmem
  have hne : u ≠ c.id := Nat.ne_of_lt (List.getElem?_eq_some_iff.mp hu).1
  exact ⟨u, hne, (h.others hne).trans hu⟩

/-- A task that has got all its keys is one more that has, and had them from nobody. -/
theorem idle (h : c.Solitary) (hidle : (Registry.run {} c.before).Idle fired held)
    (ht : c.task? = some task) (hs : task.stage = .complete) :
    c.registry.Idle fired (held ++ c.keys) ∧ held.Disjoint c.keys := by
  have hkeys : ∀ key, key ∈ c.keys ↔ key ∈ task.heldKeys := by
    have hprogress := (orderly ht).progress
    rw [Task.Progress, hs, keys_eq ht] at hprogress
    simp [hprogress]
  refine ⟨⟨⟨_, rfl⟩, h.fired.trans hidle.fired, fun other hmem => ?_, fun key => ?_⟩,
    fun key hheld hmine => ?_⟩
  · obtain ⟨u, hu⟩ := List.mem_iff_getElem?.mp hmem
    by_cases hne : u = c.id
    · subst hne
      exact Option.some.inj (ht.symm.trans hu) ▸ hs
    · exact hidle.complete other (h.mem_of_ne hne hu)
  · rw [List.mem_append, hidle.mem_held]
    constructor
    · rintro (⟨other, hmem, hkey⟩ | hkey)
      · obtain ⟨u, -, hu⟩ := h.exists_ne hmem
        exact ⟨other, List.mem_of_getElem? hu, hkey⟩
      · exact ⟨task, List.mem_of_getElem? ht, (hkeys key).mp hkey⟩
    · rintro ⟨other, hmem, hkey⟩
      obtain ⟨u, hu⟩ := List.mem_iff_getElem?.mp hmem
      by_cases hne : u = c.id
      · subst hne
        obtain rfl := Option.some.inj (ht.symm.trans hu)
        exact .inr ((hkeys key).mpr hkey)
      · exact .inl ⟨other, h.mem_of_ne hne hu, hkey⟩
  · obtain ⟨other, hmem, hkey⟩ := (hidle.mem_held key).mp hheld
    obtain ⟨u, hne, hu⟩ := h.exists_ne hmem
    exact hne (c.wellFormed.exclusive.one_holder hu ht hkey ((hkeys key).mp hmine))

/-- Who is in front of a solitary task has the key that the task waits for. -/
theorem held_of_blocked (h : c.Solitary) (hidle : (Registry.run {} c.before).Idle fired held)
    (ht : c.task? = some task) (hblocked : c.Blocked task) :
    ∃ key, task.acquisition = .unfinished (some key) ∧ key ∈ held ∧ key ∈ c.keys := by
  obtain ⟨key, lock, remaining, u, hs, hne, hhead⟩ := hblocked
  have hwf := c.wellFormed
  obtain ⟨other, hu, hstands⟩ := (hwf.mem_line lock u).mp (List.mem_of_head? hhead)
  have hmem := h.mem_of_ne hne hu
  have hguard : lock ∈ other.guards.map Prod.snd :=
    hstands.resolve_right (by simp [Task.awaited?, hidle.complete other hmem])
  obtain ⟨⟨k, l⟩, hg, rfl⟩ := List.mem_map.mp hguard
  have hpursuit := Task.pursuit?_of_queued hs
  obtain rfl : k = key :=
    hwf.key_unique (hwf.registered hu _ (.inl hg)) (hwf.registered ht _ (.inr hpursuit))
  obtain ⟨rest, hkeys⟩ := (orderly ht).exists_keys_of_nextKey (Task.nextKey?_of_pursuit hpursuit)
  refine ⟨k, by simp [Task.acquisition, hs], (hidle.mem_held k).mpr ?_, ?_⟩
  · exact ⟨other, hmem, List.mem_map_of_mem (f := Prod.fst) hg⟩
  · rw [← mem_distinctKeys, ← keys_eq ht, ← hkeys]
    simp

end Course.Solitary

namespace Registry

/-- **An acquisition while nothing else happens.** Where every task has all its keys, another one
whose token has not fired gets all its keys too if none of them is held, and else it waits for one
that is held. -/
theorem Idle.acquire_cases {r : Registry} {fired : List Token} {held : List Key}
    (h : r.Idle fired held) {token : Option Token} (hunfired : token.any fired.contains = false)
    (keys : List Key) :
    (∃ r', r.acquire keys token = (r', .acquired (distinctKeys keys)) ∧
      r'.Idle fired (held ++ keys) ∧ held.Disjoint keys) ∨
    ∃ r' key, r.acquire keys token = (r', .unfinished (some key)) ∧ key ∈ held ∧ key ∈ keys := by
  obtain ⟨actions, rfl⟩ := h.reachable
  let c := Course.byItself actions keys token
  have hsolitary : c.Solitary := fun a ha => List.eq_of_mem_replicate ha
  have hturns : c.turns = 4 * (distinctKeys keys).length + 4 := List.count_replicate_self
  rw [← h.fired] at hunfired
  rw [acquire_run]
  obtain ⟨task, ht, hpaced | hblocked⟩ := hsolitary.paced_or_blocked hunfired
  · -- After all these turns a task that has kept pace is complete.
    have hkeys : task.keys = distinctKeys keys := Course.keys_eq ht
    obtain ⟨-, hcomplete⟩ :=
      hpaced.heldKeys_eq (Course.orderly ht) (hsolitary.ending? hunfired ht)
    have hs : task.stage = .complete := by
      rw [hcomplete, hturns, hkeys]
      omega
    have hheld : task.heldKeys = distinctKeys keys := by
      have hprogress := (Course.orderly ht).progress
      rwa [Task.Progress, hs, hkeys] at hprogress
    obtain ⟨hidle, hdisjoint⟩ := hsolitary.idle h ht hs
    refine .inl ⟨c.registry, ?_, hidle, hdisjoint⟩
    rw [ht, Option.map_some, Option.getD_some,
      Task.acquisition_eq_acquired_iff.mpr ⟨hs, hheld⟩]
  · obtain ⟨key, hunfinished, hheld, hmine⟩ := hsolitary.held_of_blocked h ht hblocked
    refine .inr ⟨c.registry, key, ?_, hheld, hmine⟩
    rw [ht, Option.map_some, Option.getD_some, hunfinished]

end Registry

end LvmControl.Lock
