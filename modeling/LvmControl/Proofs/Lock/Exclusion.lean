import LvmControl.Proofs.Lock.Flights

/-!
# Mutual exclusion

Calls that change the same thing are never with the client at the same time. Locks are made when a
task looks for one and forgotten when nobody uses them, and both happen while other tasks are half
way through acquiring or giving back, so the danger is a second lock for a key whose first one is
still held or waited for. It does not arise: what a task uses is always the lock that the registry
has for the key.

## Main definitions

* `Registry.Exclusive`: tasks that are after the same key are after the same lock, and one of them
  at most has it.
* `Traffic.Exclusive`: the same for calls with the client.

## Main statements

* `Traffic.exclusive_run`: both hold whatever happens.
-/

namespace LvmControl.Lock

namespace Registry

/-- No key has two locks that matter, and no lock has two holders. -/
structure Exclusive (r : Registry) : Prop where
  /-- Two tasks that have the lock of a key, wait for it or are about to ask for it mean the same
  lock, which is the one that the registry has for the key. -/
  one_lock : ∀ {t u : TaskId} {task other : Task} {key : Key} {l m : LockId},
    r.tasks[t]? = some task → r.tasks[u]? = some other → task.UsesFor (key, l) →
      other.UsesFor (key, m) → l = m ∧ r.lockOf? key = some l
  one_holder : ∀ {t u : TaskId} {task other : Task} {key : Key},
    r.tasks[t]? = some task → r.tasks[u]? = some other → key ∈ task.heldKeys →
      key ∈ other.heldKeys → t = u

/-- What is well formed is exclusive. -/
theorem WellFormed.exclusive {r : Registry} (h : r.WellFormed) : r.Exclusive where
  one_lock := by
    intro t u task other key l m ht hu hl hm
    have hentry := h.registered ht _ hl
    exact ⟨h.lock_unique hentry (h.registered hu _ hm), h.lockOf?_eq_some_iff.mpr hentry⟩
  one_holder := by
    intro t u task other key ht hu hkey hkey'
    obtain ⟨⟨k, l⟩, hl, rfl⟩ := List.mem_map.mp hkey
    obtain ⟨⟨j, m⟩, hm, rfl⟩ := List.mem_map.mp hkey'
    obtain rfl : l = m :=
      h.lock_unique (h.registered ht _ (.inl hl)) (h.registered hu _ (.inl hm))
    -- Both are at the head of the line of that lock.
    have hhead := h.head_of_guard ht _ hl
    rw [h.head_of_guard hu _ hm] at hhead
    exact (Option.some.inj hhead).symm

end Registry

namespace Traffic

/-- No two calls that change the same thing are with the client, and the registry is exclusive. -/
structure Exclusive (s : Traffic) : Prop where
  disjoint_inside : ∀ {f g : FlightId} {a b : Flight} {t u : Option TaskId} {ks ls : List Key},
    f ≠ g → s.flights[f]? = some a → s.flights[g]? = some b → a.stage = .inside t →
      b.stage = .inside u → a.call.keys? = some ks → b.call.keys? = some ls → ks.Disjoint ls
  registry : s.registry.Exclusive

/-- What is sound is exclusive. -/
theorem Sound.exclusive {s : Traffic} (h : s.Sound) : s.Exclusive where
  registry := h.registry.wellFormed.exclusive
  disjoint_inside := by
    intro f g a b t u ks ls hfg hf hg ha hb hks hls key hkey hkey'
    obtain ⟨t, task, rfl, ht, hheld⟩ := h.exists_holder hf ha hks
    obtain ⟨u, other, rfl, hu, hheld'⟩ := h.exists_holder hg hb hls
    have hkey : key ∈ task.heldKeys := by rwa [hheld, mem_distinctKeys]
    have hkey' : key ∈ other.heldKeys := by rwa [hheld', mem_distinctKeys]
    obtain rfl : t = u := h.registry.wellFormed.exclusive.one_holder ht hu hkey hkey'
    have htask : a.task? = some t := by simp [Flight.task?, ha]
    exact hfg (h.apart hf hg htask (by simp [Flight.task?, hb]))

/-- **Mutual exclusion.** Whatever calls are made and whatever happens in whatever order, no two
calls that change the same thing are with the client at the same time, and no key has two locks that
are held, waited for or about to be asked for. -/
theorem exclusive_run (actions : List TrafficAction) : (Traffic.run {} actions).Exclusive :=
  (sound_run actions).exclusive

/-- The call that removes the group which its context gives. -/
def removal (group : VolumeGroupName) : Call :=
  ⟨.run .vgremove, { defaultGroup := some group }, .empty .vgremove⟩

/-- The call of the number is made, gets its one lock by the task of the same number and goes to the
client. -/
def entrance (n : Nat) (call : Call) : List TrafficAction :=
  .call call :: List.replicate 3 (.registry (.advance n)) ++ [.proceed n]

/-- The group that a caller means. -/
def callerGroup : VolumeGroupName := ⟨"vg1", by decide⟩

/-- A group that the caller does not mean. -/
def otherGroup : VolumeGroupName := ⟨"vg0", by decide⟩

/-- Calls that remove different groups are with the client together. -/
example :
    (Traffic.run {} (entrance 0 (removal callerGroup) ++ entrance 1 (removal otherGroup))).flights =
      [⟨removal callerGroup, .inside (some 0)⟩, ⟨removal otherGroup, .inside (some 1)⟩] :=
  rfl

end Traffic

end LvmControl.Lock
