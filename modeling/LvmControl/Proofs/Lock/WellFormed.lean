import LvmControl.Proofs.Lock.Change
import Mathlib.Data.List.Nodup

/-!
# What holds of every registry

The entries, the lines and the tasks of a registry say the same thing three times over. A task that
uses a lock is one that the registry has an entry for, and a task that has a lock or waits for it is
one that stands in its line. `Registry.WellFormed` states how the three fit together, and every
state that actions can lead to is well formed.

## Main definitions

* `Task.Progress`, `Task.Orderly`: how the keys that a task has and those it has still to get make
  up the keys it was asked for.
* `Registry.WellFormed`: how entries, lines and tasks fit together.

## Main statements

* `Registry.WellFormed.step`: an action keeps a registry well formed.
* `Registry.Reachable.wellFormed`: every state that actions lead to is well formed.

## Design notes

**One lemma for a task that moves.** Most changes give one task a new state and at most change the
line of one lock. `Registry.WellFormed.update` says once what such a change has to meet; each case
of `Registry.Change` then only says which line it changes and how.
-/

namespace LvmControl.Lock

/-! ## One task by itself -/

namespace Task

/-- What a task has and what it has still to get, at each stage. A task that gives everything back
is to prune every key that it still has. -/
def Progress (task : Task) : Prop :=
  match task.stage with
  | .choosing remaining => task.heldKeys ++ remaining = task.keys
  | .arrived key _ remaining => task.heldKeys ++ key :: remaining = task.keys
  | .queued key _ remaining => task.heldKeys ++ key :: remaining = task.keys
  | .complete => task.heldKeys = task.keys
  | .leaving _ stale => task.heldKeys.Sublist task.keys ∧ task.heldKeys ⊆ stale
  | .over _ => task.guards = []

/-- A task whose keys ascend and which has taken them in that order. -/
structure Orderly (task : Task) : Prop where
  ascending : task.keys.Pairwise (· < ·)
  progress : task.Progress

namespace Orderly

variable {task : Task}

/-- A task has only keys that it was asked for. -/
theorem heldKeys_sublist (h : task.Orderly) : task.heldKeys.Sublist task.keys := by
  have hp := h.progress
  unfold Progress at hp
  cases hs : task.stage with
  | choosing remaining =>
    simp only [hs] at hp
    exact hp ▸ List.sublist_append_left _ _
  | arrived key lock remaining =>
    simp only [hs] at hp
    exact hp ▸ List.sublist_append_left _ _
  | queued key lock remaining =>
    simp only [hs] at hp
    exact hp ▸ List.sublist_append_left _ _
  | complete =>
    simp only [hs] at hp
    exact hp ▸ List.Sublist.refl _
  | leaving ending stale =>
    simp only [hs] at hp
    exact hp.1
  | «over» ending =>
    simp only [hs] at hp
    simp [heldKeys, hp]

/-- A task has each key once. -/
theorem heldKeys_nodup (h : task.Orderly) : task.heldKeys.Nodup := by
  refine (h.ascending.sublist h.heldKeys_sublist).imp ?_
  rintro j k hlt rfl
  exact String.lt_irrefl _ hlt

/-- The keys that a task has are the first ones of its keys, and the next one follows. -/
theorem exists_keys_of_nextKey (h : task.Orderly) {key : Key} (hnext : task.nextKey? = some key) :
    ∃ rest, task.heldKeys ++ key :: rest = task.keys := by
  have hp := h.progress
  unfold Progress at hp
  cases hs : task.stage with
  | choosing remaining =>
    obtain ⟨rest, rfl⟩ : ∃ rest, remaining = key :: rest := by
      simpa [nextKey?, hs, List.head?_eq_some_iff] using hnext
    exact ⟨rest, by simpa [hs] using hp⟩
  | arrived key' lock remaining =>
    obtain rfl : key' = key := by simpa [nextKey?, hs] using hnext
    exact ⟨remaining, by simpa [hs] using hp⟩
  | queued key' lock remaining =>
    obtain rfl : key' = key := by simpa [nextKey?, hs] using hnext
    exact ⟨remaining, by simpa [hs] using hp⟩
  | _ => simp [nextKey?, hs] at hnext

/-- What a task has comes before what it has still to get. -/
theorem lt_of_nextKey (h : task.Orderly) {key : Key} (hnext : task.nextKey? = some key) :
    ∀ k ∈ task.heldKeys, k < key := by
  obtain ⟨rest, hkeys⟩ := h.exists_keys_of_nextKey hnext
  have hascending := h.ascending
  rw [← hkeys, List.pairwise_append] at hascending
  exact fun k hk => hascending.2.2 k hk key List.mem_cons_self

/-- A task is not after a key that it has. -/
theorem not_mem_of_pursuit (h : task.Orderly) {e : Key × LockId} (he : task.pursuit? = some e) :
    e.1 ∉ task.heldKeys :=
  fun hmem => String.lt_irrefl _ (h.lt_of_nextKey (nextKey?_of_pursuit he) _ hmem)

end Orderly

/-- A task that turns to giving everything back is orderly if it is to prune all that it has. -/
theorem Orderly.leave {task : Task} (h : task.Orderly) (ending : Ending) {stale : List Key}
    (hstale : task.heldKeys ⊆ stale) : (task.leave ending stale).Orderly :=
  ⟨h.ascending, h.heldKeys_sublist, hstale⟩

/-- A task that gets the lock it is after is orderly. -/
theorem Orderly.grant {task : Task} (h : task.Orderly) {key : Key} {lock : LockId}
    {remaining : List Key}
    (hs : task.stage = .arrived key lock remaining ∨ task.stage = .queued key lock remaining) :
    (task.grant key lock remaining).Orderly := by
  refine ⟨h.ascending, ?_⟩
  show (task.grant key lock remaining).heldKeys ++ remaining = task.keys
  have hprogress := h.progress
  rw [grant_heldKeys, List.append_assoc, List.singleton_append]
  rcases hs with hs | hs <;> simpa [Progress, hs] using hprogress

theorem usesFor_leave_iff {task : Task} {ending : Ending} {stale : List Key} {e : Key × LockId} :
    (task.leave ending stale).UsesFor e ↔ e ∈ task.guards := by
  simp [UsesFor, pursuit?]

theorem usesFor_grant_iff {task : Task} {key : Key} {lock : LockId} {remaining : List Key}
    {e : Key × LockId} :
    (task.grant key lock remaining).UsesFor e ↔ e ∈ task.guards ∨ e = (key, lock) := by
  simp [UsesFor, pursuit?]

/-- A task that leaves the line it waits in stands in the others as before. -/
theorem stands_leave_iff {task : Task} {key : Key} {lock : LockId} {remaining : List Key}
    (hs : task.stage = .queued key lock remaining) (hnot : lock ∉ task.guards.map Prod.snd)
    (ending : Ending) (stale : List Key) (l : LockId) :
    (task.leave ending stale).Stands l ↔ task.Stands l ∧ l ≠ lock := by
  have hawaited : task.awaited? = some lock := by simp [awaited?, hs]
  have hleft : (task.leave ending stale).awaited? = none := rfl
  simp only [Stands, leave_guards, hleft, hawaited, reduceCtorEq, or_false, Option.some.injEq]
  constructor
  · exact fun hl => ⟨.inl hl, fun heq => hnot (heq ▸ hl)⟩
  · rintro ⟨hl | hl, hne⟩
    · exact hl
    · exact absurd hl.symm hne

end Task

/-! ## Entries, lines and tasks -/

namespace Registry

/-- How the entries, the lines and the tasks of a registry fit together. -/
structure WellFormed (r : Registry) : Prop where
  /-- A key has one lock. -/
  keys_nodup : (r.entries.map Prod.fst).Nodup
  /-- A lock is the lock of one key. -/
  locks_nodup : (r.entries.map Prod.snd).Nodup
  locks_lt : ∀ e ∈ r.entries, e.2 < r.lines.length
  orderly : ∀ {t : TaskId} {task : Task}, r.tasks[t]? = some task → task.Orderly
  /-- What a task uses is the lock that the registry has for the key. -/
  registered : ∀ {t : TaskId} {task : Task}, r.tasks[t]? = some task →
    ∀ e, task.UsesFor e → e ∈ r.entries
  line_nodup : ∀ lock, (r.line lock).Nodup
  mem_line : ∀ lock t, t ∈ r.line lock ↔ ∃ task, r.tasks[t]? = some task ∧ task.Stands lock
  /-- Who has a lock is the head of its line. -/
  head_of_guard : ∀ {t : TaskId} {task : Task}, r.tasks[t]? = some task →
    ∀ e ∈ task.guards, (r.line e.2).head? = some t

/-- The empty registry is well formed. -/
theorem wellFormed_empty : WellFormed {} where
  keys_nodup := List.nodup_nil
  locks_nodup := List.nodup_nil
  locks_lt := by simp
  orderly := by simp
  registered := by simp
  line_nodup := by simp [line]
  mem_line := by simp [line]
  head_of_guard := by simp

/-- A key has no lock if and only if it has no entry. -/
theorem lockOf?_eq_none_iff {r : Registry} {k : Key} :
    r.lockOf? k = none ↔ k ∉ r.entries.map Prod.fst := by
  simp only [lockOf?, List.lookup_eq_none_iff, bne_iff_ne, ne_eq, List.mem_map, not_exists,
    not_and]
  constructor
  · exact fun h e he hek => h e he hek.symm
  · exact fun h e he hek => h e he hek.symm

/-- The lock of a key is in an entry. -/
theorem mem_entries_of_lockOf? {r : Registry} {k : Key} {l : LockId}
    (h : r.lockOf? k = some l) : (k, l) ∈ r.entries := by
  obtain ⟨before, after, hentries, -⟩ := List.lookup_eq_some_iff.mp h
  simp [hentries]

/-- Whoever is at the head of a line stays there when somebody else leaves. -/
theorem head?_erase_of_ne {line : List TaskId} {t u : TaskId} (hut : u ≠ t)
    (hu : line.head? = some u) : (line.erase t).head? = some u := by
  cases line with
  | nil => simp at hu
  | cons x rest =>
    have hx : x = u := by simpa using hu
    subst hx
    simp [hut]

namespace WellFormed

variable {r : Registry}

/-- A key has one lock. -/
theorem lock_unique (h : r.WellFormed) {k : Key} {l m : LockId} (hl : (k, l) ∈ r.entries)
    (hm : (k, m) ∈ r.entries) : l = m :=
  congrArg Prod.snd (List.inj_on_of_nodup_map h.keys_nodup hl hm rfl)

/-- A lock is the lock of one key. -/
theorem key_unique (h : r.WellFormed) {j k : Key} {l : LockId} (hj : (j, l) ∈ r.entries)
    (hk : (k, l) ∈ r.entries) : j = k :=
  congrArg Prod.fst (List.inj_on_of_nodup_map h.locks_nodup hj hk rfl)

/-- The lock of a key is that of its entry. -/
theorem lockOf?_eq_some_iff (h : r.WellFormed) {k : Key} {l : LockId} :
    r.lockOf? k = some l ↔ (k, l) ∈ r.entries := by
  refine ⟨mem_entries_of_lockOf?, fun hmem => ?_⟩
  cases hl : r.lockOf? k with
  | none => exact absurd (List.mem_map_of_mem (f := Prod.fst) hmem) (lockOf?_eq_none_iff.mp hl)
  | some m => rw [h.lock_unique (mem_entries_of_lockOf? hl) hmem]

/-- A task waits for no lock that it has. -/
theorem not_mem_guards_of_pursuit (h : r.WellFormed) {t : TaskId} {task : Task}
    (ht : r.tasks[t]? = some task) {e : Key × LockId} (he : task.pursuit? = some e) :
    e.2 ∉ task.guards.map Prod.snd := by
  intro hmem
  obtain ⟨⟨k, l⟩, hg, rfl⟩ := List.mem_map.mp hmem
  have hk := h.registered ht _ (.inl hg)
  have hkey : k = e.1 := h.key_unique hk (h.registered ht _ (.inr he))
  exact (h.orderly ht).not_mem_of_pursuit he (hkey ▸ List.mem_map_of_mem (f := Prod.fst) hg)

/-- A task has each of its locks once. -/
theorem nodup_guard_locks (h : r.WellFormed) {t : TaskId} {task : Task}
    (ht : r.tasks[t]? = some task) : (task.guards.map Prod.snd).Nodup := by
  -- Its keys are distinct, and two locks of it are the same only if their keys are.
  refine (List.Nodup.of_map Prod.fst (h.orderly ht).heldKeys_nodup).map_on ?_
  intro e he f hf hlock
  have hkey : e.1 = f.1 :=
    h.key_unique (h.registered ht e (.inl he)) (hlock ▸ h.registered ht f (.inl hf))
  exact Prod.ext hkey hlock

/-- **A task that moves.** It may change the lines as long as they still hold those who stand in
them and nobody else loses the head of one. -/
theorem update (h : r.WellFormed) {r' : Registry} {t : TaskId} {old new : Task}
    (ht : r.tasks[t]? = some old) (hentries : r'.entries = r.entries)
    (hlines : r'.lines.length = r.lines.length) (htasks : r'.tasks = r.tasks.set t new)
    (horderly : new.Orderly) (hregistered : ∀ e, new.UsesFor e → e ∈ r.entries)
    (hnodup : ∀ l, (r'.line l).Nodup)
    (hmem : ∀ l u, u ∈ r'.line l ↔ if u = t then new.Stands l else u ∈ r.line l)
    (hhead : ∀ l u, u ≠ t → (r.line l).head? = some u → (r'.line l).head? = some u)
    (hguard : ∀ e ∈ new.guards, (r'.line e.2).head? = some t) : r'.WellFormed where
  keys_nodup := hentries ▸ h.keys_nodup
  locks_nodup := hentries ▸ h.locks_nodup
  locks_lt := fun e he => hlines ▸ h.locks_lt e (hentries ▸ he)
  orderly := by
    intro u task hu
    rw [htasks, getElem?_set_of_some ht] at hu
    by_cases hut : u = t
    · simp only [hut, if_true, Option.some.injEq] at hu
      exact hu ▸ horderly
    · simp only [hut, if_false] at hu
      exact h.orderly hu
  registered := by
    intro u task hu e he
    rw [htasks, getElem?_set_of_some ht] at hu
    rw [hentries]
    by_cases hut : u = t
    · simp only [hut, if_true, Option.some.injEq] at hu
      exact hregistered e (hu ▸ he)
    · simp only [hut, if_false] at hu
      exact h.registered hu e he
  line_nodup := hnodup
  mem_line := by
    intro l u
    rw [hmem, htasks, getElem?_set_of_some ht]
    by_cases hut : u = t
    · simp [hut]
    · simp [hut, h.mem_line]
  head_of_guard := by
    intro u task hu e he
    rw [htasks, getElem?_set_of_some ht] at hu
    by_cases hut : u = t
    · simp only [hut, if_true, Option.some.injEq] at hu
      exact hut ▸ hguard e (hu ▸ he)
    · simp only [hut, if_false] at hu
      exact hhead e.2 u hut (h.head_of_guard hu e he)

/-- A task in a line is known by its state. -/
theorem mem_line_iff (h : r.WellFormed) {t : TaskId} {task : Task} (ht : r.tasks[t]? = some task)
    (l : LockId) : t ∈ r.line l ↔ task.Stands l := by
  rw [h.mem_line, ht]
  simp

/-- A task moves without leaving or joining a line. -/
theorem setTask (h : r.WellFormed) {t : TaskId} {old new : Task} (ht : r.tasks[t]? = some old)
    (horderly : new.Orderly) (hregistered : ∀ e, new.UsesFor e → e ∈ r.entries)
    (hstands : ∀ l, new.Stands l ↔ old.Stands l)
    (hguard : ∀ e ∈ new.guards, e ∈ old.guards ∨ (r.line e.2).head? = some t) :
    (r.setTask t new).WellFormed := by
  refine h.update ht rfl rfl rfl horderly hregistered h.line_nodup ?_ ?_ ?_
  · intro l u
    by_cases hut : u = t
    · simp [hut, hstands, h.mem_line_iff ht]
    · simp [hut]
  · exact fun l u _ hu => hu
  · intro e he
    rcases hguard e he with hold | hhead
    · exact h.head_of_guard ht e hold
    · exact hhead

/-- A task moves to the end of a line in which it did not stand. -/
theorem joinLine (h : r.WellFormed) {t : TaskId} {old new : Task} {lock : LockId}
    (ht : r.tasks[t]? = some old) (hlock : lock < r.lines.length) (hout : ¬ old.Stands lock)
    (horderly : new.Orderly) (hregistered : ∀ e, new.UsesFor e → e ∈ r.entries)
    (hstands : ∀ l, new.Stands l ↔ old.Stands l ∨ l = lock)
    (hguard : ∀ e ∈ new.guards, e ∈ old.guards ∨ e.2 = lock ∧ r.line lock = []) :
    ((r.joinLine t lock).setTask t new).WellFormed := by
  have hline := r.line_joinLine (t := t) hlock
  refine h.update ht rfl (by simp) rfl horderly hregistered ?_ ?_ ?_ ?_
  · intro l
    rw [line_setTask, hline]
    split
    · rename_i hl
      subst hl
      have hnot : t ∉ r.line l := by rwa [h.mem_line_iff ht]
      exact (h.line_nodup l).append (List.nodup_singleton t)
        (by simpa [List.disjoint_singleton] using hnot)
    · exact h.line_nodup l
  · intro l u
    rw [line_setTask, hline]
    by_cases hut : u = t
    · subst hut
      by_cases hl : l = lock
      · simp [hl, hstands]
      · simp [hl, hstands, h.mem_line_iff ht]
    · by_cases hl : l = lock <;> simp [hl, hut]
  · intro l u _ hu
    rw [line_setTask, hline]
    split
    · simp [List.head?_append, hu]
    · exact hu
  · intro e he
    rw [line_setTask, hline]
    rcases hguard e he with hold | ⟨hl, hempty⟩
    · have hhead := h.head_of_guard ht e hold
      split
      · simp [List.head?_append, hhead]
      · exact hhead
    · simp [hl, hempty]

/-- A task moves out of a line. -/
theorem leaveLine (h : r.WellFormed) {t : TaskId} {old new : Task} {lock : LockId}
    (ht : r.tasks[t]? = some old) (horderly : new.Orderly)
    (hregistered : ∀ e, new.UsesFor e → e ∈ r.entries)
    (hstands : ∀ l, new.Stands l ↔ old.Stands l ∧ l ≠ lock)
    (hguard : ∀ e ∈ new.guards, e ∈ old.guards) :
    ((r.leaveLine t lock).setTask t new).WellFormed := by
  have hline := r.line_leaveLine t lock
  refine h.update ht rfl (by simp) rfl horderly hregistered ?_ ?_ ?_ ?_
  · intro l
    rw [line_setTask, hline]
    split
    · exact (h.line_nodup l).erase t
    · exact h.line_nodup l
  · intro l u
    rw [line_setTask, hline]
    by_cases hut : u = t
    · subst hut
      by_cases hl : l = lock
      · simp [hl, hstands, (h.line_nodup lock).mem_erase_iff]
      · simp [hl, hstands, h.mem_line_iff ht]
    · by_cases hl : l = lock <;> simp [hl, hut, List.mem_erase_of_ne]
  · intro l u hut hu
    rw [line_setTask, hline]
    split
    · exact head?_erase_of_ne hut hu
    · exact hu
  · intro e he
    have hne : e.2 ≠ lock :=
      ((hstands e.2).mp (.inl (List.mem_map_of_mem (f := Prod.snd) he))).2
    rw [line_setTask, hline, if_neg hne]
    exact h.head_of_guard ht e (hguard e he)

/-- A lock is made for a key that has none. -/
theorem addLock (h : r.WellFormed) {key : Key} (hkey : r.lockOf? key = none) :
    (r.addLock key).WellFormed where
  keys_nodup := by
    rw [entries_addLock, List.map_append]
    exact h.keys_nodup.append (List.nodup_singleton key)
      (by simpa [List.disjoint_singleton] using lockOf?_eq_none_iff.mp hkey)
  locks_nodup := by
    rw [entries_addLock, List.map_append]
    refine h.locks_nodup.append (List.nodup_singleton _) ?_
    simp only [List.map_cons, List.map_nil, List.disjoint_singleton, List.mem_map, not_exists,
      not_and]
    exact fun e he => Nat.ne_of_lt (h.locks_lt e he)
  locks_lt := by
    intro e he
    rw [length_lines_addLock]
    rcases List.mem_append.mp he with he | he
    · exact Nat.lt_succ_of_lt (h.locks_lt e he)
    · simp [List.mem_singleton.mp he]
  orderly := h.orderly
  registered := fun ht e he => List.mem_append_left _ (h.registered ht e he)
  line_nodup := by simpa using h.line_nodup
  mem_line := by simpa using h.mem_line
  head_of_guard := fun ht e he => by simpa using h.head_of_guard ht e he

/-- Only the entry of a lock that no task uses is forgotten. -/
theorem mem_entries_prune (h : r.WellFormed) {key : Key} {e : Key × LockId} :
    e ∈ (r.prune key).entries ↔
      e ∈ r.entries ∧ (e.1 = key → r.isUsed e.2 = true) := by
  unfold Registry.prune
  cases hl : r.lockOf? key with
  | none =>
    have hnone := lockOf?_eq_none_iff.mp hl
    constructor
    · exact fun he => ⟨he, fun hek => absurd (hek ▸ List.mem_map_of_mem (f := Prod.fst) he) hnone⟩
    · exact And.left
  | some lock =>
    have hlock := mem_entries_of_lockOf? hl
    have hsame : ∀ e ∈ r.entries, e.1 = key → e.2 = lock :=
      fun e he hek => h.lock_unique (k := key) (hek ▸ he) hlock
    by_cases hu : r.isUsed lock = true
    · simp only [hu, if_true]
      exact ⟨fun he => ⟨he, fun hek => by rwa [hsame e he hek]⟩, And.left⟩
    · simp only [hu, Bool.false_eq_true, if_false, List.mem_filter, ne_eq, decide_not,
        Bool.not_eq_eq_eq_not, Bool.not_true, decide_eq_false_iff_not]
      constructor
      · exact fun he => ⟨he.1, fun hek => absurd hek he.2⟩
      · exact fun he => ⟨he.1, fun hek => hu (hsame e he.1 hek ▸ he.2 hek)⟩

/-- A task that uses a lock is found by the search for users. -/
theorem isUsed_of_usesFor {t : TaskId} {task : Task} (ht : r.tasks[t]? = some task)
    {e : Key × LockId} (he : task.UsesFor e) : r.isUsed e.2 = true :=
  List.any_eq_true.mpr
    ⟨task, List.mem_of_getElem? ht, Task.uses_iff.mpr ⟨e.1, he⟩⟩

/-- A key is pruned. -/
theorem prune (h : r.WellFormed) (key : Key) : (r.prune key).WellFormed := by
  have hsub : (r.prune key).entries.Sublist r.entries := by
    unfold Registry.prune
    split
    · exact List.Sublist.refl _
    · split
      · exact List.Sublist.refl _
      · exact List.filter_sublist
  exact
    { keys_nodup := h.keys_nodup.sublist (hsub.map Prod.fst)
      locks_nodup := h.locks_nodup.sublist (hsub.map Prod.snd)
      locks_lt := fun e he => by
        rw [lines_prune]
        exact h.locks_lt e (hsub.subset he)
      orderly := fun ht => h.orderly (by simpa using ht)
      registered := by
        intro t task ht e he
        rw [tasks_prune] at ht
        exact h.mem_entries_prune.mpr
          ⟨h.registered ht e he, fun _ => isUsed_of_usesFor ht he⟩
      line_nodup := by simpa using h.line_nodup
      mem_line := by simpa using h.mem_line
      head_of_guard := fun ht e he => by
        rw [tasks_prune] at ht
        simpa using h.head_of_guard ht e he }

/-- A task is added. It uses no lock yet. -/
theorem begin (h : r.WellFormed) (keys : List Key) (token : Option Token) :
    (r.begin keys token).WellFormed := by
  have hold : ∀ {u : TaskId} {task : Task}, r.tasks[u]? = some task →
      (r.begin keys token).tasks[u]? = some task := fun hu => getElem?_concat_of_some hu _
  exact
    { keys_nodup := h.keys_nodup
      locks_nodup := h.locks_nodup
      locks_lt := h.locks_lt
      orderly := by
        intro u task hu
        rcases getElem?_begin hu with hu | ⟨-, rfl⟩
        · exact h.orderly hu
        · exact ⟨pairwise_distinctKeys keys, by simp [Task.Progress, Task.heldKeys]⟩
      registered := by
        intro u task hu e he
        rcases getElem?_begin hu with hu | ⟨-, rfl⟩
        · exact h.registered hu e he
        · simp [Task.UsesFor, Task.pursuit?] at he
      line_nodup := h.line_nodup
      mem_line := by
        intro l u
        refine (h.mem_line l u).trans ⟨?_, ?_⟩
        · rintro ⟨task, hu, hstands⟩
          exact ⟨task, hold hu, hstands⟩
        · rintro ⟨task, hu, hstands⟩
          rcases getElem?_begin hu with hu | ⟨-, rfl⟩
          · exact ⟨task, hu, hstands⟩
          · simp [Task.Stands, Task.awaited?] at hstands
      head_of_guard := by
        intro u task hu e he
        rcases getElem?_begin hu with hu | ⟨-, rfl⟩
        · exact h.head_of_guard hu e he
        · simp at he }

/-- The lock that a task waits for or has is one that exists. -/
theorem lock_lt (h : r.WellFormed) {t : TaskId} {task : Task} (ht : r.tasks[t]? = some task)
    {e : Key × LockId} (he : task.UsesFor e) : e.2 < r.lines.length :=
  h.locks_lt e (h.registered ht e he)

/-- **Preservation.** An action keeps a registry well formed. -/
theorem step (h : r.WellFormed) (a : RegistryAction) : (r.step a).WellFormed := by
  have hchange := r.step_change a
  generalize r.step a = r' at hchange
  cases hchange with
  | nothing a => exact h
  | begun keys token => exact h.begin keys token
  | fired token => exact ⟨h.1, h.2, h.3, h.4, h.5, h.6, h.7, h.8⟩
  | completed ht hs =>
    have ho := h.orderly ht
    refine h.setTask ht ⟨ho.ascending, ?_⟩ ?_ ?_ (fun e he => .inl he)
    · simpa [Task.Progress, hs, Task.heldKeys] using ho.progress
    · exact fun e he => h.registered ht e (by simpa [Task.UsesFor, Task.pursuit?, hs] using he)
    · simp [Task.Stands, Task.awaited?, hs]
  | found ht hs hl =>
    have ho := h.orderly ht
    refine h.setTask ht ⟨ho.ascending, ?_⟩ ?_ ?_ (fun e he => .inl he)
    · simpa [Task.Progress, hs, Task.heldKeys] using ho.progress
    · rintro e (he | he)
      · exact h.registered ht e (.inl he)
      · exact Option.some.inj he ▸ mem_entries_of_lockOf? hl
    · simp [Task.Stands, Task.awaited?, hs]
  | made ht hs hl =>
    -- First the lock is made, which no task uses yet, and then the task turns to it.
    have ho := h.orderly ht
    refine (h.addLock hl).setTask ht ⟨ho.ascending, ?_⟩ ?_ ?_ (fun e he => .inl he)
    · simpa [Task.Progress, hs, Task.heldKeys] using ho.progress
    · rintro e (he | he)
      · exact List.mem_append_left _ (h.registered ht e (.inl he))
      · simp [← Option.some.inj he]
    · simp [Task.Stands, Task.awaited?, hs]
  | refused ht hs hc =>
    have ho := h.orderly ht
    refine h.setTask ht (ho.leave _ (by simp)) ?_ ?_ (fun e he => .inl he)
    · exact fun e he => h.registered ht e (.inl (Task.usesFor_leave_iff.mp he))
    · simp [Task.Stands, Task.awaited?, hs]
  | taken ht hs hc hl =>
    rename_i t task key lock remaining
    have huses : task.UsesFor (key, lock) := .inr (Task.pursuit?_of_arrived hs)
    -- The line is empty, so the task is its head as soon as it has joined it.
    refine h.joinLine ht (h.lock_lt ht huses) ?_ ((h.orderly ht).grant (.inl hs)) ?_ ?_ ?_
    · rw [← h.mem_line_iff ht, hl]
      simp
    · intro e he
      rcases Task.usesFor_grant_iff.mp he with he | rfl
      · exact h.registered ht e (.inl he)
      · exact h.registered ht _ huses
    · simp [Task.Stands, Task.awaited?, hs]
    · intro e he
      rcases List.mem_append.mp he with he | he
      · exact .inl he
      · simp [List.mem_singleton.mp he, hl]
  | lined ht hs hc hl =>
    rename_i t task key lock remaining
    have ho := h.orderly ht
    have hpursuit := Task.pursuit?_of_arrived hs
    refine h.joinLine ht (h.lock_lt ht (.inr hpursuit)) ?_ ⟨ho.ascending, ?_⟩ ?_ ?_
      (fun e he => .inl he)
    · rintro (hin | hin)
      · exact h.not_mem_guards_of_pursuit ht hpursuit hin
      · simp [Task.awaited?, hs] at hin
    · simpa [Task.Progress, hs, Task.heldKeys] using ho.progress
    · exact fun e he => h.registered ht e (by simpa [Task.UsesFor, Task.pursuit?, hs] using he)
    · simp [Task.Stands, Task.awaited?, hs, eq_comm]
  | withdrawn ht hs hc =>
    have ho := h.orderly ht
    -- It stands in the line only to wait, so it keeps all the locks that it has.
    have hnot := h.not_mem_guards_of_pursuit ht (Task.pursuit?_of_queued hs)
    refine h.leaveLine ht (ho.leave _ (by simp)) ?_ (Task.stands_leave_iff hs hnot _ _)
      (fun e he => he)
    exact fun e he => h.registered ht e (.inl (Task.usesFor_leave_iff.mp he))
  | noticed ht hs hc hl =>
    rename_i t task key lock remaining
    refine h.setTask ht ((h.orderly ht).grant (.inr hs)) ?_ ?_ ?_
    · intro e he
      rcases Task.usesFor_grant_iff.mp he with he | rfl
      · exact h.registered ht e (.inl he)
      · exact h.registered ht _ (.inr (Task.pursuit?_of_queued hs))
    · simp [Task.Stands, Task.awaited?, hs, eq_comm]
    · intro e he
      rcases List.mem_append.mp he with he | he
      · exact .inl he
      · exact .inr (by simp [List.mem_singleton.mp he, hl])
  | returned ht hs hg =>
    rename_i t task ending stale key lock guards
    have ho := h.orderly ht
    have hheld : task.heldKeys = key :: guards.map Prod.fst := by simp [Task.heldKeys, hg]
    have hlocks := h.nodup_guard_locks ht
    rw [hg, List.map_cons, List.nodup_cons] at hlocks
    have hprogress : task.heldKeys.Sublist task.keys ∧ task.heldKeys ⊆ stale := by
      simpa [Task.Progress, hs] using ho.progress
    rw [hheld] at hprogress
    refine h.leaveLine ht ⟨ho.ascending, ?_⟩ ?_ ?_ ?_
    · have hsub := (List.sublist_cons_self key (guards.map Prod.fst)).trans hprogress.1
      simpa [Task.Progress, hs, Task.heldKeys] using
        And.intro hsub (List.subset_of_cons_subset hprogress.2)
    · intro e he
      refine h.registered ht e ?_
      rcases he with he | he
      · exact .inl (hg ▸ List.mem_cons_of_mem _ he)
      · simp [Task.pursuit?, hs] at he
    · intro l
      simp only [Task.Stands, Task.awaited?, hs, reduceCtorEq, or_false, hg, List.map_cons,
        List.mem_cons]
      constructor
      · exact fun hl => ⟨.inr hl, fun heq => hlocks.1 (heq ▸ hl)⟩
      · exact fun hl => hl.1.resolve_left hl.2
    · exact fun e he => hg ▸ List.mem_cons_of_mem _ he
  | pruned ht hs hg =>
    -- Pruning leaves alone what is used, and the task itself uses nothing any more.
    rename_i t task ending key rest
    have ho := h.orderly ht
    have ht' : (r.prune key).tasks[t]? = some task := by rwa [tasks_prune]
    refine (h.prune key).setTask ht' ⟨ho.ascending, ?_⟩ ?_ ?_ (fun e he => .inl he)
    · simp [Task.Progress, Task.heldKeys, hg]
    · simp [Task.UsesFor, Task.pursuit?, hg]
    · simp [Task.Stands, Task.awaited?, hs]
  | ended ht hs hg =>
    refine h.setTask ht ⟨(h.orderly ht).ascending, ?_⟩ ?_ ?_ (fun e he => .inl he)
    · simpa [Task.Progress] using hg
    · simp [Task.UsesFor, Task.pursuit?, hg]
    · simp [Task.Stands, Task.awaited?, hs]
  | finished ht hs =>
    have ho := h.orderly ht
    refine h.setTask ht (ho.leave _ (List.Subset.refl _)) ?_ ?_ (fun e he => .inl he)
    · exact fun e he => h.registered ht e (.inl (Task.usesFor_leave_iff.mp he))
    · simp [Task.Stands, Task.awaited?, hs]
  | abandoned ht hs =>
    have ho := h.orderly ht
    refine h.setTask ht (ho.leave _ (List.Subset.refl _)) ?_ ?_ (fun e he => .inl he)
    · exact fun e he => h.registered ht e (.inl (Task.usesFor_leave_iff.mp he))
    · rcases hs with hs | ⟨remaining, hs⟩ | ⟨key, lock, remaining, hs⟩ <;>
        simp [Task.Stands, Task.awaited?, hs]
  | deserted ht hs =>
    have ho := h.orderly ht
    have hnot := h.not_mem_guards_of_pursuit ht (Task.pursuit?_of_queued hs)
    refine h.leaveLine ht (ho.leave _ (List.Subset.refl _)) ?_ (Task.stands_leave_iff hs hnot _ _)
      (fun e he => he)
    exact fun e he => h.registered ht e (.inl (Task.usesFor_leave_iff.mp he))

/-- Actions in order keep a registry well formed. -/
theorem run (h : r.WellFormed) (actions : List RegistryAction) : (r.run actions).WellFormed := by
  induction actions generalizing r with
  | nil => exact h
  | cons a as ih => exact ih (h.step a)

end WellFormed

/-- Every state that actions lead to is well formed. -/
theorem Reachable.wellFormed {r : Registry} (h : r.Reachable) : r.WellFormed := by
  obtain ⟨actions, rfl⟩ := h
  exact wellFormed_empty.run actions

/-- An action leads from a reachable state to a reachable one. -/
theorem Reachable.step {r : Registry} (h : r.Reachable) (a : RegistryAction) :
    (r.step a).Reachable := by
  obtain ⟨actions, rfl⟩ := h
  exact ⟨actions ++ [a], by simp [run_append]⟩

end Registry

end LvmControl.Lock
