import LvmControl.Proofs.Lock.WellFormed
import Mathlib.Data.List.Basic
import Mathlib.Data.List.Infix

/-!
# Which keys a registry remembers

A registry makes a lock for a key when a task looks for one, and forgets it when a task prunes the
key and no task uses it. A task prunes the keys that it gives back, and the key that it was
cancelled at. A task that is given up does not prune the key that it was after: it counts on whoever
has the lock to do that later. Where nobody has it, because the lock has just been handed over or
the task has only found it, the key stays in the registry with nobody to remove it.

## Main definitions

* `Task.claimed`, `Task.stale`: the keys that a task uses, and those it has still to prune.
* `Registry.Lingers`: a key has a lock that no task uses and no task is going to prune.
* `Registry.Forsakes`: giving a task up would leave its next key to nobody.
* `Orphaned`: a key was left to nobody in the course of some actions, and nobody has used it since.

## Main statements

* `Registry.lingers_step_iff`: how a key comes to linger, and when it stops to.
* `Registry.lingers_run_iff`: the keys that linger are the orphaned ones.
* `Registry.entries_of_quiet`: while no task gives anything back, the keys in a registry are those
  in use and the orphaned ones.

## Design notes

**Minding a key.** A key in use will be pruned by whoever uses it, and a stale key by whoever has it
among its stale ones. Taken together these tasks *mind* the key, and an action changes this in four
ways only: not at all, or it adds one key, or the key that is pruned or left to others is no longer
minded by one task.
-/

namespace LvmControl.Lock

namespace Task

/-- The keys that a task has, and the one that it waits for or is about to ask for. -/
def claimed (task : Task) : List Key := task.heldKeys ++ (task.pursuit?.map Prod.fst).toList

/-- The keys that a task has still to prune. -/
def stale (task : Task) : List Key :=
  match task.stage with
  | .leaving _ stale => stale
  | _ => []

/-- The keys that a task is going to prune, now or later. -/
def minded (task : Task) : List Key := task.claimed ++ task.stale

/-- A task that is after a key minds what it has and this key. -/
theorem mem_minded_of_pursuit {task : Task} {key : Key} {lock : LockId}
    (h : task.pursuit? = some (key, lock)) {k : Key} :
    k ∈ task.minded ↔ k ∈ task.heldKeys ∨ k = key := by
  have hstale : task.stale = [] := by cases hs : task.stage <;> simp_all [pursuit?, stale]
  simp [minded, claimed, h, hstale]

/-- A task that gives everything back minds what it has and what it is to prune. -/
theorem mem_minded_of_leaving {task : Task} {ending : Ending} {stale : List Key}
    (hs : task.stage = .leaving ending stale) {k : Key} :
    k ∈ task.minded ↔ k ∈ task.heldKeys ∨ k ∈ stale := by
  simp [minded, claimed, pursuit?, Task.stale, hs]

/-- A task that is after no key and gives nothing back minds what it has. -/
theorem minded_of_settled {task : Task} (hpursuit : task.pursuit? = none)
    (hstale : task.stale = []) : task.minded = task.heldKeys := by
  simp [minded, claimed, hpursuit, hstale]

theorem minded_of_choosing {task : Task} {remaining : List Key}
    (hs : task.stage = .choosing remaining) : task.minded = task.heldKeys :=
  minded_of_settled (by simp [pursuit?, hs]) (by simp [stale, hs])

theorem minded_of_complete {task : Task} (hs : task.stage = .complete) :
    task.minded = task.heldKeys :=
  minded_of_settled (by simp [pursuit?, hs]) (by simp [stale, hs])

/-- A task that is cancelled is going to prune what it was after. -/
theorem mem_minded_leave_cancelled {task : Task} {key : Key} {lock : LockId}
    (h : task.pursuit? = some (key, lock)) (ending : Ending) {k : Key} :
    k ∈ (task.leave ending (task.heldKeys ++ [key])).minded ↔ k ∈ task.minded :=
  calc k ∈ (task.leave ending (task.heldKeys ++ [key])).minded
    _ ↔ k ∈ task.heldKeys ∨ k ∈ task.heldKeys ++ [key] := mem_minded_of_leaving rfl
    _ ↔ k ∈ task.heldKeys ∨ k = key := by simp
    _ ↔ k ∈ task.minded := (mem_minded_of_pursuit h).symm

/-- A task that gets a lock minds what it minded before. -/
theorem mem_minded_grant {task : Task} {key : Key} {lock : LockId}
    (h : task.pursuit? = some (key, lock)) (remaining : List Key) {k : Key} :
    k ∈ (task.grant key lock remaining).minded ↔ k ∈ task.minded := by
  rw [minded_of_choosing (grant_stage task key lock remaining), grant_heldKeys,
    mem_minded_of_pursuit h, List.mem_append, List.mem_singleton]

/-- A task that gives everything back is going to prune what it has. -/
theorem mem_minded_leave {task : Task} (ending : Ending) {k : Key} :
    k ∈ (task.leave ending task.heldKeys).minded ↔ k ∈ task.heldKeys :=
  (mem_minded_of_leaving rfl).trans or_self_iff

/-- What a task claims, it uses. -/
theorem exists_usesFor_of_mem_claimed {task : Task} {key : Key} (h : key ∈ task.claimed) :
    ∃ lock, task.UsesFor (key, lock) := by
  rcases List.mem_append.mp h with hheld | hpursued
  · obtain ⟨⟨k, lock⟩, hguard, rfl⟩ := List.mem_map.mp hheld
    exact ⟨lock, .inl hguard⟩
  · obtain ⟨⟨k, lock⟩, hpursuit, rfl⟩ : ∃ e, task.pursuit? = some e ∧ e.1 = key := by
      simpa using hpursued
    exact ⟨lock, .inr hpursuit⟩

/-- A task uses only what it claims. -/
theorem UsesFor.mem_claimed {task : Task} {key : Key} {lock : LockId}
    (h : task.UsesFor (key, lock)) : key ∈ task.claimed := by
  rcases h with hguard | hpursuit
  · exact List.mem_append_left _ (List.mem_map_of_mem (f := Prod.fst) hguard)
  · simp [claimed, hpursuit]

end Task

namespace Registry

/-- A key has a lock. -/
def HasEntry (r : Registry) (key : Key) : Prop := key ∈ r.entries.map Prod.fst

/-- A task has the lock of a key, waits for it or is about to ask for it. -/
def InUse (r : Registry) (key : Key) : Prop := ∃ task ∈ r.tasks, key ∈ task.claimed

/-- A task is going to prune a key, now or later. -/
def Minded (r : Registry) (key : Key) : Prop := ∃ task ∈ r.tasks, key ∈ task.minded

/-- A task other than the one of the number has the lock of a key, waits for it or is about to ask
for it. -/
def UsedByOthers (r : Registry) (t : TaskId) (key : Key) : Prop :=
  ∃ u other, u ≠ t ∧ r.tasks[u]? = some other ∧ key ∈ other.claimed

/-- A task other than the one of the number is going to prune a key. -/
def MindedByOthers (r : Registry) (t : TaskId) (key : Key) : Prop :=
  ∃ u other, u ≠ t ∧ r.tasks[u]? = some other ∧ key ∈ other.minded

/-- A key has a lock that no task uses and no task is going to prune. -/
def Lingers (r : Registry) (key : Key) : Prop := r.HasEntry key ∧ ¬ r.Minded key

/-- The task waits for the key or is about to ask for it, and giving the task up would leave the key
to nobody. -/
def Forsakes (r : Registry) (t : TaskId) (key : Key) : Prop :=
  (∃ task lock, r.tasks[t]? = some task ∧ task.pursuit? = some (key, lock)) ∧
    ¬ r.MindedByOthers t key

variable {r r' : Registry}

/-- What is in use is minded. -/
theorem InUse.minded {key : Key} (h : r.InUse key) : r.Minded key :=
  h.imp fun _ hmem => ⟨hmem.1, List.mem_append_left _ hmem.2⟩

theorem UsedByOthers.mindedByOthers {t : TaskId} {key : Key} (h : r.UsedByOthers t key) :
    r.MindedByOthers t key := by
  obtain ⟨u, other, hut, hu, hkey⟩ := h
  exact ⟨u, other, hut, hu, List.mem_append_left _ hkey⟩

/-- Who minds a key, seen from one of the tasks. -/
theorem minded_iff {t : TaskId} {task : Task} (ht : r.tasks[t]? = some task) {key : Key} :
    r.Minded key ↔ key ∈ task.minded ∨ r.MindedByOthers t key := by
  constructor
  · rintro ⟨other, hmem, hkey⟩
    obtain ⟨u, hu⟩ := List.mem_iff_getElem?.mp hmem
    by_cases hut : u = t
    · subst hut
      obtain rfl : task = other := Option.some.inj (ht.symm.trans hu)
      exact .inl hkey
    · exact .inr ⟨u, other, hut, hu, hkey⟩
  · rintro (hkey | ⟨u, other, -, hu, hkey⟩)
    · exact ⟨task, List.mem_of_getElem? ht, hkey⟩
    · exact ⟨other, List.mem_of_getElem? hu, hkey⟩

/-- Who minds a key after one of the tasks has moved. -/
theorem minded_set_iff {t : TaskId} {old new : Task} (ht : r.tasks[t]? = some old)
    (htasks : r'.tasks = r.tasks.set t new) {key : Key} :
    r'.Minded key ↔ key ∈ new.minded ∨ r.MindedByOthers t key := by
  have hget := getElem?_set_of_some ht new
  have ht' : r'.tasks[t]? = some new := by rw [htasks, hget, if_pos rfl]
  refine (minded_iff ht').trans (or_congr_right ?_)
  constructor
  · rintro ⟨u, other, hut, hu, hkey⟩
    rw [htasks, hget, if_neg hut] at hu
    exact ⟨u, other, hut, hu, hkey⟩
  · rintro ⟨u, other, hut, hu, hkey⟩
    exact ⟨u, other, hut, by rw [htasks, hget, if_neg hut, hu], hkey⟩

/-- A task that moves and minds the keys that it minded before changes nothing. -/
theorem minded_congr {t : TaskId} {old new : Task} (ht : r.tasks[t]? = some old)
    (htasks : r'.tasks = r.tasks.set t new) (hsame : ∀ k, k ∈ new.minded ↔ k ∈ old.minded)
    (key : Key) : r'.Minded key ↔ r.Minded key := by
  rw [minded_set_iff ht htasks, minded_iff ht, hsame]

/-- What an action does to who minds which key. -/
inductive Shift (r : Registry) (a : RegistryAction) (r' : Registry) : Prop
  | kept (hentries : r'.entries = r.entries) (hminded : ∀ k, r'.Minded k ↔ r.Minded k)
  /-- A task turns to its next key, and makes a lock for it if there is none. -/
  | claimed (key : Key) (hentries : ∀ k, r'.HasEntry k ↔ r.HasEntry k ∨ k = key)
      (hminded : ∀ k, r'.Minded k ↔ r.Minded k ∨ k = key) (huse : r'.InUse key)
  /-- A task prunes a key. -/
  | pruned (key : Key) (hentries : ∀ k, k ≠ key → (r'.HasEntry k ↔ r.HasEntry k))
      (hminded : ∀ k, r.Minded k ↔ r'.Minded k ∨ k = key)
      (hkept : r'.HasEntry key → r'.Minded key)
  /-- A task is given up that was after a key. -/
  | left (t : TaskId) (key : Key) (ha : a = .abandon t) (hentries : r'.entries = r.entries)
      (hminded : ∀ k, r.Minded k ↔ r'.Minded k ∨ k = key)
      (hlast : ¬ r'.Minded key → r.Forsakes t key)

/-- A task that moves and minds what it minded before shifts nothing. -/
theorem Shift.of_same {a : RegistryAction} {t : TaskId} {old new : Task}
    (ht : r.tasks[t]? = some old) (hentries : r'.entries = r.entries)
    (htasks : r'.tasks = r.tasks.set t new) (hsame : ∀ k, k ∈ new.minded ↔ k ∈ old.minded) :
    r.Shift a r' :=
  .kept hentries (minded_congr ht htasks hsame)

/-- A task that turns to a key claims it. -/
theorem Shift.of_claim {a : RegistryAction} {t : TaskId} {old new : Task} {key : Key}
    (ht : r.tasks[t]? = some old) (hentries : ∀ k, r'.HasEntry k ↔ r.HasEntry k ∨ k = key)
    (htasks : r'.tasks = r.tasks.set t new)
    (hmore : ∀ k, k ∈ new.minded ↔ k ∈ old.minded ∨ k = key) (hclaimed : key ∈ new.claimed) :
    r.Shift a r' := by
  refine .claimed key hentries (fun k => ?_) ?_
  · rw [minded_set_iff ht htasks, minded_iff ht, hmore, or_right_comm]
  · have ht' : r'.tasks[t]? = some new := by
      rw [htasks, getElem?_set_of_some ht, if_pos rfl]
    exact ⟨new, List.mem_of_getElem? ht', hclaimed⟩

/-- A task that is given up leaves the key that it was after to others. -/
theorem Shift.of_abandon {t : TaskId} {task : Task} {key : Key} {lock : LockId}
    (ht : r.tasks[t]? = some task) (hpursuit : task.pursuit? = some (key, lock))
    (hentries : r'.entries = r.entries)
    (htasks : r'.tasks = r.tasks.set t (task.leave .abandoned task.heldKeys)) :
    r.Shift (.abandon t) r' := by
  have hminded : ∀ k, k ∈ task.minded ↔
      k ∈ (task.leave .abandoned task.heldKeys).minded ∨ k = key := by
    intro k
    rw [Task.mem_minded_of_pursuit hpursuit, Task.mem_minded_leave]
  refine .left t key rfl hentries (fun k => ?_) fun hnot => ⟨⟨task, lock, ht, hpursuit⟩, ?_⟩
  · rw [minded_set_iff ht htasks, minded_iff ht, hminded, or_right_comm]
  · exact fun hothers => hnot ((minded_set_iff ht htasks).mpr (.inr hothers))

/-- A key that is still there after it has been pruned is in use. -/
theorem WellFormed.usedByOthers_of_hasEntry_prune (h : r.WellFormed) {t : TaskId} {task : Task}
    {key : Key} (ht : r.tasks[t]? = some task) (hclaimed : task.claimed = [])
    (hentry : (r.prune key).HasEntry key) : r.UsedByOthers t key := by
  obtain ⟨⟨k, lock⟩, hmem, rfl⟩ := List.mem_map.mp hentry
  obtain ⟨hmem, hused⟩ := h.mem_entries_prune.mp hmem
  obtain ⟨other, hother, huses⟩ := List.any_eq_true.mp (hused rfl)
  obtain ⟨key', huses⟩ := Task.uses_iff.mp huses
  obtain ⟨u, hu⟩ := List.mem_iff_getElem?.mp hother
  obtain rfl : key' = k := h.key_unique (h.registered hu _ huses) hmem
  refine ⟨u, other, ?_, hu, huses.mem_claimed⟩
  rintro rfl
  obtain rfl : other = task := Option.some.inj (hu.symm.trans ht)
  simpa [hclaimed] using huses.mem_claimed

/-- Every action shifts who minds which key in one of the four ways. -/
theorem WellFormed.shift_step (h : r.WellFormed) (a : RegistryAction) : r.Shift a (r.step a) := by
  have hchange := r.step_change a
  generalize r.step a = r' at hchange
  cases hchange with
  | nothing a => exact .kept rfl fun _ => Iff.rfl
  | begun keys token =>
    refine .kept rfl fun k => ?_
    simp [Minded, Registry.begin, or_and_right, exists_or, Task.minded, Task.claimed, Task.heldKeys,
      Task.pursuit?, Task.stale]
  | fired token => exact .kept rfl fun _ => Iff.rfl
  | completed ht hs =>
    refine .of_same ht rfl rfl fun k => ?_
    rw [Task.minded_of_choosing hs, Task.minded_of_complete rfl]
    rfl
  | found ht hs hl =>
    rename_i t task key lock remaining
    have hclaimed : key ∈ ({ task with stage := .arrived key lock remaining } : Task).claimed := by
      simp [Task.claimed, Task.pursuit?]
    refine .of_claim ht (fun k => ?_) rfl (fun k => ?_) hclaimed
    · refine ⟨.inl, Or.rec id ?_⟩
      rintro rfl
      exact List.mem_map_of_mem (f := Prod.fst) (mem_entries_of_lockOf? hl)
    · rw [Task.minded_of_choosing hs]
      exact Task.mem_minded_of_pursuit rfl
  | made ht hs hl =>
    rename_i t task key remaining
    have hclaimed : key ∈
        ({ task with stage := .arrived key r.lines.length remaining } : Task).claimed := by
      simp [Task.claimed, Task.pursuit?]
    refine .of_claim ht (fun k => ?_) rfl (fun k => ?_) hclaimed
    · simp [HasEntry, or_comm]
    · rw [Task.minded_of_choosing hs]
      exact Task.mem_minded_of_pursuit rfl
  | refused ht hs hc =>
    exact .of_same ht rfl rfl fun _ =>
      Task.mem_minded_leave_cancelled (Task.pursuit?_of_arrived hs) _
  | taken ht hs hc hl =>
    exact .of_same ht rfl rfl fun _ => Task.mem_minded_grant (Task.pursuit?_of_arrived hs) _
  | lined ht hs hc hl =>
    exact .of_same ht rfl rfl fun _ => (Task.mem_minded_of_pursuit rfl).trans
      (Task.mem_minded_of_pursuit (Task.pursuit?_of_arrived hs)).symm
  | withdrawn ht hs hc =>
    exact .of_same ht rfl rfl fun _ =>
      Task.mem_minded_leave_cancelled (Task.pursuit?_of_queued hs) _
  | noticed ht hs hc hl =>
    exact .of_same ht rfl rfl fun _ => Task.mem_minded_grant (Task.pursuit?_of_queued hs) _
  | returned ht hs hg =>
    rename_i t task ending stale key lock guards
    -- The key that is no longer held is among the stale ones.
    have hprogress := (h.orderly ht).progress
    simp only [Task.Progress, hs, Task.heldKeys, hg, List.map_cons] at hprogress
    have hkey : key ∈ stale := hprogress.2 List.mem_cons_self
    have hs' : ({ task with guards := guards } : Task).stage = .leaving ending stale := hs
    have hnew : ∀ k, k ∈ ({ task with guards := guards } : Task).minded ↔
        k ∈ guards.map Prod.fst ∨ k ∈ stale := fun k => Task.mem_minded_of_leaving hs'
    refine .of_same ht rfl rfl fun k => ?_
    rw [hnew, Task.mem_minded_of_leaving hs, Task.heldKeys, hg, List.map_cons, List.mem_cons]
    constructor
    · exact Or.imp_left .inr
    · rintro ((rfl | hheld) | hstale)
      · exact .inr hkey
      · exact .inl hheld
      · exact .inr hstale
  | pruned ht hs hg =>
    rename_i t task ending key rest
    have htasks : ((r.prune key).setTask t (task.leave ending rest)).tasks =
        r.tasks.set t (task.leave ending rest) := by simp
    refine .pruned key (fun k hk => ?_) (fun k => ?_) fun hentry => ?_
    · simp only [HasEntry, entries_setTask, List.mem_map, h.mem_entries_prune]
      refine exists_congr fun e => and_congr_left fun hek => and_iff_left ?_
      exact fun heq => absurd (hek.symm.trans heq) hk
    · rw [minded_set_iff ht htasks, minded_iff ht, Task.mem_minded_of_leaving hs,
        Task.mem_minded_of_leaving (Task.leave_stage task ending rest), Task.leave_heldKeys,
        List.mem_cons]
      tauto
    · have hclaimed : task.claimed = [] := by
        simp [Task.claimed, Task.heldKeys, hg, Task.pursuit?, hs]
      have hused := h.usedByOthers_of_hasEntry_prune ht hclaimed hentry
      exact (minded_set_iff ht htasks).mpr (.inr hused.mindedByOthers)
  | ended ht hs hg =>
    refine .of_same ht rfl rfl fun k => ?_
    simp [Task.minded, Task.claimed, Task.heldKeys, Task.pursuit?, Task.stale, hs, hg]
  | finished ht hs =>
    refine .of_same ht rfl rfl fun k => (Task.mem_minded_leave _).trans ?_
    rw [Task.minded_of_complete hs]
  | abandoned ht hs =>
    rename_i t task
    cases hpursuit : task.pursuit? with
    | some e => exact .of_abandon ht hpursuit rfl rfl
    | none =>
      have hstale : task.stale = [] := by
        rcases hs with hs | ⟨remaining, hs⟩ | ⟨key, lock, remaining, hs⟩ <;> simp [Task.stale, hs]
      refine .of_same ht rfl rfl fun k => (Task.mem_minded_leave _).trans ?_
      rw [Task.minded_of_settled hpursuit hstale]
  | deserted ht hs => exact .of_abandon ht (Task.pursuit?_of_queued hs) rfl rfl

/-! ## How a key comes to linger -/

/-- A key comes to linger only by being forsaken. -/
theorem WellFormed.forsakes_of_lingers_step (h : r.WellFormed) {a : RegistryAction} {key : Key}
    (hkey : (r.step a).Lingers key) :
    (∃ t, a = .abandon t ∧ r.Forsakes t key) ∨ r.Lingers key := by
  obtain ⟨hentry, hnot⟩ := hkey
  cases h.shift_step a with
  | kept hentries hminded =>
    exact .inr ⟨by rwa [HasEntry, hentries] at hentry, fun hm => hnot ((hminded key).mpr hm)⟩
  | claimed k hentries hminded huse =>
    have hold := (hentries key).mp hentry
    refine .inr ⟨hold.resolve_right ?_, fun hm => hnot ((hminded key).mpr (.inl hm))⟩
    exact fun heq => hnot ((hminded key).mpr (.inr heq))
  | pruned k hentries hminded hkept =>
    have hne : key ≠ k := by
      rintro rfl
      exact hnot (hkept hentry)
    exact .inr ⟨(hentries key hne).mp hentry,
      fun hm => hnot (((hminded key).mp hm).resolve_right hne)⟩
  | left t k ha hentries hminded hlast =>
    by_cases hk : key = k
    · subst hk
      exact .inl ⟨t, ha, hlast hnot⟩
    · exact .inr ⟨by rwa [HasEntry, hentries] at hentry,
        fun hm => hnot (((hminded key).mp hm).resolve_right hk)⟩

/-- A key that lingers does so until a task uses it. -/
theorem WellFormed.lingers_or_inUse_step (h : r.WellFormed) (a : RegistryAction) {key : Key}
    (hkey : r.Lingers key) : (r.step a).Lingers key ∨ (r.step a).InUse key := by
  obtain ⟨hentry, hnot⟩ := hkey
  cases h.shift_step a with
  | kept hentries hminded =>
    exact .inl ⟨by rwa [HasEntry, hentries], fun hm => hnot ((hminded key).mp hm)⟩
  | claimed k hentries hminded huse =>
    by_cases hk : key = k
    · exact .inr (hk ▸ huse)
    · exact .inl ⟨(hentries key).mpr (.inl hentry),
        fun hm => hnot (((hminded key).mp hm).resolve_right hk)⟩
  | pruned k hentries hminded hkept =>
    have hne : key ≠ k := fun heq => hnot ((hminded key).mpr (.inr heq))
    exact .inl ⟨(hentries key hne).mpr hentry, fun hm => hnot ((hminded key).mpr (.inl hm))⟩
  | left t k ha hentries hminded hlast =>
    exact .inl ⟨by rwa [HasEntry, hentries], fun hm => hnot ((hminded key).mpr (.inl hm))⟩

/-- A key that is forsaken lingers. -/
theorem WellFormed.lingers_of_forsakes (h : r.WellFormed) {t : TaskId} {key : Key}
    (hkey : r.Forsakes t key) : (r.step (.abandon t)).Lingers key := by
  obtain ⟨⟨task, lock, ht, hpursuit⟩, hothers⟩ := hkey
  have hentry : r.HasEntry key :=
    List.mem_map_of_mem (f := Prod.fst) (h.registered ht _ (.inr hpursuit))
  have hnew : key ∉ (task.leave .abandoned task.heldKeys).minded := by
    rw [Task.mem_minded_leave]
    exact (h.orderly ht).not_mem_of_pursuit hpursuit
  have habandon : (r.step (.abandon t)).entries = r.entries ∧
      (r.step (.abandon t)).tasks = r.tasks.set t (task.leave .abandoned task.heldKeys) := by
    cases hs : task.stage <;> simp_all [Registry.step, Registry.abandon, Task.pursuit?]
  refine ⟨by rwa [HasEntry, habandon.1], fun hminded => ?_⟩
  rcases (minded_set_iff ht habandon.2).mp hminded with hmem | hmem
  · exact hnew hmem
  · exact hothers hmem

/-- **One step.** A key lingers after an action if the action forsakes it, or if it lingered before
and no task has turned to it. -/
theorem WellFormed.lingers_step_iff (h : r.WellFormed) (a : RegistryAction) (key : Key) :
    (r.step a).Lingers key ↔
      ((∃ t, a = .abandon t ∧ r.Forsakes t key) ∨ r.Lingers key) ∧ ¬ (r.step a).InUse key := by
  constructor
  · exact fun hkey => ⟨h.forsakes_of_lingers_step hkey, fun huse => hkey.2 huse.minded⟩
  · rintro ⟨⟨t, rfl, hforsakes⟩ | hlingers, hunused⟩
    · exact h.lingers_of_forsakes hforsakes
    · exact (h.lingers_or_inUse_step a hlingers).resolve_right hunused

end Registry

/-- In the course of the actions a key was left to nobody, and no task has used it since. -/
def Orphaned (actions : List RegistryAction) (key : Key) : Prop :=
  ∃ before t after, actions = before ++ .abandon t :: after ∧
    (Registry.run {} before).Forsakes t key ∧
    ∀ mid, mid <+: after → ¬ (Registry.run {} (before ++ .abandon t :: mid)).InUse key

/-- A key is orphaned after one more action if the action forsakes it, or if it was orphaned before,
and no task uses it now. -/
theorem orphaned_concat_iff (actions : List RegistryAction) (a : RegistryAction) (key : Key) :
    Orphaned (actions ++ [a]) key ↔
      ((∃ t, a = .abandon t ∧ (Registry.run {} actions).Forsakes t key) ∨ Orphaned actions key) ∧
        ¬ (Registry.run {} (actions ++ [a])).InUse key := by
  constructor
  · rintro ⟨before, t, after, hsplit, hforsakes, hunused⟩
    refine ⟨?_, hsplit ▸ hunused after (List.prefix_refl after)⟩
    rcases List.eq_nil_or_concat after with rfl | ⟨rest, b, rfl⟩
    · obtain ⟨rfl, hlast⟩ := List.append_inj' hsplit rfl
      exact .inl ⟨t, List.cons.inj hlast |>.1, hforsakes⟩
    · rw [List.concat_eq_append, ← List.cons_append, ← List.append_assoc] at hsplit
      obtain ⟨rfl, -⟩ := List.append_inj' hsplit rfl
      refine .inr ⟨before, t, rest, rfl, hforsakes, fun mid hmid => hunused mid ?_⟩
      exact hmid.trans (by simp)
  · rintro ⟨⟨t, rfl, hforsakes⟩ | ⟨before, t, after, rfl, hforsakes, hunused⟩, hlast⟩
    · refine ⟨actions, t, [], rfl, hforsakes, fun mid hmid => ?_⟩
      rwa [List.prefix_nil.mp hmid]
    · refine ⟨before, t, after ++ [a], by simp, hforsakes, fun mid hmid => ?_⟩
      rcases List.prefix_concat_iff.mp hmid with rfl | hmid
      · simpa using hlast
      · exact hunused mid hmid

/-- **A whole run.** The keys that linger are the orphaned ones. -/
theorem Registry.lingers_run_iff (actions : List RegistryAction) (key : Key) :
    (Registry.run {} actions).Lingers key ↔ Orphaned actions key := by
  -- The last action decides, so the run is taken apart from its end.
  induction actions using List.reverseRecOn with
  | nil => simp [Lingers, HasEntry, Orphaned]
  | append_singleton actions a ih =>
    have hwf : (Registry.run {} actions).WellFormed := Reachable.wellFormed ⟨actions, rfl⟩
    have hrun : Registry.run {} (actions ++ [a]) = (Registry.run {} actions).step a := by
      simp [run_append]
    rw [orphaned_concat_iff, hrun, hwf.lingers_step_iff, ih]

/-! ## While nobody gives anything back -/

namespace Registry

/-- No task is giving its locks back or pruning its keys. -/
def Quiet (r : Registry) : Prop :=
  ∀ task ∈ r.tasks, ∀ ending stale, task.stage ≠ .leaving ending stale

/-- In a quiet registry a key is minded only by those who use it. -/
theorem Quiet.minded_iff_inUse {r : Registry} (h : r.Quiet) {key : Key} :
    r.Minded key ↔ r.InUse key := by
  refine ⟨?_, InUse.minded⟩
  rintro ⟨task, hmem, hkey⟩
  have hstale : task.stale = [] := by
    cases hs : task.stage with
    | leaving ending stale => exact absurd hs (h task hmem ending stale)
    | _ => simp [Task.stale, hs]
  exact ⟨task, hmem, by simpa [Task.minded, hstale] using hkey⟩

/-- The keys of a well-formed registry are counted by any list that holds each of them once. -/
theorem WellFormed.size_eq_length {r : Registry} (h : r.WellFormed) {keys : List Key}
    (hnodup : keys.Nodup) (hkeys : ∀ key, key ∈ keys ↔ r.HasEntry key) :
    r.size = keys.length := by
  have hperm : keys.Perm (r.entries.map Prod.fst) :=
    (List.perm_ext_iff_of_nodup hnodup h.keys_nodup).mpr hkeys
  rw [size, hperm.length_eq, List.length_map]

/-- **What is remembered.** While no task gives anything back, the keys in a registry are those in
use and the orphaned ones. So its size is their number, and once all tasks are over it is empty
exactly if no key is orphaned. -/
theorem entries_of_quiet (actions : List RegistryAction)
    (hquiet : (Registry.run {} actions).Quiet) :
    (∀ key, (Registry.run {} actions).HasEntry key ↔
      (Registry.run {} actions).InUse key ∨ Orphaned actions key) ∧
    (∀ keys : List Key, keys.Nodup →
      (∀ key, key ∈ keys ↔ (Registry.run {} actions).InUse key ∨ Orphaned actions key) →
        (Registry.run {} actions).size = keys.length) ∧
    ((∀ task ∈ (Registry.run {} actions).tasks, ∃ ending, task.stage = .over ending) →
      ((Registry.run {} actions).size = 0 ↔ ∀ key, ¬ Orphaned actions key)) := by
  have hwf : (Registry.run {} actions).WellFormed := Reachable.wellFormed ⟨actions, rfl⟩
  have hentries : ∀ key, (Registry.run {} actions).HasEntry key ↔
      (Registry.run {} actions).InUse key ∨ Orphaned actions key := by
    intro key
    rw [← lingers_run_iff]
    constructor
    · intro hentry
      by_cases huse : (Registry.run {} actions).InUse key
      · exact .inl huse
      · exact .inr ⟨hentry, fun hminded => huse (hquiet.minded_iff_inUse.mp hminded)⟩
    · rintro (⟨task, hmem, hclaimed⟩ | hlingers)
      · obtain ⟨t, ht⟩ := List.mem_iff_getElem?.mp hmem
        obtain ⟨lock, huses⟩ := Task.exists_usesFor_of_mem_claimed hclaimed
        exact List.mem_map_of_mem (f := Prod.fst) (hwf.registered ht _ huses)
      · exact hlingers.1
  refine ⟨hentries, fun keys hnodup hkeys => ?_, fun hover => ?_⟩
  · exact hwf.size_eq_length hnodup fun key => (hkeys key).trans (hentries key).symm
  · have hunused : ∀ key, ¬ (Registry.run {} actions).InUse key := by
      rintro key ⟨task, hmem, hclaimed⟩
      obtain ⟨t, ht⟩ := List.mem_iff_getElem?.mp hmem
      obtain ⟨ending, hs⟩ := hover task hmem
      have hguards : task.guards = [] := by
        have hprogress := (hwf.orderly ht).progress
        rwa [Task.Progress, hs] at hprogress
      simp [Task.claimed, Task.heldKeys, hguards, Task.pursuit?, hs] at hclaimed
    rw [size, List.length_eq_zero_iff, ← List.map_eq_nil_iff (f := Prod.fst),
      List.eq_nil_iff_forall_not_mem]
    refine forall_congr' fun key => not_congr ((hentries key).trans ?_)
    exact or_iff_right (hunused key)

/-- The first task gives back the lock that the second one waits for, and the second one is given up
before it has noticed. Both are over then, and the registry still has the lock. -/
example :
    let r := Registry.run {} [.begin ["vg0"] none, .begin ["vg0"] none, .advance 0, .advance 0,
      .advance 0, .advance 1, .advance 1, .finish 0, .advance 0, .advance 0, .advance 0,
      .abandon 1, .advance 1]
    r.tasks.map Task.stage = [.over .released, .over .abandoned] ∧ r.size = 1 := by
  decide

end Registry

end LvmControl.Lock
