import LvmControl.Proofs.Lock.WellFormed

/-!
# What becomes of one task

`Registry.Change` says what an action does to a whole registry. A statement about one task on its
way through many actions needs less: which moves that task can make, and at whose instance. The
lines, the entries and the other tasks decide when a move is made, but not where it leads.

## Main definitions

* `Task.Move`: the moves of a task.
* `Task.ending?`: how a task that gives everything back came to do so.
* `Registry.Spares`: what two states of a registry have in common for everybody but one task.

## Main statements

* `Registry.move_step`: an action makes a task do one of the moves or leaves it as it is.
* `Task.Move.ending`: once a task gives everything back it goes on doing so, for the same reason.
* `Registry.exists_over`: a task that gives everything back is over after steps of its own.
* `Registry.WellFormed.spares_step`: what a task does leaves the others what they have.

## Design notes

**Own actions.** A task moves by its own next step, by being finished and by being given up. Each
move carries the action that makes it, so that a run without one of these actions has none of the
moves that it makes.
-/

namespace LvmControl.Lock

/-- The action is the next step of the task, or finishes the task or gives it up. -/
def RegistryAction.IsOf (t : TaskId) (a : RegistryAction) : Prop :=
  a = .advance t ∨ a = .finish t ∨ a = .abandon t

namespace Task

/-- How a task that gives everything back, or has done so, came to do so. -/
def ending? (task : Task) : Option Ending :=
  match task.stage with
  | .leaving ending _ => some ending
  | .over ending => some ending
  | _ => none

/-- The steps that a task needs to give everything back: one for every lock that it has, one for
every key that it is to prune, and the last one. -/
def dues (task : Task) : Nat :=
  match task.stage with
  | .leaving _ stale => task.guards.length + stale.length + 1
  | _ => 0

theorem acquisition_eq_cancelled_iff {task : Task} {key : Key} :
    task.acquisition = .cancelled key ↔ task.ending? = some (.cancelled key) := by
  unfold acquisition ending?
  cases task.stage with
  | leaving ending stale => cases ending <;> simp
  | «over» ending => cases ending <;> simp
  | _ => simp

theorem acquisition_eq_acquired_iff {task : Task} {held : List Key} :
    task.acquisition = .acquired held ↔ task.stage = .complete ∧ task.heldKeys = held := by
  unfold acquisition
  cases task.stage with
  | leaving ending stale => cases ending <;> simp
  | «over» ending => cases ending <;> simp
  | _ => simp

/-- The moves of the task of the number, given the tokens that have fired. -/
inductive Move (fired : List Token) (t : TaskId) : RegistryAction → Task → Task → Prop
  /-- It has all its keys. -/
  | completed {task : Task} (hs : task.stage = .choosing []) :
      Move fired t (.advance t) task { task with stage := .complete }
  /-- It finds or makes the lock of its next key. -/
  | turned {task : Task} {key : Key} {remaining : List Key} (lock : LockId)
      (hs : task.stage = .choosing (key :: remaining)) :
      Move fired t (.advance t) task { task with stage := .arrived key lock remaining }
  /-- It joins the line of a lock that is not free. -/
  | lined {task : Task} {key : Key} {lock : LockId} {remaining : List Key}
      (hs : task.stage = .arrived key lock remaining) (hc : task.isCancelled fired = false) :
      Move fired t (.advance t) task { task with stage := .queued key lock remaining }
  /-- It gets the lock that it is after. -/
  | granted {task : Task} {key : Key} {lock : LockId} {remaining : List Key}
      (hs : task.stage = .arrived key lock remaining ∨ task.stage = .queued key lock remaining)
      (hc : task.isCancelled fired = false) :
      Move fired t (.advance t) task (task.grant key lock remaining)
  /-- Its token has fired when it is after a lock. -/
  | cancelled {task : Task} {key : Key} {lock : LockId} {remaining : List Key}
      (hs : task.stage = .arrived key lock remaining ∨ task.stage = .queued key lock remaining)
      (hc : task.isCancelled fired = true) :
      Move fired t (.advance t) task (task.leave (.cancelled key) (task.heldKeys ++ [key]))
  /-- It gives one of its locks back. -/
  | returned {task : Task} {ending : Ending} {stale : List Key} {guard : Key × LockId}
      {guards : List (Key × LockId)} (hs : task.stage = .leaving ending stale)
      (hg : task.guards = guard :: guards) :
      Move fired t (.advance t) task { task with guards := guards }
  /-- It prunes a key. -/
  | pruned {task : Task} {ending : Ending} {key : Key} {rest : List Key}
      (hs : task.stage = .leaving ending (key :: rest)) (hg : task.guards = []) :
      Move fired t (.advance t) task (task.leave ending rest)
  | ended {task : Task} {ending : Ending} (hs : task.stage = .leaving ending [])
      (hg : task.guards = []) :
      Move fired t (.advance t) task { task with stage := .over ending }
  | finished {task : Task} (hs : task.stage = .complete) :
      Move fired t (.finish t) task (task.leave .released task.heldKeys)
  | abandoned {task : Task} (hs : task.ending? = none) :
      Move fired t (.abandon t) task (task.leave .abandoned task.heldKeys)

namespace Move

variable {fired : List Token} {t : TaskId} {a : RegistryAction} {old new : Task}

/-- A move is made by an action of the task. -/
theorem isOf (h : Move fired t a old new) : a.IsOf t := by
  cases h with
  | finished _ => exact .inr (.inl rfl)
  | abandoned _ => exact .inr (.inr rfl)
  | _ => exact .inl rfl

theorem keys (h : Move fired t a old new) : new.keys = old.keys := by
  cases h <;> rfl

theorem token (h : Move fired t a old new) : new.token = old.token := by
  cases h <;> rfl

/-- Once a task gives everything back it goes on doing so, for the same reason, and gets nothing
more. -/
theorem ending (h : Move fired t a old new) {e : Ending} (he : old.ending? = some e) :
    new.ending? = some e ∧ new.guards ⊆ old.guards ∧ new.pursuit? = none := by
  cases h with
  | returned hs hg =>
    refine ⟨by simpa [ending?, hs] using he, ?_, by simp [pursuit?, hs]⟩
    exact hg ▸ List.subset_cons_self _ _
  | pruned hs hg | ended hs hg =>
    exact ⟨by simpa [ending?, hs] using he, List.Subset.refl _, by simp [pursuit?]⟩
  | completed hs | turned lock hs | lined hs hc | finished hs => simp [ending?, hs] at he
  | granted hs hc | cancelled hs hc => rcases hs with hs | hs <;> simp [ending?, hs] at he
  | abandoned hs => cases hs.symm.trans he

/-- A task that is over moves no more. -/
theorem not_over (h : Move fired t a old new) (e : Ending) : old.stage ≠ .over e := by
  intro hover
  cases h with
  | granted hs _ | cancelled hs _ => rcases hs with hs | hs <;> cases hs.symm.trans hover
  | abandoned hs => simp [ending?, hover] at hs
  | completed hs | turned _ hs | lined hs _ | returned hs _ | pruned hs _ | ended hs _
  | finished hs => cases hs.symm.trans hover

/-- A step that a task takes by itself cancels it, or leaves why it gives everything back, if it
does, as it was. -/
theorem ending_of_advance (h : Move fired t (.advance t) old new) :
    new.ending? = old.ending? ∨ ∃ key, new.ending? = some (.cancelled key) := by
  cases h with
  | granted hs hc => rcases hs with hs | hs <;> simp [ending?, hs]
  | cancelled hs hc => exact .inr ⟨_, rfl⟩
  | completed hs | turned lock hs | lined hs hc | returned hs hg | pruned hs hg | ended hs hg =>
    simp [ending?, hs]

/-- A task that has all its keys takes no step by itself. -/
theorem ne_complete (h : Move fired t (.advance t) old new) : old.stage ≠ .complete := by
  cases h with
  | granted hs hc | cancelled hs hc => rcases hs with hs | hs <;> simp [hs]
  | completed hs | turned lock hs | lined hs hc | returned hs hg | pruned hs hg | ended hs hg =>
    simp [hs]

end Move

end Task

namespace Registry

variable {r r' : Registry}

/-- A change makes a task do one of its moves or leaves it as it is. -/
theorem Change.move {a : RegistryAction} (h : r.Change a r') {t : TaskId} {task : Task}
    (ht : r.tasks[t]? = some task) :
    r'.tasks[t]? = some task ∨
      ∃ task', r'.tasks[t]? = some task' ∧ task.Move r.fired t a task' := by
  -- What one task does is a move of that task, and the others stay as they are.
  have hmove : ∀ {u : TaskId} {old new : Task}, r.tasks[u]? = some old →
      r'.tasks = r.tasks.set u new → old.Move r.fired u a new →
        r'.tasks[t]? = some task ∨
          ∃ task', r'.tasks[t]? = some task' ∧ task.Move r.fired t a task' := by
    intro u old new hu htasks hmove
    rw [htasks, getElem?_set_of_some hu]
    by_cases htu : t = u
    · subst htu
      obtain rfl : old = task := Option.some.inj (hu.symm.trans ht)
      exact .inr ⟨new, by simp, hmove⟩
    · exact .inl (by simp [htu, ht])
  cases h with
  | nothing a => exact .inl ht
  | begun keys token => exact .inl (getElem?_concat_of_some ht _)
  | fired token => exact .inl ht
  | completed hu hs => exact hmove hu rfl (.completed hs)
  | found hu hs hl => exact hmove hu rfl (.turned _ hs)
  | made hu hs hl => exact hmove hu rfl (.turned _ hs)
  | refused hu hs hc => exact hmove hu rfl (.cancelled (.inl hs) hc)
  | taken hu hs hc hl => exact hmove hu rfl (.granted (.inl hs) hc)
  | lined hu hs hc hl => exact hmove hu rfl (.lined hs hc)
  | withdrawn hu hs hc => exact hmove hu rfl (.cancelled (.inr hs) hc)
  | noticed hu hs hc hl => exact hmove hu rfl (.granted (.inr hs) hc)
  | returned hu hs hg => exact hmove hu rfl (.returned hs hg)
  | pruned hu hs hg => exact hmove hu (by simp) (.pruned hs hg)
  | ended hu hs hg => exact hmove hu rfl (.ended hs hg)
  | finished hu hs => exact hmove hu rfl (.finished hs)
  | abandoned hu hs =>
    refine hmove hu rfl (.abandoned ?_)
    rcases hs with hs | ⟨remaining, hs⟩ | ⟨key, lock, remaining, hs⟩ <;> simp [Task.ending?, hs]
  | deserted hu hs => exact hmove hu rfl (.abandoned (by simp [Task.ending?, hs]))

/-- **One action.** It makes a task do one of its moves or leaves it as it is. -/
theorem move_step {t : TaskId} {task : Task} (ht : r.tasks[t]? = some task) (a : RegistryAction) :
    (r.step a).tasks[t]? = some task ∨
      ∃ task', (r.step a).tasks[t]? = some task' ∧ task.Move r.fired t a task' :=
  (r.step_change a).move ht

/-- A task that is over has nothing, is after nothing and stands in no line. -/
theorem WellFormed.free_of_over (h : r.WellFormed) {t : TaskId} {task : Task}
    (ht : r.tasks[t]? = some task) {ending : Ending} (hs : task.stage = .over ending) :
    task.guards = [] ∧ task.pursuit? = none ∧ ∀ lock, t ∉ r.line lock := by
  have hguards : task.guards = [] := by
    have hprogress := (h.orderly ht).progress
    rwa [Task.Progress, hs] at hprogress
  refine ⟨hguards, by simp [Task.pursuit?, hs], fun lock => ?_⟩
  rw [h.mem_line_iff ht]
  simp [Task.Stands, Task.awaited?, hguards, hs]

/-- A task that has all its keys and is finished gives them back. -/
theorem exists_finished {t : TaskId} {task : Task} (ht : r.tasks[t]? = some task)
    (hs : task.stage = .complete) :
    ∃ task', (r.step (.finish t)).tasks[t]? = some task' ∧ task'.ending? = some .released := by
  refine ⟨task.leave .released task.heldKeys, ?_, rfl⟩
  simp [step, finish, ht, hs, getElem?_set_of_some ht]

/-- A task that is given up gives everything back, for the reason that it has already if it has
one. -/
theorem exists_abandoned {t : TaskId} {task : Task} (ht : r.tasks[t]? = some task) :
    ∃ task', (r.step (.abandon t)).tasks[t]? = some task' ∧
      task'.ending? = some (task.ending?.getD .abandoned) := by
  cases hs : task.stage with
  | leaving ending stale =>
    exact ⟨task, by simp [step, abandon, ht, hs], by simp [Task.ending?, hs]⟩
  | «over» ending =>
    exact ⟨task, by simp [step, abandon, ht, hs], by simp [Task.ending?, hs]⟩
  | _ =>
    refine ⟨task.leave .abandoned task.heldKeys, ?_, by simp [Task.ending?, hs]⟩
    simp [step, abandon, ht, hs, getElem?_set_of_some ht]

/-- A task that gives everything back has one step less to take after each of its steps. -/
theorem dues_step {t : TaskId} {task : Task} {ending : Ending} {stale : List Key}
    (ht : r.tasks[t]? = some task) (hs : task.stage = .leaving ending stale) :
    ∃ next, (r.step (.advance t)).tasks[t]? = some next ∧ next.ending? = some ending ∧
      next.dues < task.dues := by
  cases hg : task.guards with
  | cons guard guards =>
    refine ⟨{ task with guards := guards }, ?_, by simp [Task.ending?, hs], ?_⟩
    · simp [step, advance, ht, hs, hg, getElem?_set_of_some ht]
    · simp [Task.dues, hs, hg]
  | nil =>
    cases stale with
    | cons key rest =>
      refine ⟨task.leave ending rest, ?_, by simp [Task.ending?], ?_⟩
      · simp [step, advance, ht, hs, hg, getElem?_set_of_some ht]
      · simp [Task.dues, hs, hg]
    | nil =>
      refine ⟨{ task with stage := .over ending }, ?_, by simp [Task.ending?], ?_⟩
      · simp [step, advance, ht, hs, hg, getElem?_set_of_some ht]
      · simp [Task.dues, hs, hg]

/-- A task that gives everything back is over after some steps of its own. -/
theorem exists_over {t : TaskId} {task : Task} {ending : Ending} (ht : r.tasks[t]? = some task)
    (he : task.ending? = some ending) :
    ∃ n task', (r.run (List.replicate n (.advance t))).tasks[t]? = some task' ∧
      task'.stage = .over ending := by
  induction hdues : task.dues using Nat.strongRecOn generalizing r task with
  | ind dues ih =>
    cases hs : task.stage with
    | leaving e stale =>
      obtain rfl : e = ending := by simpa [Task.ending?, hs] using he
      obtain ⟨next, hnext, hending, hless⟩ := dues_step ht hs
      obtain ⟨n, task', ht', hover⟩ := ih _ (hdues ▸ hless) hnext hending rfl
      exact ⟨n + 1, task', by simpa [List.replicate_succ] using ht', hover⟩
    | «over» e =>
      obtain rfl : e = ending := by simpa [Task.ending?, hs] using he
      exact ⟨0, task, ht, hs⟩
    | _ => simp [Task.ending?, hs] at he

/-! ## What the others keep -/

/-- Between the two states nobody but the task has lost or gained anything: the other tasks are as
they were, in the same order in every line, whoever of them was at the head of a line still is, and
the registry still has the locks that they use. -/
structure Spares (t : TaskId) (r r' : Registry) : Prop where
  tasks : ∀ u, u ≠ t → r'.tasks[u]? = r.tasks[u]?
  lines : ∀ lock, (r'.line lock).filter (· ≠ t) = (r.line lock).filter (· ≠ t)
  heads : ∀ lock u, u ≠ t → (r.line lock).head? = some u → (r'.line lock).head? = some u
  entries : ∀ u other, u ≠ t → r.tasks[u]? = some other → ∀ e, other.UsesFor e → e ∈ r'.entries
  fired : r'.fired = r.fired

/-- A task at the end of a line takes nobody's place. -/
theorem filter_joinLine {t : TaskId} {lock : LockId} (hlock : lock < r.lines.length) (l : LockId) :
    ((r.joinLine t lock).line l).filter (· ≠ t) = (r.line l).filter (· ≠ t) := by
  rw [r.line_joinLine hlock]
  split <;> simp

/-- A task that leaves a line takes only itself out of it. -/
theorem WellFormed.filter_leaveLine (h : r.WellFormed) (t : TaskId) (lock l : LockId) :
    ((r.leaveLine t lock).line l).filter (· ≠ t) = (r.line l).filter (· ≠ t) := by
  rw [r.line_leaveLine]
  split
  · rw [(h.line_nodup l).erase_eq_filter, List.filter_filter]
    exact List.filter_congr fun u _ => by by_cases hut : u = t <;> simp [hut]
  · rfl

namespace Change

variable {t : TaskId} {a : RegistryAction}

/-- What a task does makes no token fire. -/
theorem fired_eq (h : r.Change a r') (ha : a.IsOf t) : r'.fired = r.fired := by
  cases h with
  | fired token => simp [RegistryAction.IsOf] at ha
  | pruned _ _ _ => simp
  | _ => rfl

/-- What a task does moves no other task. -/
theorem getElem?_of_ne (h : r.Change a r') (ha : a.IsOf t) {u : TaskId} (hut : u ≠ t) :
    r'.tasks[u]? = r.tasks[u]? := by
  rcases h.tasks with htasks | ⟨keys, token, rfl, -⟩ | ⟨v, old, new, hv, htasks, -, -, hwhy⟩
  · rw [htasks]
  · simp [RegistryAction.IsOf] at ha
  · obtain rfl : v = t := by
      rcases hwhy with ⟨rfl, -⟩ | rfl | rfl <;> simpa [RegistryAction.IsOf] using ha
    rw [htasks, getElem?_set_of_some hv, if_neg hut]

/-- A task leaves the lines as they are, joins one or leaves one. -/
theorem line_cases (h : r.Change a r') (hwf : r.WellFormed) (ha : a.IsOf t) :
    (∀ l, r'.line l = r.line l) ∨
      (∃ lock < r.lines.length, ∀ l, r'.line l = (r.joinLine t lock).line l) ∨
        ∃ lock, ∀ l, r'.line l = (r.leaveLine t lock).line l := by
  cases h with
  | begun keys token | fired token => simp [RegistryAction.IsOf] at ha
  | nothing a | completed hu hs | found hu hs hl | refused hu hs hc | noticed hu hs hc hl
  | ended hu hs hg | finished hu hs | abandoned hu hs => exact .inl fun _ => rfl
  | made hu hs hl | pruned hu hs hg => exact .inl fun l => by simp
  | taken hu hs hc hl | lined hu hs hc hl =>
    rename_i u task key lock remaining
    obtain rfl : u = t := by simpa [RegistryAction.IsOf] using ha
    have hlock := hwf.lock_lt hu (.inr (Task.pursuit?_of_arrived hs))
    exact .inr (.inl ⟨lock, hlock, fun _ => rfl⟩)
  | withdrawn hu hs hc | deserted hu hs =>
    rename_i u task key lock remaining
    obtain rfl : u = t := by simpa [RegistryAction.IsOf] using ha
    exact .inr (.inr ⟨lock, fun _ => rfl⟩)
  | returned hu hs hg =>
    rename_i u task ending stale key lock guards
    obtain rfl : u = t := by simpa [RegistryAction.IsOf] using ha
    exact .inr (.inr ⟨lock, fun _ => rfl⟩)

end Change

/-- What has fired after an action. -/
theorem mem_fired_step {a : RegistryAction} {token : Token} :
    token ∈ (r.step a).fired ↔ token ∈ r.fired ∨ a = .fire token := by
  have hown : ∀ t, a.IsOf t → (r.step a).fired = r.fired := fun t => (r.step_change a).fired_eq
  cases a with
  | fire fired => simp [step, or_comm, eq_comm]
  | begin keys token => simp [step, Registry.begin]
  | advance t | finish t | abandon t => simp [hown t (by simp [RegistryAction.IsOf])]

/-- What has fired after actions in order. -/
theorem mem_fired_run {actions : List RegistryAction} {token : Token} :
    token ∈ (r.run actions).fired ↔ token ∈ r.fired ∨ .fire token ∈ actions := by
  induction actions generalizing r with
  | nil => simp
  | cons a actions ih =>
    rw [run_cons, ih, mem_fired_step, or_assoc, List.mem_cons, eq_comm (a := a)]

/-- What has fired stays fired. -/
theorem fired_subset_step (r : Registry) (a : RegistryAction) : r.fired ⊆ (r.step a).fired :=
  fun _ hfired => mem_fired_step.mpr (.inl hfired)

/-- **What a task leaves alone.** Whatever it does on its own, and whether it is finished or given
up, the others keep what they have and their places. -/
theorem WellFormed.spares_step (h : r.WellFormed) {t : TaskId} {a : RegistryAction}
    (ha : a.IsOf t) : Spares t r (r.step a) := by
  have hchange := r.step_change a
  have htasks : ∀ u, u ≠ t → (r.step a).tasks[u]? = r.tasks[u]? :=
    fun u hut => hchange.getElem?_of_ne ha hut
  have hentries : ∀ u other, u ≠ t → r.tasks[u]? = some other → ∀ e, other.UsesFor e →
      e ∈ (r.step a).entries :=
    fun u other hut hu => (h.step a).registered ((htasks u hut).trans hu)
  have hfired := hchange.fired_eq ha
  rcases hchange.line_cases h ha with hline | ⟨lock, hlock, hline⟩ | ⟨lock, hline⟩
  · refine ⟨htasks, fun l => by rw [hline], fun l u _ hu => ?_, hentries, hfired⟩
    rwa [hline]
  · refine ⟨htasks, fun l => ?_, fun l u _ hu => ?_, hentries, hfired⟩
    · rw [hline, filter_joinLine hlock]
    · rw [hline, r.line_joinLine hlock]
      split
      · simp [List.head?_append, hu]
      · exact hu
  · refine ⟨htasks, fun l => ?_, fun l u hut hu => ?_, hentries, hfired⟩
    · rw [hline, h.filter_leaveLine]
    · rw [hline, r.line_leaveLine]
      split
      · exact head?_erase_of_ne hut hu
      · exact hu

end Registry

end LvmControl.Lock
