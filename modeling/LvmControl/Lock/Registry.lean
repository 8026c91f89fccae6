import LvmControl.Process.Context

/-!
# The registry of locks

Calls that change the same thing must not run at the same time. What a call changes is given by
keys, and a registry has a lock for every key that is in use. Any number of tasks acquire locks at
the same time, and every one of them can be interrupted between any two of its steps, so the
registry is a machine that takes one step of one task after another.

## Main definitions

* `distinctKeys`: the keys of a list in ascending order, each once.
* `Stage`: how far a task has come.
* `Registry`: the locks, the lines in front of them and the tasks.
* `Registry.advance`: the next step of a task on its own.
* `RegistryAction`, `Registry.step`, `Registry.run`: everything that can happen.
* `Registry.Reachable`: the states that some sequence of actions leads to.
* `Registry.acquire`: a task that acquires keys while nothing else happens.

## Design notes

**A lock is a line of tasks.** The head of the line has the lock and the others wait for it in the
order in which they came. A task that leaves the line hands the lock over to the next one if it was
the head; the next one may not have noticed yet.

**Locks come and go.** The lock of a key is made when a task looks for it and there is none, and the
registry forgets a lock when a task prunes its key and no task uses it. A key may thus have had
several locks; a lock is known by its number, and numbers are not used again.

**Ascending order.** A task takes its keys one after another in ascending order and so never waits
for a key below one that it holds.

**Giving back is not one step.** A task gives its locks back one after another and then prunes the
keys one after another, and other tasks take steps in between.
-/

namespace LvmControl.Lock

/-- A name that is locked. -/
abbrev Key := String

/-- The number of a lock. -/
abbrev LockId := Nat

/-- The number of a task. -/
abbrev TaskId := Nat

/-! ## Keys -/

/-- Puts a key into an ascending list, unless it is there. -/
def insertKey (key : Key) : List Key → List Key
  | [] => [key]
  | k :: ks =>
    if key < k then key :: k :: ks else if k < key then k :: insertKey key ks else k :: ks

/-- The keys of a list in ascending order, each once. -/
def distinctKeys (keys : List Key) : List Key := keys.foldr insertKey []

@[simp] theorem mem_insertKey {key k : Key} {ks : List Key} :
    k ∈ insertKey key ks ↔ k = key ∨ k ∈ ks := by
  induction ks with
  | nil => simp [insertKey]
  | cons x xs ih =>
    unfold insertKey
    split
    · simp
    · split
      · simp only [List.mem_cons, ih]
        constructor
        · rintro (h | h | h) <;> simp [h]
        · rintro (h | h | h) <;> simp [h]
      · rename_i h₁ h₂
        have hx : key = x := String.le_antisymm (String.not_lt.mp h₂) (String.not_lt.mp h₁)
        subst hx
        simp

/-- The distinct keys are the keys. -/
@[simp] theorem mem_distinctKeys {k : Key} {keys : List Key} :
    k ∈ distinctKeys keys ↔ k ∈ keys := by
  induction keys with
  | nil => simp [distinctKeys]
  | cons x xs ih =>
    rw [show distinctKeys (x :: xs) = insertKey x (distinctKeys xs) from rfl, mem_insertKey, ih,
      List.mem_cons]

theorem pairwise_insertKey {key : Key} {ks : List Key} (h : ks.Pairwise (· < ·)) :
    (insertKey key ks).Pairwise (· < ·) := by
  induction ks with
  | nil => simp [insertKey]
  | cons x xs ih =>
    have hx := List.pairwise_cons.mp h
    unfold insertKey
    split
    · rename_i hlt
      refine List.pairwise_cons.mpr ⟨?_, h⟩
      intro y hy
      rcases List.mem_cons.mp hy with rfl | hy
      · exact hlt
      · exact String.lt_trans hlt (hx.1 y hy)
    · split
      · rename_i hlt
        refine List.pairwise_cons.mpr ⟨?_, ih hx.2⟩
        intro y hy
        rcases mem_insertKey.mp hy with rfl | hy
        · exact hlt
        · exact hx.1 y hy
      · exact h

/-- The distinct keys ascend. -/
theorem pairwise_distinctKeys (keys : List Key) : (distinctKeys keys).Pairwise (· < ·) := by
  induction keys with
  | nil => simp [distinctKeys]
  | cons x xs ih => exact pairwise_insertKey ih

/-! ## Tasks -/

/-- Why a task is done with its keys. -/
inductive Ending
  /-- It had all its keys and gave them back. -/
  | released
  /-- Its token fired when it was about to get the key. -/
  | cancelled (key : Key)
  /-- Whoever waited for it gave it up. -/
  | abandoned
deriving DecidableEq, Repr

/-- How far a task has come. -/
inductive Stage
  /-- It is about to look for the lock of the next of the keys. -/
  | choosing (remaining : List Key)
  /-- It has found or made the lock of the key, and has not asked for it yet. -/
  | arrived (key : Key) (lock : LockId) (remaining : List Key)
  /-- It stands in the line for the lock, and has not noticed yet if it has become the head. -/
  | queued (key : Key) (lock : LockId) (remaining : List Key)
  /-- It has all its keys. -/
  | complete
  /-- It gives back the locks that it has, and then prunes the stale keys. -/
  | leaving (ending : Ending) (stale : List Key)
  /-- It has nothing to do with the registry any more. -/
  | over (ending : Ending)
deriving DecidableEq, Repr

/-- A task that acquires the locks of some keys, or has acquired them. -/
structure Task where
  /-- The keys it was asked for, ascending. -/
  keys : List Key
  /-- The token that cancels the acquisition. -/
  token : Option Token
  /-- The locks that it has, with their keys, in the order in which it took them. -/
  guards : List (Key × LockId) := []
  stage : Stage
deriving DecidableEq, Repr

namespace Task

/-- The lock that a task is about to ask for, or waits for. -/
def pursued? (task : Task) : Option LockId :=
  match task.stage with
  | .arrived _ lock _ => some lock
  | .queued _ lock _ => some lock
  | _ => none

/-- Whether a task has a lock, waits for it or is about to ask for it. -/
def uses (task : Task) (lock : LockId) : Bool :=
  task.guards.any (fun g => g.2 = lock) || task.pursued? = some lock

/-- The keys whose locks a task has. -/
def heldKeys (task : Task) : List Key := task.guards.map Prod.fst

/-- A task that turns to giving everything back, with the stale keys given. -/
def leave (task : Task) (ending : Ending) (stale : List Key) : Task :=
  { task with stage := .leaving ending stale }

/-- A task that has got the lock of a key. -/
def grant (task : Task) (key : Key) (lock : LockId) (remaining : List Key) : Task :=
  { task with guards := task.guards ++ [(key, lock)], stage := .choosing remaining }

/-- Whether the token of a task is among those that have fired. -/
def isCancelled (task : Task) (fired : List Token) : Bool := task.token.any fired.contains

end Task

/-! ## The registry -/

/-- The locks in use and the tasks that use them. -/
structure Registry where
  /-- The lock of each key that has one. -/
  entries : List (Key × LockId) := []
  /-- The line of each lock, by its number. -/
  lines : List (List TaskId) := []
  /-- The tasks, by their number. -/
  tasks : List Task := []
  /-- The tokens that have fired. -/
  fired : List Token := []
deriving DecidableEq, Repr

namespace Registry

/-- The number of keys that have a lock. -/
def size (r : Registry) : Nat := r.entries.length

/-- The tasks in the line of a lock. -/
def line (r : Registry) (lock : LockId) : List TaskId := (r.lines[lock]?).getD []

/-- The lock of a key, if it has one. -/
def lockOf? (r : Registry) (key : Key) : Option LockId := r.entries.lookup key

/-- Gives a task a new state. -/
def setTask (r : Registry) (t : TaskId) (task : Task) : Registry :=
  { r with tasks := r.tasks.set t task }

/-- Takes a task out of the line of a lock. -/
def leaveLine (r : Registry) (t : TaskId) (lock : LockId) : Registry :=
  { r with lines := r.lines.modify lock fun line => line.erase t }

/-- Puts a task at the end of the line of a lock. -/
def joinLine (r : Registry) (t : TaskId) (lock : LockId) : Registry :=
  { r with lines := r.lines.modify lock fun line => line ++ [t] }

/-- Makes a lock for a key. -/
def addLock (r : Registry) (key : Key) : Registry :=
  { r with entries := r.entries ++ [(key, r.lines.length)], lines := r.lines ++ [[]] }

/-- Whether any task uses a lock. -/
def isUsed (r : Registry) (lock : LockId) : Bool := r.tasks.any fun task => task.uses lock

/-- Forgets the lock of a key if no task uses it. -/
def prune (r : Registry) (key : Key) : Registry :=
  match r.lockOf? key with
  | none => r
  | some lock =>
    if r.isUsed lock then r else { r with entries := r.entries.filter fun e => e.1 ≠ key }

/-- Finds the lock of a key for a task, or makes it. -/
def approach (r : Registry) (t : TaskId) (task : Task) (key : Key) (remaining : List Key) :
    Registry :=
  match r.lockOf? key with
  | some lock => r.setTask t { task with stage := .arrived key lock remaining }
  | none =>
    (r.addLock key).setTask t { task with stage := .arrived key r.lines.length remaining }

/-- Asks for a lock: puts the task into the line, where it has the lock at once if the line was
empty. -/
def request (r : Registry) (t : TaskId) (task : Task) (key : Key) (lock : LockId)
    (remaining : List Key) : Registry :=
  if r.line lock = [] then (r.joinLine t lock).setTask t (task.grant key lock remaining)
  else (r.joinLine t lock).setTask t { task with stage := .queued key lock remaining }

/-- The next step of a task on its own. A task that waits takes no step before it has become the
head of the line or its token has fired, and the token counts first. -/
def advance (r : Registry) (t : TaskId) : Registry :=
  match r.tasks[t]? with
  | none => r
  | some task =>
    match task.stage with
    | .choosing [] => r.setTask t { task with stage := .complete }
    | .choosing (key :: remaining) => r.approach t task key remaining
    | .arrived key lock remaining =>
      if task.isCancelled r.fired then
        r.setTask t (task.leave (.cancelled key) (task.heldKeys ++ [key]))
      else r.request t task key lock remaining
    | .queued key lock remaining =>
      if task.isCancelled r.fired then
        (r.leaveLine t lock).setTask t (task.leave (.cancelled key) (task.heldKeys ++ [key]))
      else if (r.line lock).head? = some t then r.setTask t (task.grant key lock remaining)
      else r
    | .complete => r
    | .leaving ending stale =>
      match task.guards, stale with
      | (_, lock) :: guards, _ => (r.leaveLine t lock).setTask t { task with guards := guards }
      | [], key :: rest => (r.prune key).setTask t (task.leave ending rest)
      | [], [] => r.setTask t { task with stage := .over ending }
    | .over _ => r

/-- Adds a task that acquires the locks of some keys. -/
def begin (r : Registry) (keys : List Key) (token : Option Token) : Registry :=
  { r with
    tasks := r.tasks ++ [⟨distinctKeys keys, token, [], .choosing (distinctKeys keys)⟩] }

/-- Lets a task that has all its keys give them back. -/
def finish (r : Registry) (t : TaskId) : Registry :=
  match r.tasks[t]? with
  | none => r
  | some task =>
    if task.stage = .complete then r.setTask t (task.leave .released task.heldKeys) else r

/-- Gives a task up. It gives back what it has; a key that it was about to get is not among those
that it prunes. -/
def abandon (r : Registry) (t : TaskId) : Registry :=
  match r.tasks[t]? with
  | none => r
  | some task =>
    match task.stage with
    | .choosing _ => r.setTask t (task.leave .abandoned task.heldKeys)
    | .arrived _ _ _ => r.setTask t (task.leave .abandoned task.heldKeys)
    | .queued _ lock _ => (r.leaveLine t lock).setTask t (task.leave .abandoned task.heldKeys)
    | .complete => r.setTask t (task.leave .abandoned task.heldKeys)
    | .leaving _ _ => r
    | .over _ => r

end Registry

/-- What can happen in a registry. -/
inductive RegistryAction
  /-- A task is added for the keys. -/
  | begin (keys : List Key) (token : Option Token)
  /-- A task takes its next step. -/
  | advance (task : TaskId)
  /-- A token fires. -/
  | fire (token : Token)
  /-- A task with all its keys is to give them back. -/
  | finish (task : TaskId)
  /-- A task is given up. -/
  | abandon (task : TaskId)
deriving DecidableEq, Repr

namespace Registry

/-- The registry after an action. -/
def step (r : Registry) : RegistryAction → Registry
  | .begin keys token => r.begin keys token
  | .advance t => r.advance t
  | .fire token => { r with fired := token :: r.fired }
  | .finish t => r.finish t
  | .abandon t => r.abandon t

/-- The registry after actions in order. -/
def run (r : Registry) (actions : List RegistryAction) : Registry := actions.foldl step r

@[simp] theorem run_nil (r : Registry) : r.run [] = r := rfl

@[simp] theorem run_cons (r : Registry) (a : RegistryAction) (as : List RegistryAction) :
    r.run (a :: as) = (r.step a).run as := rfl

theorem run_append (r : Registry) (as bs : List RegistryAction) :
    r.run (as ++ bs) = (r.run as).run bs := by
  simp [run]

/-- The states that actions lead to from the empty registry. -/
def Reachable (r : Registry) : Prop := ∃ actions, r = run {} actions

/-- The tasks that have become the head of a line and have not noticed yet. -/
def handedOver (r : Registry) : List TaskId :=
  (r.tasks.zipIdx.filter fun (task, t) =>
    match task.stage with
    | .queued _ lock _ => (r.line lock).head? = some t
    | _ => false).map Prod.snd

/-- Whether a task waits in a line and can take no step on its own. -/
def isStuck (r : Registry) (t : TaskId) : Bool :=
  match r.tasks[t]? with
  | none => false
  | some task =>
    match task.stage with
    | .queued _ lock _ => !task.isCancelled r.fired && (r.line lock).head? ≠ some t
    | _ => false

/-- The most steps that a task takes on its own: three for every key (finding the lock, getting it,
giving it back), one for pruning every key, and those between the phases. -/
def stepBound (task : Task) : Nat := 4 * task.keys.length + 4

/-- The registry after a task has taken its steps until it has all its keys, is over or can go no
further by itself. -/
def settle (r : Registry) (t : TaskId) : Registry :=
  (List.replicate (((r.tasks[t]?).map stepBound).getD 0) (RegistryAction.advance t)).foldl step r

end Registry

/-! ## Acquisitions by themselves -/

/-- What can become of a task that is to acquire its keys. -/
inductive Acquisition
  | acquired (keys : List Key)
  | cancelled (key : Key)
  /-- It has not got all its keys, and waits for the next one. -/
  | unfinished (next : Option Key)
deriving DecidableEq, Repr

/-- What became of a task that was to acquire its keys. -/
def Task.acquisition (task : Task) : Acquisition :=
  match task.stage with
  | .complete => .acquired task.heldKeys
  | .leaving (.cancelled key) _ => .cancelled key
  | .over (.cancelled key) => .cancelled key
  | .queued key _ _ => .unfinished (some key)
  | _ => .unfinished none

/-- A registry after a new task has acquired keys as far as it can while nothing else happens, and
what became of the task. -/
def Registry.acquire (r : Registry) (keys : List Key) (token : Option Token) :
    Registry × Acquisition :=
  let t := r.tasks.length
  let r := (r.begin keys token).settle t
  (r, ((r.tasks[t]?).map Task.acquisition).getD (.unfinished none))

end LvmControl.Lock
